import Rf4ce.Crash.Bytes
import Mathlib.Data.List.Basic

/-! The ADPCM codec of `audio_codec_adpcm.c`: `mic_to_adpcm_split` with `start = 1` and
`adpcm_to_pcm`. -/
namespace Rf4ce.Audio
open Crash

def idxtbl : List Int := [-1, -1, -1, -1, 2, 4, 6, 8, -1, -1, -1, -1, 2, 4, 6, 8]

def steptbl : List Int := [
  7, 8, 9, 10, 11, 12, 13, 14, 16, 17,
  19, 21, 23, 25, 28, 31, 34, 37, 41, 45,
  50, 55, 60, 66, 73, 80, 88, 97, 107, 118,
  130, 143, 157, 173, 190, 209, 230, 253, 279, 307,
  337, 371, 408, 449, 494, 544, 598, 658, 724, 796,
  876, 963, 1060, 1166, 1282, 1411, 1552, 1707, 1878, 2066,
  2272, 2499, 2749, 3024, 3327, 3660, 4026, 4428, 4871, 5358,
  5894, 6484, 7132, 7845, 8630, 9493, 10442, 11487, 12635, 13899,
  15289, 16818, 18500, 20350, 22385, 24623, 27086, 29794, 32767]

def adpcmPacketLen : Nat := 84

/-- The variables `predict` and `predict_idx` that encoder and decoder both keep. -/
structure AdpcmState where
  predict : Int
  predictIdx : Int
deriving DecidableEq, Repr

/-- The static variables of the encoder. -/
def AdpcmState.initial : AdpcmState := ⟨0, 1⟩

def clampPredict (p : Int) : Int :=
  if p > 32767 then 32767 else if p < -32767 then -32767 else p

def clampIdx (i : Int) : Int := if i < 0 then 0 else if i > 88 then 88 else i

def AdpcmState.step (st : AdpcmState) : Int := steptbl.getD st.predictIdx.toNat 0

/-- The end of both loop bodies: move the predictor by `diffq` and adapt the step index. -/
def AdpcmState.update (st : AdpcmState) (down : Bool) (diffq : Int) (code : Nat) : AdpcmState :=
  { predict := clampPredict (if down then st.predict - diffq else st.predict + diffq)
    predictIdx := clampIdx (st.predictIdx + idxtbl.getD code 0) }

/-! ### Encoder -/

structure Quant where
  diff : Int
  step : Int
  diffq : Int
  code : Nat

/-- One pass of the loop over `j = 4, 2, 1`. -/
def Quant.next (q : Quant) (j : Nat) : Quant :=
  if q.diff ≥ q.step then ⟨q.diff - q.step, q.step / 2, q.diffq + q.step, q.code + j⟩
  else { q with step := q.step / 2 }

/-- The loop body up to the packing: the code of a sample and the new state. -/
def encodeSample (st : AdpcmState) (di : Int) : Nat × AdpcmState :=
  let step := st.step
  let diff := di - st.predict
  let q : Quant := if diff ≥ 0 then ⟨diff, step, step / 8, 0⟩ else ⟨-diff, step, step / 8, 8⟩
  let q := [4, 2, 1].foldl Quant.next q
  (q.code, st.update (q.code ≥ 8) q.diffq q.code)

/-- `(code16 >> 4) | (code << 12)` -/
def packCode (code16 code : Nat) : Nat := (code16 >>> 4) ||| (code <<< 12)

/-- The sample that the loop reads for index `i`; `fir` is `TL_MIC_32K_FIR_16K`. -/
def micSample (fir : Bool) (ps : Nat → BitVec 16) (i : Nat) : Int :=
  (ps (if fir then i * 2 else i)).toInt

/-- The sample loop, `n` passes from index `i` on: the words it stores and the final state. -/
def micToAdpcmLoop (fir : Bool) (ps : Nat → BitVec 16) : Nat → Nat → Nat → AdpcmState → List Nat × AdpcmState
  | 0, _, _, st => ([], st)
  | n + 1, i, code16, st =>
    let r := encodeSample st (micSample fir ps i)
    let code16 := packCode code16 r.1
    let rest := micToAdpcmLoop fir ps n (i + 1) code16 r.2
    (if i % 4 = 3 then code16 :: rest.1 else rest.1, rest.2)

/-- The four header bytes: `predict`, `predict_idx` and the data length. -/
def adpcmHeader (st : AdpcmState) : List Byte :=
  le16 (BitVec.ofInt 16 st.predict).toNat ++ [BitVec.ofInt 8 st.predictIdx, BitVec.ofNat 8 (adpcmPacketLen - 4)]

/-- `mic_to_adpcm_split (ps, len, pds, 1)`: the packet and the static variables afterwards. -/
def micToAdpcmSplit (fir : Bool) (ps : Nat → BitVec 16) (len : Nat) (st : AdpcmState) :
    List Byte × AdpcmState :=
  let r := micToAdpcmLoop fir ps len 0 0 st
  (adpcmHeader st ++ r.1.flatMap le16, r.2)

/-- The states of the encoder after each sample of a block. -/
def encoderStates (fir : Bool) (ps : Nat → BitVec 16) : Nat → Nat → AdpcmState → List AdpcmState
  | 0, _, _ => []
  | n + 1, i, st =>
    let st := (encodeSample st (micSample fir ps i)).2
    st :: encoderStates fir ps n (i + 1) st

/-! ### Decoder -/

/-- The loop body of `adpcm_to_pcm` up to the next code. -/
def decodeSample (st : AdpcmState) (code : Nat) : AdpcmState :=
  let step := st.step
  let diffq := step / 8
  let diffq := if code.testBit 2 then diffq + step else diffq
  let step := step / 2
  let diffq := if code.testBit 1 then diffq + step else diffq
  let step := step / 2
  let diffq := if code.testBit 0 then diffq + step else diffq
  st.update (code.testBit 3) diffq (code % 16)

/-- The sample loop, `n` passes from index `i` on; `pcode` is the next byte to read. -/
def adpcmToPcmLoop (mem : Nat → Byte) : Nat → Nat → Nat → Nat → AdpcmState → List (BitVec 16)
  | 0, _, _, _, _ => []
  | n + 1, i, pcode, code, st =>
    let st := decodeSample st code
    let next := if i % 2 = 1 then ((mem pcode).toNat, pcode + 1) else (code / 16, pcode)
    BitVec.ofInt 16 st.predict :: adpcmToPcmLoop mem n (i + 1) next.2 next.1 st

/-- The state in the header of the packet at `mem`. -/
def decodeHeader (mem : Nat → Byte) : AdpcmState :=
  ⟨(BitVec.ofNat 16 (ofLe (bytes mem 0 2))).toInt, ofLe (bytes mem 2 2) % 256⟩

/-- `adpcm_to_pcm (mem, pd, len)` -/
def adpcmToPcm (mem : Nat → Byte) (len : Nat) : List (BitVec 16) :=
  adpcmToPcmLoop mem len 0 5 (mem 4).toNat (decodeHeader mem)

/-! ### Range of the state -/

structure AdpcmState.InRange (st : AdpcmState) : Prop where
  predict : -32767 ≤ st.predict ∧ st.predict ≤ 32767
  predictIdx : 0 ≤ st.predictIdx ∧ st.predictIdx ≤ 88

theorem AdpcmState.initial_inRange : AdpcmState.initial.InRange := ⟨by decide, by decide⟩

theorem clampPredict_range (p : Int) : -32767 ≤ clampPredict p ∧ clampPredict p ≤ 32767 := by
  unfold clampPredict
  split_ifs <;> omega

theorem clampIdx_range (i : Int) : 0 ≤ clampIdx i ∧ clampIdx i ≤ 88 := by
  unfold clampIdx
  split_ifs <;> omega

theorem update_inRange (st : AdpcmState) (down : Bool) (diffq : Int) (code : Nat) :
    (st.update down diffq code).InRange := ⟨clampPredict_range _, clampIdx_range _⟩

theorem encodeSample_inRange (st : AdpcmState) (di : Int) : (encodeSample st di).2.InRange :=
  update_inRange ..

theorem encoderStates_inRange (fir : Bool) (ps : Nat → BitVec 16) (n i : Nat) (st : AdpcmState) :
    ∀ s ∈ encoderStates fir ps n i st, s.InRange := by
  induction n generalizing i st with
  | zero => simp [encoderStates]
  | succ n ih =>
    intro s hs
    rcases List.mem_cons.mp hs with rfl | hs
    · exact encodeSample_inRange ..
    · exact ih _ _ s hs

theorem micToAdpcmLoop_inRange (fir : Bool) (ps : Nat → BitVec 16) (n i code16 : Nat) {st : AdpcmState}
    (h : st.InRange) : (micToAdpcmLoop fir ps n i code16 st).2.InRange := by
  induction n generalizing i code16 st with
  | zero => exact h
  | succ n ih => exact ih _ _ (encodeSample_inRange ..)

/-! ### Lock step of one sample -/

/-- Each pass of the quantiser decides one bit of the code. -/
theorem Quant.next_bit (q : Quant) (j : Nat) : ∃ b : Bool, (q.next j).step = q.step / 2 ∧
    (q.next j).diffq = (if b then q.diffq + q.step else q.diffq) ∧
    (q.next j).code = (if b then q.code + j else q.code) := by
  unfold Quant.next
  split_ifs with h
  · exact ⟨true, rfl, rfl, rfl⟩
  · exact ⟨false, rfl, rfl, rfl⟩

/-- The four bits of a code: sign and the three quantiser bits. -/
def codeOf (b₃ b₂ b₁ b₀ : Bool) : Nat := 8 * b₃.toNat + 4 * b₂.toNat + 2 * b₁.toNat + b₀.toNat

theorem codeOf_bits : ∀ b₃ b₂ b₁ b₀ : Bool, codeOf b₃ b₂ b₁ b₀ < 16 ∧
    (codeOf b₃ b₂ b₁ b₀).testBit 3 = b₃ ∧ (codeOf b₃ b₂ b₁ b₀).testBit 2 = b₂ ∧
    (codeOf b₃ b₂ b₁ b₀).testBit 1 = b₁ ∧ (codeOf b₃ b₂ b₁ b₀).testBit 0 = b₀ ∧
    decide (codeOf b₃ b₂ b₁ b₀ ≥ 8) = b₃ := by
  decide

theorem quant_bits (q : Quant) : ∃ b₂ b₁ b₀ : Bool,
    ([4, 2, 1].foldl Quant.next q).code = q.code + codeOf false b₂ b₁ b₀ ∧
    ([4, 2, 1].foldl Quant.next q).diffq =
      let d := if b₂ then q.diffq + q.step else q.diffq
      let d := if b₁ then d + q.step / 2 else d
      if b₀ then d + q.step / 2 / 2 else d := by
  obtain ⟨b₂, hs₂, hd₂, hc₂⟩ := q.next_bit 4
  obtain ⟨b₁, hs₁, hd₁, hc₁⟩ := (q.next 4).next_bit 2
  obtain ⟨b₀, -, hd₀, hc₀⟩ := ((q.next 4).next 2).next_bit 1
  refine ⟨b₂, b₁, b₀, ?_, ?_⟩
  · simp only [List.foldl_cons, List.foldl_nil, hc₀, hc₁, hc₂]
    cases b₂ <;> cases b₁ <;> cases b₀ <;> rfl
  · simp only [List.foldl_cons, List.foldl_nil, hd₀, hd₁, hd₂, hs₁, hs₂]

/-- A code has four bits, and the decoder moves by it as the encoder did. -/
theorem encodeSample_decode (st : AdpcmState) (di : Int) :
    (encodeSample st di).1 < 16 ∧ decodeSample st (encodeSample st di).1 = (encodeSample st di).2 := by
  have hcode (b₃ : Bool) (q : Quant) (hstep : q.step = st.step) (hd : q.diffq = st.step / 8)
      (hc : q.code = codeOf b₃ false false false) :
      ([4, 2, 1].foldl Quant.next q).code < 16 ∧
      decodeSample st ([4, 2, 1].foldl Quant.next q).code =
        st.update (([4, 2, 1].foldl Quant.next q).code ≥ 8) ([4, 2, 1].foldl Quant.next q).diffq
          ([4, 2, 1].foldl Quant.next q).code := by
    obtain ⟨b₂, b₁, b₀, hcode, hdiffq⟩ := quant_bits q
    have hsum : ([4, 2, 1].foldl Quant.next q).code = codeOf b₃ b₂ b₁ b₀ := by
      rw [hcode, hc]
      cases b₃ <;> cases b₂ <;> cases b₁ <;> cases b₀ <;> rfl
    obtain ⟨hlt, h₃, h₂, h₁, h₀, hsign⟩ := codeOf_bits b₃ b₂ b₁ b₀
    rw [hsum, hdiffq, hstep, hd]
    refine ⟨hlt, ?_⟩
    simp only [decodeSample, h₃, h₂, h₁, h₀, hsign, Nat.mod_eq_of_lt hlt]
  unfold encodeSample
  dsimp only
  by_cases hdiff : di - st.predict ≥ 0
  · rw [if_pos hdiff]
    exact hcode false _ rfl rfl rfl
  · rw [if_neg hdiff]
    exact hcode true _ rfl rfl rfl

/-- Only the low four bits of the code count. -/
theorem decodeSample_mod (st : AdpcmState) (code : Nat) : decodeSample st code = decodeSample st (code % 16) := by
  have hbit (j : Nat) (hj : j < 4) : (code % 2 ^ 4).testBit j = code.testBit j := by
    rw [Nat.testBit_mod_two_pow, decide_eq_true hj, Bool.true_and]
  have hmod : code % 16 = code % 2 ^ 4 := rfl
  have hidem : code % 2 ^ 4 % 2 ^ 4 = code % 2 ^ 4 := Nat.mod_mod code (2 ^ 4)
  have hmod' : code % 2 ^ 4 % 16 = code % 2 ^ 4 := hidem
  simp only [decodeSample, hmod, hmod', hbit 0 (by decide), hbit 1 (by decide), hbit 2 (by decide),
    hbit 3 (by decide)]

/-! ### Lock step of a packet -/

theorem packCode_eq {code16 code : Nat} (h : code16 < 65536) (hc : code < 16) :
    packCode code16 code = code16 / 16 + 4096 * code ∧ packCode code16 code < 65536 := by
  have hlow : code16 >>> 4 < 2 ^ 12 := by
    rw [Nat.shiftRight_eq_div_pow]
    omega
  have heq : packCode code16 code = code16 / 16 + 4096 * code := by
    unfold packCode
    rw [Nat.or_comm, ← Nat.shiftLeft_add_eq_or_of_lt hlow, Nat.shiftLeft_eq, Nat.shiftRight_eq_div_pow]
    omega
  exact ⟨heq, by omega⟩

/-- Four codes fill one word, whatever was in it before. -/
theorem packCode_four {w a b c d : Nat} (hw : w < 65536) (ha : a < 16) (hb : b < 16) (hc : c < 16)
    (hd : d < 16) : packCode (packCode (packCode (packCode w a) b) c) d = a + 16 * b + 256 * c + 4096 * d := by
  obtain ⟨h₀, hl₀⟩ := packCode_eq hw ha
  obtain ⟨h₁, hl₁⟩ := packCode_eq hl₀ hb
  obtain ⟨h₂, hl₂⟩ := packCode_eq hl₁ hc
  obtain ⟨h₃, -⟩ := packCode_eq hl₂ hd
  rw [h₃, h₂, h₁, h₀]
  omega

/-- The nibbles of a stored word as the decoder reads them. -/
theorem le16_nibbles {a b : Nat} (ha : a < 16) (hb : b < 16) (c d : Nat) :
    le16 (a + 16 * b + 256 * c + 4096 * d) = [BitVec.ofNat 8 (a + 16 * b), BitVec.ofNat 8 (c + 16 * d)] := by
  have hlow : BitVec.ofNat 8 (a + 16 * b + 256 * c + 4096 * d) = BitVec.ofNat 8 (a + 16 * b) := by
    apply BitVec.eq_of_toNat_eq
    simp only [BitVec.toNat_ofNat]
    omega
  have hhigh : (a + 16 * b + 256 * c + 4096 * d) / 256 = c + 16 * d := by omega
  rw [le16, hlow, hhigh]

theorem toNat_nibbles {a b : Nat} (ha : a < 16) (hb : b < 16) :
    (BitVec.ofNat 8 (a + 16 * b)).toNat = a + 16 * b := by
  rw [BitVec.toNat_ofNat]
  exact Nat.mod_eq_of_lt (by omega)

/-- Two passes of the decoder consume the two nibbles of a byte. -/
theorem adpcmToPcmLoop_two (mem : Nat → Byte) {n i pcode a b : Nat} (st : AdpcmState) (hi : i % 2 = 0)
    (ha : a < 16) :
    adpcmToPcmLoop mem (n + 2) i pcode (a + 16 * b) st =
      BitVec.ofInt 16 (decodeSample st a).predict ::
      BitVec.ofInt 16 (decodeSample (decodeSample st a) b).predict ::
      adpcmToPcmLoop mem n (i + 2) (pcode + 1) (mem pcode).toNat (decodeSample (decodeSample st a) b) := by
  have hlow : decodeSample st (a + 16 * b) = decodeSample st a := by
    rw [decodeSample_mod, Nat.add_mul_mod_self_left, Nat.mod_eq_of_lt ha]
  have hhigh : (a + 16 * b) / 16 = b := by omega
  simp only [adpcmToPcmLoop]
  rw [if_neg (by omega), if_pos (by omega), hlow, hhigh]

/-- From a word boundary on the decoder follows the encoder. -/
theorem adpcmToPcmLoop_micToAdpcmLoop (fir : Bool) (ps : Nat → BitVec 16) (mem : Nat → Byte)
    (m i pcode code16 : Nat) (st : AdpcmState) (hi : i % 4 = 0) (hw : code16 < 65536)
    (hmem : bytes mem pcode (2 * m) = (micToAdpcmLoop fir ps (4 * m) i code16 st).1.flatMap le16) :
    adpcmToPcmLoop mem (4 * m) i (pcode + 1) (mem pcode).toNat st =
      (encoderStates fir ps (4 * m) i st).map fun s => BitVec.ofInt 16 s.predict := by
  induction m generalizing i pcode code16 st with
  | zero => rfl
  | succ m ih =>
    obtain ⟨ha, hda⟩ := encodeSample_decode st (micSample fir ps i)
    generalize hea : encodeSample st (micSample fir ps i) = ea at ha hda
    obtain ⟨hb, hdb⟩ := encodeSample_decode ea.2 (micSample fir ps (i + 1))
    generalize heb : encodeSample ea.2 (micSample fir ps (i + 1)) = eb at hb hdb
    obtain ⟨hc, hdc⟩ := encodeSample_decode eb.2 (micSample fir ps (i + 2))
    generalize hec : encodeSample eb.2 (micSample fir ps (i + 2)) = ec at hc hdc
    obtain ⟨hd, hdd⟩ := encodeSample_decode ec.2 (micSample fir ps (i + 3))
    generalize hed : encodeSample ec.2 (micSample fir ps (i + 3)) = ed at hd hdd
    -- the encoder stores one word for the four codes
    have hpack := packCode_four hw ha hb hc hd
    have hloop : (micToAdpcmLoop fir ps (4 * (m + 1)) i code16 st).1 =
        (ea.1 + 16 * eb.1 + 256 * ec.1 + 4096 * ed.1) ::
        (micToAdpcmLoop fir ps (4 * m) (i + 4) (ea.1 + 16 * eb.1 + 256 * ec.1 + 4096 * ed.1) ed.2).1 := by
      rw [Nat.mul_succ]
      simp only [micToAdpcmLoop, hea, Nat.add_assoc, Nat.reduceAdd, heb, hec, hed, hpack]
      rw [if_neg (by omega), if_neg (by omega), if_neg (by omega), if_pos (by omega)]
    rw [hloop, List.flatMap_cons, le16_nibbles ha hb, Nat.mul_succ, Nat.add_comm (2 * m) 2,
      bytes_append] at hmem
    obtain ⟨hword, hrest⟩ := List.append_inj hmem (by simp)
    have hbytes : [mem pcode, mem (pcode + 1)] =
        [BitVec.ofNat 8 (ea.1 + 16 * eb.1), BitVec.ofNat 8 (ec.1 + 16 * ed.1)] := hword
    simp only [List.cons.injEq, and_true] at hbytes
    obtain ⟨hmem₀, hmem₁⟩ := hbytes
    have hcont := ih (i + 4) (pcode + 2) _ ed.2 (by omega) (by omega) hrest
    rw [Nat.mul_succ, hmem₀, toNat_nibbles ha hb]
    rw [adpcmToPcmLoop_two mem st (by omega) ha, hmem₁, toNat_nibbles hc hd, hda, hdb,
      adpcmToPcmLoop_two mem _ (by omega) hc, hdc, hdd, hcont]
    simp only [encoderStates, hea, Nat.add_assoc, Nat.reduceAdd, heb, hec, hed, List.map_cons]

/-! ### Header and stream -/

theorem ofInt_toInt_of_range {p : Int} (h : -32767 ≤ p ∧ p ≤ 32767) : (BitVec.ofInt 16 p).toInt = p := by
  rw [BitVec.toInt_ofInt]
  exact Int.bmod_eq_of_le (by omega) (by omega)

theorem adpcmHeader_length (st : AdpcmState) : (adpcmHeader st).length = 4 := rfl

/-- A state in range survives the narrowing into the header. -/
theorem decodeHeader_adpcmHeader {st : AdpcmState} (h : st.InRange) {mem : Nat → Byte}
    (hmem : bytes mem 0 4 = adpcmHeader st) : decodeHeader mem = st := by
  have hpre := bytes_sub hmem 0 2 (by decide)
  have hidx := bytes_sub hmem 2 2 (by decide)
  have hpredict : bytes mem 0 2 = le16 (BitVec.ofInt 16 st.predict).toNat := hpre
  have hpredictIdx : bytes mem 2 2 = [BitVec.ofInt 8 st.predictIdx, BitVec.ofNat 8 (adpcmPacketLen - 4)] := hidx
  have hbyte : (BitVec.ofInt 8 st.predictIdx).toNat = st.predictIdx.toNat := by
    have hr := h.predictIdx
    rw [BitVec.toNat_ofInt]
    omega
  have hlt : (BitVec.ofInt 8 st.predictIdx).toNat < 256 := BitVec.isLt _
  unfold decodeHeader
  rw [hpredict, ofLe_le16 (BitVec.isLt _), BitVec.ofNat_toNat, BitVec.setWidth_eq,
    ofInt_toInt_of_range h.predict, hpredictIdx]
  have hmod : ofLe [BitVec.ofInt 8 st.predictIdx, BitVec.ofNat 8 (adpcmPacketLen - 4)] % 256 =
      st.predictIdx.toNat := by
    simp only [ofLe]
    omega
  have hr := h.predictIdx
  cases st with
  | mk predict predictIdx =>
    simp only [AdpcmState.mk.injEq, true_and]
    dsimp only at hmod hr
    omega

theorem encoderStates_length (fir : Bool) (ps : Nat → BitVec 16) (n i : Nat) (st : AdpcmState) :
    (encoderStates fir ps n i st).length = n := by
  induction n generalizing i st with
  | zero => rfl
  | succ n ih => rw [encoderStates, List.length_cons, ih]

theorem micToAdpcmLoop_length (fir : Bool) (ps : Nat → BitVec 16) (m i code16 : Nat) (st : AdpcmState)
    (hi : i % 4 = 0) : (micToAdpcmLoop fir ps (4 * m) i code16 st).1.length = m := by
  induction m generalizing i code16 st with
  | zero => rfl
  | succ m ih =>
    rw [Nat.mul_succ]
    simp only [micToAdpcmLoop]
    rw [if_neg (by omega), if_neg (by omega), if_neg (by omega), if_pos (by omega), List.length_cons,
      ih _ _ _ (by omega)]

theorem micToAdpcmLoop_bytes (fir : Bool) (ps : Nat → BitVec 16) (m : Nat) (st : AdpcmState) :
    ((micToAdpcmLoop fir ps (4 * m) 0 0 st).1.flatMap le16).length = 2 * m := by
  have hwords := micToAdpcmLoop_length fir ps m 0 0 st rfl
  simp [List.length_flatMap, hwords, Nat.mul_comm m 2]

theorem micToAdpcmSplit_length (fir : Bool) (ps : Nat → BitVec 16) (m : Nat) (st : AdpcmState) :
    (micToAdpcmSplit fir ps (4 * m) st).1.length = 4 + 2 * m := by
  rw [← micToAdpcmLoop_bytes fir ps m st]
  exact List.length_append

/-- A packet decodes by itself to the predictors of its block. -/
theorem adpcmToPcm_micToAdpcmSplit (fir : Bool) (ps : Nat → BitVec 16) {len : Nat} (hlen : len % 4 = 0)
    {st : AdpcmState} (hst : st.InRange) {mem : Nat → Byte}
    (hmem : bytes mem 0 (micToAdpcmSplit fir ps len st).1.length = (micToAdpcmSplit fir ps len st).1) :
    adpcmToPcm mem len = (encoderStates fir ps len 0 st).map fun s => BitVec.ofInt 16 s.predict := by
  obtain ⟨m, rfl⟩ : ∃ m, len = 4 * m := ⟨len / 4, by omega⟩
  have hsplit : bytes mem 0 4 ++ bytes mem 4 (2 * m) =
      adpcmHeader st ++ (micToAdpcmLoop fir ps (4 * m) 0 0 st).1.flatMap le16 := by
    rw [micToAdpcmSplit_length, bytes_append] at hmem
    exact hmem
  obtain ⟨hheader, hcodes⟩ := List.append_inj hsplit (by simp [adpcmHeader_length])
  unfold adpcmToPcm
  rw [decodeHeader_adpcmHeader hst hheader]
  exact adpcmToPcmLoop_micToAdpcmLoop fir ps mem m 0 4 0 st rfl (by decide) hcodes

/-- A block of the sample stream. -/
structure MicBlock where
  ps : Nat → BitVec 16
  len : Nat

/-- What the encoder makes of a block, with its static variables before and after each sample. -/
structure EncodedBlock where
  packet : List Byte
  start : AdpcmState
  states : List AdpcmState

/-- A stream encoded block by block. -/
def encodeStream (fir : Bool) : AdpcmState → List MicBlock → List EncodedBlock
  | _, [] => []
  | st, b :: bs =>
    let r := micToAdpcmSplit fir b.ps b.len st
    ⟨r.1, st, encoderStates fir b.ps b.len 0 st⟩ :: encodeStream fir r.2 bs

theorem encodeStream_decodes (fir : Bool) (bs : List MicBlock) (hbs : ∀ b ∈ bs, b.len % 4 = 0)
    {st : AdpcmState} (hst : st.InRange) :
    ∀ e ∈ encodeStream fir st bs, ∀ mem, bytes mem 0 e.packet.length = e.packet →
      (adpcmToPcm mem e.states.length).map BitVec.toInt = e.states.map (·.predict) ∧
      decodeHeader mem = e.start ∧ e.start.InRange ∧ ∀ s ∈ e.states, s.InRange := by
  induction bs generalizing st with
  | nil => simp [encodeStream]
  | cons b bs ih =>
    intro e he
    rcases List.mem_cons.mp he with rfl | he
    · intro mem hmem
      have hlen : b.len % 4 = 0 := hbs b List.mem_cons_self
      have hrange := encoderStates_inRange fir b.ps b.len 0 st
      refine ⟨?_, ?_, hst, hrange⟩
      · rw [encoderStates_length, adpcmToPcm_micToAdpcmSplit fir b.ps hlen hst hmem, List.map_map]
        exact List.map_congr_left fun s hs => ofInt_toInt_of_range (hrange s hs).predict
      · apply decodeHeader_adpcmHeader hst
        have hheader := bytes_sub hmem 0 4 (by simp [micToAdpcmSplit, adpcmHeader_length])
        rw [hheader]
        exact List.take_left' (adpcmHeader_length st)
    · exact ih (fun b' hb' => hbs b' (List.mem_cons_of_mem _ hb')) (micToAdpcmLoop_inRange fir b.ps _ _ _ hst) e he

/-- Every packet of a stream decodes by itself to the predictors of its block; predictor and
step index stay in range and survive the header. -/
theorem micToAdpcmSplit_stream (fir : Bool) (bs : List MicBlock) (hbs : ∀ b ∈ bs, b.len % 4 = 0) :
    ∀ e ∈ encodeStream fir .initial bs, ∀ mem, bytes mem 0 e.packet.length = e.packet →
      (adpcmToPcm mem e.states.length).map BitVec.toInt = e.states.map (·.predict) ∧
      decodeHeader mem = e.start ∧ e.start.InRange ∧ ∀ s ∈ e.states, s.InRange :=
  encodeStream_decodes fir bs hbs AdpcmState.initial_inRange

/-- Two blocks of four samples; the second packet is decoded alone. -/
theorem micToAdpcmSplit_stream_two :
    let bs : List MicBlock := [⟨fun i => [100, 300, 65036, 7].getD i 0, 4⟩, ⟨fun _ => 500, 4⟩]
    ∀ e ∈ encodeStream false .initial bs, ∀ mem, bytes mem 0 e.packet.length = e.packet →
      (adpcmToPcm mem e.states.length).map BitVec.toInt = e.states.map (·.predict) ∧
      decodeHeader mem = e.start ∧ e.start.InRange ∧ ∀ s ∈ e.states, s.InRange :=
  micToAdpcmSplit_stream false _ (by simp)

end Rf4ce.Audio

import Rf4ce.Audio.Adpcm
import Rf4ce.Refine.Run
import Mathlib.Data.List.Flatten

/-! The PCM stream of the dongle, `audio_dec_proc.c`: received packets, decoded frames and the
USB endpoint. -/
namespace Rf4ce.Audio
open Crash Refine

def micAdpcmFrameSize : Nat := 84
def micShortDecSize : Nat := 160
def usbIsoInSize : Nat := 16
def decBufferSize : Nat := micShortDecSize * 4

abbrev Sample := BitVec 16

/-- The static variables. -/
structure Abuf where
  micWptr : BitVec 8
  decWptr : BitVec 8
  decRptr : BitVec 16
  reset : Nat
  mic : Nat → Byte
  dec : Nat → Sample
  start : Bool
  bufferEmpty : Bool
  nUsbIso : BitVec 8

def abufInit (s : Abuf) : Abuf := { s with micWptr := 0, decWptr := 0, reset := 16 }

/-- `n` items from `a` on are replaced by those of `g`. -/
def overlay {α : Type} (f g : Nat → α) (a n : Nat) : Nat → α := fun x =>
  if a ≤ x ∧ x < a + n then g (x - a) else f x

def abufMicAdd (p : Nat → Byte) (s : Abuf) : Abuf :=
  { s with
    mic := overlay s.mic p (s.micWptr.toNat % 4 * micAdpcmFrameSize) micAdpcmFrameSize
    micWptr := s.micWptr + 1 }

/-- `num_mic` of `abuf_mic_dec` -/
def Abuf.numMic (s : Abuf) : Nat := (s.micWptr - s.decWptr).toNat

/-- `abuf_dec_wptr - (abuf_dec_rptr / MIC_SHORT_DEC_SIZE)` in an `u8` -/
def Abuf.numDec (s : Abuf) : Nat :=
  (s.decWptr - BitVec.ofNat 8 (s.decRptr.toNat / micShortDecSize)).toNat

/-- `abuf_mic_dec`, with the frame that it decodes. -/
def abufMicDec (s : Abuf) : Abuf × Option (List Sample) :=
  if s.reset ≠ 0 then ({ s with decWptr := s.micWptr }, none)
  else
    let numMic := s.numMic
    let numDec := s.numDec
    let s := if numMic > 4 then { s with decWptr := s.decWptr + 1 } else s
    if numDec > 4 then ({ s with reset := 16, start := true }, none)
    else if (!s.start && decide (numMic ≥ 1) || s.start && decide (numMic ≥ 2)) && decide (numDec ≤ 3) then
      let slot := s.decWptr.toNat % 4
      let frame := adpcmToPcm (fun j => s.mic (slot * micAdpcmFrameSize + j)) micShortDecSize
      ({ s with
          dec := overlay s.dec (fun j => frame.getD j 0) (slot * micShortDecSize) micShortDecSize
          decWptr := s.decWptr + 1
          start := false }, some frame)
    else (s, none)

/-- `n` samples of the PCM buffer from `a` on. -/
def samples (f : Nat → Sample) (a n : Nat) : List Sample := (List.range n).map fun i => f (a + i)

/-- `abuf_dec_usb` from the copy to the endpoint on, with the samples written. -/
def abufCopyUsb (s : Abuf) : Abuf × List Sample :=
  let num := s.numDec
  if num ≠ 0 then
    if s.bufferEmpty && decide (num ≥ 3) ||
        !s.bufferEmpty && (decide (num ≥ 1) || decide (s.nUsbIso.toNat % 4 ≠ 0)) then
      let offset := s.decRptr.toNat % decBufferSize
      let out :=
        if offset = decBufferSize - usbIsoInSize / 2 then
          samples s.dec offset (usbIsoInSize / 2) ++ samples s.dec 0 (usbIsoInSize / 2)
        else samples s.dec offset usbIsoInSize
      let rptr := s.decRptr + BitVec.ofNat 16 usbIsoInSize
      ({ s with
          bufferEmpty := false
          decRptr := if rptr.toNat ≥ micShortDecSize * 256 then 0 else rptr }, out)
    else (s, [])
  else ({ s with bufferEmpty := true }, [])

/-- `abuf_dec_usb`; `late` is the result of `clock_time_exceed`. -/
def abufDecUsb (late : Bool) (s : Abuf) : Abuf × List Sample :=
  let s := { s with nUsbIso := s.nUsbIso + 1 }
  let s := if late then { s with reset := 16 } else s
  let s :=
    if s.reset ≠ 0 then
      { s with decRptr := BitVec.ofNat 16 (s.decWptr.toNat * micShortDecSize), reset := s.reset - 1 }
    else s
  abufCopyUsb s

/-! ### Runs -/

inductive AbufCall where
  | micAdd (p : Nat → Byte)
  | micDec
  | decUsb (late : Bool)

inductive AbufAns where
  | done
  | decoded (frame : Option (List Sample))
  | written (out : List Sample)

def abufStep (s : Abuf) : AbufCall → Abuf × AbufAns
  | .micAdd p => (abufMicAdd p s, .done)
  | .micDec => ((abufMicDec s).1, .decoded (abufMicDec s).2)
  | .decUsb late => ((abufDecUsb late s).1, .written (abufDecUsb late s).2)

/-- The samples of the decoded frames, in decode order. -/
def decodedSamples : List AbufAns → List Sample
  | [] => []
  | .decoded (some frame) :: as => frame ++ decodedSamples as
  | _ :: as => decodedSamples as

def writtenSamples : List AbufAns → List Sample
  | [] => []
  | .written out :: as => out ++ writtenSamples as
  | _ :: as => writtenSamples as

/-- No decoder call skips a packet: outside a reset at most four packets wait. -/
def NoSkip (s : Abuf) : AbufCall → Prop
  | .micDec => s.reset = 0 → s.numMic ≤ 4
  | _ => True

instance (s : Abuf) (k : AbufCall) : Decidable (NoSkip s k) :=
  match k with
  | .micAdd _ => inferInstanceAs (Decidable True)
  | .micDec => inferInstanceAs (Decidable (_ → _))
  | .decUsb _ => inferInstanceAs (Decidable True)

/-! ### Invariant of a period without reset -/

def slotFrame (f : Nat → Sample) (slot : Nat) : List Sample := samples f (slot * micShortDecSize) micShortDecSize

/-- The frames `l` wait in the ring from frame `r` on, of which `o` samples are written. -/
structure PcmRep (s : Abuf) (r o : Nat) (l : List (List Sample)) : Prop where
  rptr : s.decRptr.toNat = micShortDecSize * (r % 256) + o
  offset : o % usbIsoInSize = 0 ∧ o < micShortDecSize
  started : l = [] → o = 0
  wptr : s.decWptr = BitVec.ofNat 8 (r + l.length)
  frames : ∀ d ∈ l, d.length = micShortDecSize
  ring : RingHolds 4 (slotFrame s.dec) r l

theorem PcmRep.numDec {s : Abuf} {r o : Nat} {l : List (List Sample)} (h : PcmRep s r o l) :
    s.numDec = l.length := by
  have hlen := h.ring.1
  have ho := h.offset.2
  have hframe : s.decRptr.toNat / micShortDecSize = r % 256 := by
    rw [h.rptr]
    unfold micShortDecSize at ho ⊢
    omega
  unfold Abuf.numDec
  rw [hframe, h.wptr, BitVec.toNat_sub, BitVec.toNat_ofNat, BitVec.toNat_ofNat]
  omega

theorem adpcmToPcmLoop_length (mem : Nat → Byte) (n i pcode code : Nat) (st : AdpcmState) :
    (adpcmToPcmLoop mem n i pcode code st).length = n := by
  induction n generalizing i pcode code st with
  | zero => rfl
  | succ n ih => rw [adpcmToPcmLoop, List.length_cons, ih]

@[simp] theorem samples_length (f : Nat → Sample) (a n : Nat) : (samples f a n).length = n := by
  simp [samples]

theorem samples_congr {f g : Nat → Sample} {a n : Nat} (h : ∀ x, a ≤ x → x < a + n → f x = g x) :
    samples f a n = samples g a n := by
  refine List.map_congr_left fun i hi => h _ (by omega) ?_
  have := List.mem_range.mp hi
  omega

/-- A part of a range of samples. -/
theorem samples_sub (f : Nat → Sample) (a : Nat) {n i k : Nat} (h : i + k ≤ n) :
    samples f (a + i) k = ((samples f a n).drop i).take k := by
  refine List.ext_getElem (by simp; omega) fun j h₁ h₂ => ?_
  simp [samples, Nat.add_assoc]

theorem samples_overlay (f : Nat → Sample) (a : Nat) (l : List Sample) :
    samples (overlay f (fun j => l.getD j 0) a l.length) a l.length = l := by
  refine List.ext_getElem (by simp) fun j h₁ h₂ => ?_
  simp [samples, overlay, h₂]

theorem samples_overlay_outside (f g : Nat → Sample) {a b m n : Nat} (h : b + n ≤ a ∨ a + m ≤ b) :
    samples (overlay f g a m) b n = samples f b n := by
  refine samples_congr fun x h₁ h₂ => if_neg ?_
  omega

/-- A decoded frame goes to the slot behind the waiting ones. -/
theorem PcmRep.push {s : Abuf} {r o : Nat} {l : List (List Sample)} (h : PcmRep s r o l)
    (hroom : l.length ≤ 3) (start : Bool) {frame : List Sample} (hframe : frame.length = micShortDecSize) :
    PcmRep { s with
      dec := overlay s.dec (fun j => frame.getD j 0) (s.decWptr.toNat % 4 * micShortDecSize) micShortDecSize
      decWptr := s.decWptr + 1
      start := start } r o (l ++ [frame]) := by
  have hslot : s.decWptr.toNat % 4 = (r + l.length) % 4 := by
    rw [h.wptr, BitVec.toNat_ofNat]
    exact Nat.mod_mod_of_dvd _ (by decide)
  constructor
  · exact h.rptr
  · exact h.offset
  · intro hnil
    exact absurd hnil (by simp)
  · rw [List.length_append, List.length_singleton, ← Nat.add_assoc, BitVec.ofNat_add, ← h.wptr]
    rfl
  · intro d hd
    rcases List.mem_append.mp hd with hd | hd
    · exact h.frames d hd
    · obtain rfl := List.mem_singleton.mp hd
      exact hframe
  · apply h.ring.push (by omega)
    · rw [hslot]
      unfold slotFrame
      rw [← hframe]
      exact samples_overlay _ _ _
    · intro k hk hne
      rw [hslot]
      have hout : k * micShortDecSize + micShortDecSize ≤ (r + l.length) % 4 * micShortDecSize ∨
          (r + l.length) % 4 * micShortDecSize + micShortDecSize ≤ k * micShortDecSize := by
        unfold micShortDecSize
        omega
      exact samples_overlay_outside s.dec (fun j => frame.getD j 0) hout

/-- The endpoint takes the next samples of the oldest frame. -/
theorem PcmRep.take {s : Abuf} {r o : Nat} {d : List Sample} {l : List (List Sample)}
    (h : PcmRep s r o (d :: l)) :
    samples s.dec (s.decRptr.toNat % decBufferSize) usbIsoInSize = (d.drop o).take usbIsoInSize ∧
    s.decRptr.toNat % decBufferSize ≠ decBufferSize - usbIsoInSize / 2 := by
  have hrptr := h.rptr
  obtain ⟨ho, ho'⟩ := h.offset
  have hd : slotFrame s.dec (r % 4) = d := h.ring.head
  have hoff : s.decRptr.toNat % decBufferSize = r % 4 * micShortDecSize + o := by
    rw [hrptr]
    unfold decBufferSize micShortDecSize at *
    omega
  rw [hoff]
  constructor
  · rw [← hd]
    exact samples_sub s.dec _ (by unfold usbIsoInSize micShortDecSize at *; omega)
  · unfold decBufferSize micShortDecSize usbIsoInSize at *
    omega

/-- The read pointer moves on, to the next frame when this one is finished. -/
theorem PcmRep.advance {s : Abuf} {r o : Nat} {d : List Sample} {l : List (List Sample)}
    (h : PcmRep s r o (d :: l)) :
    ∃ r' o' l', PcmRep { s with
        bufferEmpty := false
        decRptr := if (s.decRptr + BitVec.ofNat 16 usbIsoInSize).toNat ≥ micShortDecSize * 256 then 0
          else s.decRptr + BitVec.ofNat 16 usbIsoInSize } r' o' l' ∧
      ((d :: l).flatten.drop o) = (d.drop o).take usbIsoInSize ++ l'.flatten.drop o' := by
  have hrptr := h.rptr
  obtain ⟨ho, ho'⟩ := h.offset
  have hd : d.length = micShortDecSize := h.frames d List.mem_cons_self
  have hnext : (s.decRptr + BitVec.ofNat 16 usbIsoInSize).toNat = micShortDecSize * (r % 256) + o + usbIsoInSize := by
    rw [BitVec.toNat_add, BitVec.toNat_ofNat, hrptr]
    unfold micShortDecSize usbIsoInSize at *
    omega
  have hwait : (d :: l).flatten.drop o = (d.drop o).take usbIsoInSize ++ (d :: l).flatten.drop (o + usbIsoInSize) := by
    have htake : (d.drop o).take usbIsoInSize = ((d :: l).flatten.drop o).take usbIsoInSize := by
      rw [List.flatten_cons, List.drop_append_of_le_length (by omega), List.take_append_of_le_length]
      rw [List.length_drop]
      unfold micShortDecSize usbIsoInSize at *
      omega
    rw [htake, ← List.drop_drop, List.take_append_drop]
  by_cases hend : o + usbIsoInSize = micShortDecSize
  · refine ⟨r + 1, 0, l, ⟨?_, ⟨rfl, by decide⟩, fun _ => rfl, ?_, ?_, h.ring.pop⟩, ?_⟩
    · dsimp only
      unfold micShortDecSize usbIsoInSize at *
      split_ifs with hwrap
      · rw [hnext] at hwrap
        change 0 = _
        omega
      · rw [hnext] at hwrap ⊢
        omega
    · rw [h.wptr, List.length_cons]
      congr 1
      omega
    · intro d' hd'
      exact h.frames d' (List.mem_cons_of_mem _ hd')
    · rw [hwait, hend, List.flatten_cons, List.drop_append_of_le_length (by omega), ← hd, List.drop_length]
      rfl
  · refine ⟨r, o + usbIsoInSize, d :: l, ⟨?_, ⟨?_, ?_⟩, ?_, h.wptr, h.frames, h.ring⟩, hwait⟩
    · dsimp only
      unfold micShortDecSize usbIsoInSize at *
      rw [if_neg (by omega), hnext]
      omega
    · unfold usbIsoInSize at *
      omega
    · unfold micShortDecSize usbIsoInSize at *
      omega
    · intro hnil
      exact absurd hnil (List.cons_ne_nil _ _)

/-- The samples `w` are decoded and not yet written. -/
def Waiting (s : Abuf) (w : List Sample) : Prop :=
  s.reset = 0 ∧ ∃ r o l, PcmRep s r o l ∧ w = l.flatten.drop o

theorem PcmRep.drop_flatten_append {s : Abuf} {r o : Nat} {l : List (List Sample)} (h : PcmRep s r o l)
    (frame : List Sample) : (l ++ [frame]).flatten.drop o = l.flatten.drop o ++ frame := by
  rw [List.flatten_append, List.flatten_singleton]
  cases l with
  | nil =>
    rw [h.started rfl]
    rfl
  | cons d l =>
    have hd : d.length = micShortDecSize := h.frames d List.mem_cons_self
    have ho := h.offset.2
    apply List.drop_append_of_le_length
    rw [List.flatten_cons, List.length_append]
    omega

theorem abufMicDec_waiting {s : Abuf} {w : List Sample} (h : Waiting s w) (hskip : s.numMic ≤ 4) :
    Waiting (abufMicDec s).1 (w ++ decodedSamples [.decoded (abufMicDec s).2]) := by
  obtain ⟨hreset, r, o, l, hrep, rfl⟩ := h
  have hnum := hrep.numDec
  have hlen : l.length ≤ 4 := hrep.ring.1
  have hdec : ¬ s.numDec > 4 := by omega
  unfold abufMicDec
  rw [if_neg (not_not_intro hreset)]
  dsimp only
  rw [if_neg (Nat.not_lt.mpr hskip), if_neg hdec]
  split_ifs with hgo
  · have hroom : l.length ≤ 3 := by
      have hgo' := (Bool.and_eq_true_iff.mp hgo).2
      rw [decide_eq_true_iff] at hgo'
      omega
    refine ⟨hreset, r, o, _, hrep.push hroom false (adpcmToPcmLoop_length ..), ?_⟩
    rw [hrep.drop_flatten_append]
    simp only [decodedSamples, List.append_nil]
  · refine ⟨hreset, r, o, l, hrep, ?_⟩
    simp only [decodedSamples, List.append_nil]

/-- In a period without reset the endpoint gets the oldest waiting samples. -/
theorem abufCopyUsb_waiting {s : Abuf} {w : List Sample} (h : Waiting s w) :
    ∃ w', Waiting (abufCopyUsb s).1 w' ∧ w = (abufCopyUsb s).2 ++ w' := by
  obtain ⟨hreset, r, o, l, hrep, rfl⟩ := h
  have hnum := hrep.numDec
  unfold abufCopyUsb
  dsimp only
  cases l with
  | nil =>
    have hzero : ¬ s.numDec ≠ 0 := not_not_intro hnum
    rw [if_neg hzero]
    exact ⟨_, ⟨hreset, r, o, [], ⟨hrep.rptr, hrep.offset, hrep.started, hrep.wptr, hrep.frames, hrep.ring⟩, rfl⟩, rfl⟩
  | cons d l =>
    have hne : s.numDec ≠ 0 := by
      rw [hnum]
      exact Nat.succ_ne_zero _
    obtain ⟨htake, hodd⟩ := hrep.take
    rw [if_pos hne, if_neg hodd]
    by_cases hgo : (s.bufferEmpty && decide (s.numDec ≥ 3) ||
        !s.bufferEmpty && (decide (s.numDec ≥ 1) || decide (s.nUsbIso.toNat % 4 ≠ 0))) = true
    · obtain ⟨r', o', l', hrep', hsplit⟩ := hrep.advance
      rw [if_pos hgo]
      refine ⟨l'.flatten.drop o', ⟨hreset, r', o', l', hrep', rfl⟩, ?_⟩
      rw [hsplit, htake]
    · rw [if_neg hgo]
      exact ⟨_, ⟨hreset, r, o, d :: l, hrep, rfl⟩, rfl⟩

@[simp] theorem abufCopyUsb_reset (s : Abuf) : (abufCopyUsb s).1.reset = s.reset := by
  unfold abufCopyUsb
  dsimp only
  split_ifs <;> rfl

/-- A late call sets `abuf_reset`. -/
theorem abufDecUsb_late (s : Abuf) : (abufDecUsb true s).1.reset ≠ 0 := by
  simp [abufDecUsb]

/-- The call that ends a reset leaves an empty ring and writes nothing. -/
theorem abufDecUsb_endReset {s : Abuf} {late : Bool} (hs : s.reset ≠ 0)
    (hend : (abufDecUsb late s).1.reset = 0) :
    Waiting (abufDecUsb late s).1 [] ∧ (abufDecUsb late s).2 = [] := by
  cases late with
  | true => exact absurd hend (abufDecUsb_late s)
  | false =>
    let t : Abuf := { s with
      nUsbIso := s.nUsbIso + 1
      decRptr := BitVec.ofNat 16 (s.decWptr.toNat * micShortDecSize)
      reset := s.reset - 1 }
    have ht : abufDecUsb false s = abufCopyUsb t := by
      unfold abufDecUsb
      dsimp only
      rw [if_neg Bool.false_ne_true, if_pos hs]
    rw [ht, abufCopyUsb_reset] at hend
    have hwptr := s.decWptr.isLt
    have hrep : PcmRep t s.decWptr.toNat 0 [] := by
      refine ⟨?_, ⟨rfl, by decide⟩, fun _ => rfl, ?_, by simp, .nil _ _ _⟩
      · change (BitVec.ofNat 16 (s.decWptr.toNat * micShortDecSize)).toNat = _
        have hframe : s.decWptr.toNat % 256 = s.decWptr.toNat := Nat.mod_eq_of_lt hwptr
        have hfit : s.decWptr.toNat * 160 % 65536 = s.decWptr.toNat * 160 := Nat.mod_eq_of_lt (by omega)
        rw [BitVec.toNat_ofNat, hframe]
        unfold micShortDecSize
        change s.decWptr.toNat * 160 % 65536 = _
        omega
      · change s.decWptr = _
        rw [List.length_nil, Nat.add_zero, BitVec.ofNat_toNat, BitVec.setWidth_eq]
    obtain ⟨w', hw, hsplit⟩ := abufCopyUsb_waiting ⟨hend, _, _, _, hrep, rfl⟩
    obtain ⟨hout, rfl⟩ := List.append_eq_nil_iff.mp hsplit.symm
    rw [ht]
    exact ⟨hw, hout⟩

/-- No call of the run ends with `abuf_reset` set. -/
def NoReset (s : Abuf) (k : AbufCall) : Prop := (abufStep s k).1.reset = 0

instance (s : Abuf) (k : AbufCall) : Decidable (NoReset s k) :=
  inferInstanceAs (Decidable (_ = _))

/-- Samples leave the ring as they came in. -/
theorem waiting_run {s : Abuf} {w : List Sample} {ks : List AbufCall} (h : Waiting s w)
    (hskip : Legal abufStep NoSkip s ks) (hreset : Legal abufStep NoReset s ks) :
    ∃ w', w ++ decodedSamples (run abufStep s ks).2 = writtenSamples (run abufStep s ks).2 ++ w' := by
  induction ks generalizing s w with
  | nil => exact ⟨w, by simp [Refine.run, decodedSamples, writtenSamples]⟩
  | cons k ks ih =>
    obtain ⟨hk, hskip⟩ := hskip
    obtain ⟨hk', hreset⟩ := hreset
    cases k with
    | micAdd p =>
      obtain ⟨hr, r, o, l, hrep, hw⟩ := h
      have hnext : Waiting (abufMicAdd p s) w :=
        ⟨hr, r, o, l, ⟨hrep.rptr, hrep.offset, hrep.started, hrep.wptr, hrep.frames, hrep.ring⟩, hw⟩
      exact ih hnext hskip hreset
    | micDec =>
      obtain ⟨w', hw'⟩ := ih (abufMicDec_waiting h (hk h.1)) hskip hreset
      refine ⟨w', ?_⟩
      rw [List.append_assoc] at hw'
      cases hd : (abufMicDec s).2 with
      | none => simpa [Refine.run, abufStep, hd, decodedSamples, writtenSamples] using hw'
      | some frame => simpa [Refine.run, abufStep, hd, decodedSamples, writtenSamples] using hw'
    | decUsb late =>
      cases late with
      | true => exact absurd hk' (abufDecUsb_late s)
      | false =>
        obtain ⟨w₁, hw₁, hout⟩ : ∃ w', Waiting (abufDecUsb false s).1 w' ∧ w = (abufDecUsb false s).2 ++ w' := by
          have hns : Waiting { s with nUsbIso := s.nUsbIso + 1 } w := by
            obtain ⟨hr, r, o, l, hrep, hw⟩ := h
            exact ⟨hr, r, o, l, ⟨hrep.rptr, hrep.offset, hrep.started, hrep.wptr, hrep.frames, hrep.ring⟩, hw⟩
          have heq : abufDecUsb false s = abufCopyUsb { s with nUsbIso := s.nUsbIso + 1 } := by
            unfold abufDecUsb
            dsimp only
            rw [if_neg Bool.false_ne_true, if_neg (not_not_intro h.1)]
          rw [heq]
          exact abufCopyUsb_waiting hns
        obtain ⟨w', hw'⟩ := ih hw₁ hskip hreset
        refine ⟨w', ?_⟩
        simp only [Refine.run, abufStep, decodedSamples, writtenSamples, hout, List.append_assoc]
        rw [hw']

/-- From a state with `abuf_reset` set to the next reset, while no call skips a packet, the
samples written to the endpoint are the decoded ones in decode order, none of them twice. -/
theorem writtenSamples_prefix {s : Abuf} {ks : List AbufCall} (hs : s.reset ≠ 0)
    (hskip : Legal abufStep NoSkip s ks) (hreset : Legal abufStep NoReset s ks) :
    writtenSamples (run abufStep s ks).2 <+: decodedSamples (run abufStep s ks).2 := by
  cases ks with
  | nil => exact List.prefix_rfl
  | cons k ks =>
    obtain ⟨-, hskip⟩ := hskip
    obtain ⟨hk, hreset⟩ := hreset
    cases k with
    | micAdd p => exact absurd hk hs
    | micDec =>
      have hk' : (abufMicDec s).1.reset = 0 := hk
      rw [abufMicDec, if_pos hs] at hk'
      exact absurd hk' hs
    | decUsb late =>
      obtain ⟨hw, hout⟩ := abufDecUsb_endReset hs hk
      obtain ⟨w', hw'⟩ := waiting_run hw hskip hreset
      refine ⟨w', ?_⟩
      simpa [Refine.run, abufStep, decodedSamples, writtenSamples, hout] using hw'.symm

/-- In every run from `abuf_init`, between two periods in which `abuf_reset` is set. -/
theorem abufDecUsb_in_order (s₀ : Abuf) (pre ks : List AbufCall)
    (hpre : (run abufStep (abufInit s₀) pre).1.reset ≠ 0)
    (hskip : Legal abufStep NoSkip (run abufStep (abufInit s₀) pre).1 ks)
    (hreset : Legal abufStep NoReset (run abufStep (abufInit s₀) pre).1 ks) :
    writtenSamples (run abufStep (run abufStep (abufInit s₀) pre).1 ks).2 <+:
      decodedSamples (run abufStep (run abufStep (abufInit s₀) pre).1 ks).2 :=
  writtenSamples_prefix hpre hskip hreset

/-- The variables at power-on. -/
def Abuf.zero : Abuf := ⟨0, 0, 0, 0, fun _ => 0, fun _ => 0, true, true, 0⟩

/-- A packet whose header says 1000. -/
def packet1000 : Nat → Byte := fun i => if i = 0 then 0xe8 else if i = 1 then 0x03 else 0

theorem abufDecUsb_in_order_three :
    let pre := List.replicate 15 (AbufCall.decUsb false)
    let ks := [.decUsb false, .micAdd packet1000, .micAdd packet1000, .micDec, .micDec, .micAdd packet1000, .micDec,
      .decUsb false, .decUsb false]
    (writtenSamples (run abufStep (run abufStep (abufInit .zero) pre).1 ks).2).length = 32 ∧
      writtenSamples (run abufStep (run abufStep (abufInit .zero) pre).1 ks).2 <+:
        decodedSamples (run abufStep (run abufStep (abufInit .zero) pre).1 ks).2 :=
  ⟨by decide +kernel, abufDecUsb_in_order .zero _ _ (by decide +kernel) (by decide +kernel) (by decide +kernel)⟩

/-- Five packets before the decoder runs: slot 0 is skipped and its old samples are written
before any decoded one. -/
theorem abufDecUsb_skipped :
    let pre := List.replicate 15 (AbufCall.decUsb false)
    let ks := .decUsb false :: List.replicate 5 (.micAdd packet1000) ++ [.micDec, .micDec, .decUsb false]
    let r := run abufStep (run abufStep (abufInit .zero) pre).1 ks
    Legal abufStep NoReset (run abufStep (abufInit .zero) pre).1 ks ∧
      writtenSamples r.2 = List.replicate 16 0 ∧
      (decodedSamples r.2).take 1 = [1000] := by
  decide +kernel

end Rf4ce.Audio

import Rf4ce.Common.CrcPoly
import Rf4ce.Ota.Process
import Rf4ce.Ota.Server

/-! An upgrade file that is cut into frames and fed to `ota_DataProcess`. -/
namespace Rf4ce.Ota
open Crash Drv Common Os

/-! ### Frames -/

def frameLen (size k : Nat) : Nat := min otaFramesize (size - otaFramesize * k)

/-- Frame `k` of a file in memory, with `junk` behind it. -/
def framePayload (file : Nat → Byte) (size : Nat) (junk : Nat → Nat → Byte) (k : Nat) : Nat → Byte := fun j =>
  if j < frameLen size k then file (otaFramesize * k + j) else junk k j

/-- `ota_DataProcess` for the frames below `k` in order. -/
def otaFeed (mcu : Mcu) (file : Nat → Byte) (size : Nat) (junk : Nat → Nat → Byte) : Nat → Transfer → OtaM Transfer
  | 0, t => pure t
  | k + 1, t => do
    let t ← otaFeed mcu file size junk k t
    let r ← otaDataProcess mcu (BitVec.ofNat 8 (frameLen size k)) (framePayload file size junk k) t
    pure r.2

/-- The number of frames of a file. -/
def frameCount (size : Nat) : Nat := (size + 47) / otaFramesize

/-! ### Programmed bytes -/

/-- The bytes with their addresses from `a` on. -/
def placed (a : Nat) : List Byte → List (Nat × Byte)
  | [] => []
  | b :: bs => (a, b) :: placed (a + 1) bs

theorem placed_append (a : Nat) (xs ys : List Byte) : placed a (xs ++ ys) = placed a xs ++ placed (a + xs.length) ys := by
  induction xs generalizing a with
  | nil => rfl
  | cons x xs ih =>
    rw [List.cons_append, placed, placed, ih, List.cons_append, List.length_cons, Nat.add_right_comm, Nat.add_assoc]

theorem placed_length (a : Nat) (xs : List Byte) : (placed a xs).length = xs.length := by
  induction xs generalizing a with
  | nil => rfl
  | cons x xs ih => rw [placed, List.length_cons, ih, List.length_cons]

/-- What an operation programs. -/
def programmedBy : OtaOp → List (Nat × Byte)
  | .flash (.program a data) => placed a data
  | _ => []

def programmed (ops : List OtaOp) : List (Nat × Byte) := ops.flatMap programmedBy

theorem programmed_append (xs ys : List OtaOp) : programmed (xs ++ ys) = programmed xs ++ programmed ys :=
  List.flatMap_append

/-- Splitting at page boundaries does not show in the programmed bytes. -/
theorem flashProgramPieces_programmed (fuel addr pageReLen : Nat) (buf : List Byte) (f : Flash)
    (hfuel : buf.length < fuel) (hpos : 0 < pageReLen) :
    programmed (((flashProgramPieces buf (flashPieces fuel addr pageReLen buf.length)).ops f).map OtaOp.flash) =
      placed addr buf := by
  induction fuel generalizing addr pageReLen buf f with
  | zero => omega
  | succ fuel ih =>
    unfold flashPieces
    by_cases hlast : buf.length ≤ pageReLen
    · rw [if_pos hlast]
      change programmed [.flash (.program addr (buf.take buf.length))] = _
      rw [List.take_length]
      exact List.append_nil _
    · rw [if_neg hlast]
      have hlen : (buf.take pageReLen).length = pageReLen := by
        rw [List.length_take]
        omega
      have hrest : (buf.drop pageReLen).length = buf.length - pageReLen := List.length_drop
      change placed addr (buf.take pageReLen) ++ programmed (((flashProgramPieces (buf.drop pageReLen)
        (flashPieces fuel (addr + pageReLen) flashPageSize (buf.length - pageReLen))).ops _).map OtaOp.flash) = _
      rw [← hrest, ih _ _ _ _ (by omega) (by decide)]
      conv_rhs => rw [← List.take_append_drop pageReLen buf, placed_append, hlen]

theorem flashWriteWithCheck_programmed (addr : Nat) (buf : List Byte) (f : Flash) :
    programmed (((flashWriteWithCheck addr buf).ops f).map OtaOp.flash) = placed addr buf := by
  have hops : (flashWriteWithCheck addr buf).ops f = (flashWrite addr buf).ops f ++ [] := rfl
  rw [hops, List.append_nil]
  apply flashProgramPieces_programmed
  · exact Nat.lt_succ_self _
  · split_ifs <;> omega

/-! ### One frame -/

/-- The frame leaves the globals `t` behind and programs `ps`, whatever the flash. -/
def Processes (m : OtaM (Bool × Transfer)) (t : Transfer) (ps : List (Nat × Byte)) : Prop :=
  ∀ f, (m.value f).2 = t ∧ programmed (m.ops f) = ps

section Frame
variable {mcu : Mcu} {pData : Nat → Byte} {t t' : Transfer}

theorem otaProgram_processes {len : Nat} (i : Nat) (hlen : len ≠ 0) :
    Processes (otaProgram mcu len i pData t) (otaCounted mcu len i pData t)
      (placed (otaProgramAddr t) (otaProgramData mcu len i pData t)) := by
  intro f
  unfold otaProgram
  rw [if_neg hlen]
  constructor
  · rfl
  · have hops : ((do
        let sta ← onFlash (flashWriteWithCheck (otaProgramAddr t) (otaProgramData mcu len i pData t))
        pure (sta, otaCounted mcu len i pData t) : OtaM (Bool × Transfer)).ops f) =
          ((flashWriteWithCheck (otaProgramAddr t) (otaProgramData mcu len i pData t)).ops f).map OtaOp.flash ++ [] := rfl
    rw [hops, List.append_nil]
    exact flashWriteWithCheck_programmed _ _ f

/-- The header does not end in this frame. -/
theorem otaDataProcess_header {len : Byte} {i : Nat} (hst : t.otaState = .starting)
    (hloop : otaHeaderLoop pData len.toNat 0 t = (i, t')) (hst' : t'.otaState = .starting) :
    Processes (otaDataProcess mcu len pData t) t' [] := by
  intro f
  unfold otaDataProcess
  rw [hst]
  dsimp only
  rw [hloop]
  dsimp only
  rw [hst', if_neg (by decide)]
  exact ⟨rfl, rfl⟩

/-- The header ends, and the payload starts at index `i`. -/
theorem otaDataProcess_end {len : Byte} {i : Nat} (hst : t.otaState = .starting)
    (hloop : otaHeaderLoop pData len.toNat 0 t = (i, t')) (hst' : t'.otaState = .dataing) (hlen : len.toNat ≠ 0) :
    Processes (otaDataProcess mcu len pData t) (otaCounted mcu len.toNat i pData t')
      (placed (otaProgramAddr t') (otaProgramData mcu len.toNat i pData t')) := by
  intro f
  obtain ⟨hvalue, hops⟩ := @otaProgram_processes mcu pData t' _ i hlen f
  unfold otaDataProcess
  rw [hst]
  dsimp only
  rw [hloop]
  dsimp only
  rw [if_pos hst']
  exact ⟨hvalue, hops⟩

theorem otaDataProcess_payload {len : Byte} (hst : t.otaState = .dataing) (hlen : len.toNat ≠ 0) :
    Processes (otaDataProcess mcu len pData t) (otaCounted mcu len.toNat 0 pData t)
      (placed (otaProgramAddr t) (otaProgramData mcu len.toNat 0 pData t)) := by
  unfold otaDataProcess
  rw [hst]
  exact otaProgram_processes 0 hlen

end Frame

/-- The frames below `k` lead from `t₀` to `t` and program `ps`. -/
def Feeds (mcu : Mcu) (file : Nat → Byte) (size : Nat) (junk : Nat → Nat → Byte) (k : Nat) (t₀ t : Transfer)
    (ps : List (Nat × Byte)) : Prop :=
  ∀ f, (otaFeed mcu file size junk k t₀).value f = t ∧ programmed ((otaFeed mcu file size junk k t₀).ops f) = ps

section Feed
variable {mcu : Mcu} {file : Nat → Byte} {size k : Nat} {junk : Nat → Nat → Byte} {t₀ t t' : Transfer}
  {ps ps' : List (Nat × Byte)}

theorem feeds_zero : Feeds mcu file size junk 0 t₀ t₀ [] := fun _ => ⟨rfl, rfl⟩

theorem Feeds.succ (h : Feeds mcu file size junk k t₀ t ps)
    (hframe : Processes (otaDataProcess mcu (BitVec.ofNat 8 (frameLen size k)) (framePayload file size junk k) t) t' ps') :
    Feeds mcu file size junk (k + 1) t₀ t' (ps ++ ps') := by
  intro f
  obtain ⟨hvalue, hops⟩ := h f
  obtain ⟨hvalue', hops'⟩ := hframe ((otaFeed mcu file size junk k t₀).final f)
  constructor
  · rw [← hvalue', ← hvalue]
    rfl
  · have happ : (otaFeed mcu file size junk (k + 1) t₀).ops f = (otaFeed mcu file size junk k t₀).ops f ++
        ((otaDataProcess mcu (BitVec.ofNat 8 (frameLen size k)) (framePayload file size junk k)
          ((otaFeed mcu file size junk k t₀).value f)).ops ((otaFeed mcu file size junk k t₀).final f) ++ []) := rfl
    rw [happ, hvalue, List.append_nil, programmed_append, hops, hops']

end Feed

/-! ### The header -/

/-- The byte that ends the header is none of those that start a field, and the header size is
known there. -/
def HeaderEnds (otaHdrLen : Nat) : Prop := 7 ≤ otaHdrLen ∧ otaHdrLen ≠ 10 ∧ otaHdrLen ≠ 12 ∧ otaHdrLen ≠ 14

instance (otaHdrLen : Nat) : Decidable (HeaderEnds otaHdrLen) := inferInstanceAs (Decidable (_ ∧ _))

/-- `cnt` bytes of a file are read, and the header goes on. -/
structure InHeader (size otaHdrLen mcuBootAddr : Nat) (t : Transfer) (cnt : Nat) : Prop where
  state : t.otaState = .starting
  count : t.otaHeadercnt = cnt
  headersize : cnt < size → t.otaHeadersize = if cnt ≤ 6 then 0 else otaHdrLen
  imageSize : t.rcOtaInfo.imageSize = size
  boot : t.mcuBootAddr = mcuBootAddr
  crc : t.crcValue = 0xffffffff
  offset : t.flashOffsetAddr = 0

section Header
variable {size hdrLen b : Nat} {pData : Nat → Byte} {t : Transfer}

theorem otaHeaderByte_inHeader {cnt : Nat} (i : Nat) (ht : InHeader size hdrLen b t cnt) (hcnt : cnt < size)
    (hfield : cnt = 6 → 7 < size → ofLe (bytes pData i 2) = hdrLen) (hend : ¬ (HeaderEnds hdrLen ∧ cnt = hdrLen)) :
    (otaHeaderByte pData i t).2 = false ∧
      InHeader size hdrLen b { (otaHeaderByte pData i t).1 with otaHeadercnt := cnt + 1 } (cnt + 1) := by
  have hsize := ht.headersize hcnt
  unfold otaHeaderByte
  rw [ht.count]
  by_cases hlen : cnt = otaHeadLength
  · rw [if_pos hlen]
    have h6 : cnt = 6 := hlen
    refine ⟨rfl, ht.state, rfl, fun hlt => ?_, ht.imageSize, ht.boot, ht.crc, ht.offset⟩
    rw [if_neg (by omega)]
    exact hfield h6 (by omega)
  · have hkeep : cnt + 1 < size → t.otaHeadersize = if cnt + 1 ≤ 6 then 0 else hdrLen := by
      intro _
      unfold otaHeadLength at hlen
      rw [hsize]
      exact if_congr (by omega) rfl rfl
    have hmore : ¬ (cnt = t.otaHeadersize ∧ t.otaHeadersize ≠ 0 ∧ cnt ≠ otaHeadMauncode ∧ cnt ≠ otaHeadImagetype ∧
        cnt ≠ otaHeadFilever) := by
      rintro ⟨heq, hne, h10, h12, h14⟩
      apply hend
      rw [hsize] at heq hne
      split_ifs at heq hne with h6
      · exact absurd rfl hne
      · unfold HeaderEnds
        unfold otaHeadMauncode otaHeadImagetype otaHeadFilever at *
        omega
    rw [if_neg hlen]
    by_cases h10 : cnt = otaHeadMauncode
    · rw [if_pos h10]
      exact ⟨rfl, ht.state, rfl, hkeep, ht.imageSize, ht.boot, ht.crc, ht.offset⟩
    · rw [if_neg h10]
      by_cases h12 : cnt = otaHeadImagetype
      · rw [if_pos h12]
        exact ⟨rfl, ht.state, rfl, hkeep, ht.imageSize, ht.boot, ht.crc, ht.offset⟩
      · rw [if_neg h12]
        by_cases h14 : cnt = otaHeadFilever
        · rw [if_pos h14]
          exact ⟨rfl, ht.state, rfl, hkeep, ht.imageSize, ht.boot, ht.crc, ht.offset⟩
        · rw [if_neg h14, if_neg fun h => hmore ⟨h.1, h.2, h10, h12, h14⟩]
          exact ⟨rfl, ht.state, rfl, hkeep, ht.imageSize, ht.boot, ht.crc, ht.offset⟩

theorem otaHeaderByte_end (i : Nat) (ht : InHeader size hdrLen b t hdrLen) (hcnt : hdrLen < size) (hends : HeaderEnds hdrLen) :
    otaHeaderByte pData i t = ({ t with otaState := .dataing }, true) := by
  obtain ⟨h7, h10, h12, h14⟩ := hends
  have hsize : t.otaHeadersize = hdrLen := by
    rw [ht.headersize hcnt]
    exact if_neg (by omega)
  unfold otaHeaderByte
  unfold otaHeadLength otaHeadMauncode otaHeadImagetype otaHeadFilever
  rw [ht.count, hsize, if_neg (by omega), if_neg h10, if_neg h12, if_neg h14, if_pos ⟨rfl, by omega⟩]

/-- `n` bytes of a frame that starts at byte `s` of the file, without the end of the header. -/
theorem otaHeaderLoop_inHeader {s : Nat} (n i : Nat) (ht : InHeader size hdrLen b t (s + i)) (hcnt : s + i + n ≤ size)
    (hsize : size < 4294967296) (hfield : ∀ j, s + j = 6 → 7 < size → ofLe (bytes pData j 2) = hdrLen)
    (hend : HeaderEnds hdrLen → hdrLen < s + i ∨ s + i + n ≤ hdrLen) :
    ∃ t', otaHeaderLoop pData n i t = (i + n, t') ∧ InHeader size hdrLen b t' (s + i + n) := by
  induction n generalizing i t with
  | zero => exact ⟨t, rfl, ht⟩
  | succ n ih =>
    have hnot : ¬ (HeaderEnds hdrLen ∧ s + i = hdrLen) := by
      rintro ⟨hends, heq⟩
      have := hend hends
      omega
    obtain ⟨hmore, hnext⟩ := otaHeaderByte_inHeader i ht (by omega) (fun h6 => hfield i h6) hnot
    obtain ⟨-, hcount, -⟩ := otaHeaderByte_frame pData i t
    unfold otaHeaderLoop
    dsimp only
    rw [hmore, if_neg Bool.false_ne_true, hcount, ht.count, u32_eq (by omega)]
    obtain ⟨t', hloop, ht'⟩ := ih (i + 1) hnext (by omega) (fun hends => by have := hend hends; omega)
    refine ⟨t', ?_, ?_⟩
    · rw [hloop]
      congr 1
      omega
    · rw [show s + i + (n + 1) = s + (i + 1) + n by omega]
      exact ht'

/-- The header ends `j` bytes on, and the subheader behind it is skipped. -/
theorem otaHeaderLoop_end {s : Nat} (n i : Nat) (ht : InHeader size hdrLen b t (s + i)) (hcnt : s + i + n ≤ size)
    (hsize : size < 4294967000) (hfield : ∀ j, s + j = 6 → 7 < size → ofLe (bytes pData j 2) = hdrLen)
    (hends : HeaderEnds hdrLen) (hlow : s + i ≤ hdrLen) (hhigh : hdrLen < s + i + n) :
    ∃ t', otaHeaderLoop pData n i t =
        ((hdrLen - s + 6) % 256, { t' with otaState := .dataing, otaHeadercnt := hdrLen + 6 }) ∧
      InHeader size hdrLen b t' hdrLen := by
  induction n generalizing i t with
  | zero => omega
  | succ n ih =>
    unfold otaHeaderLoop
    dsimp only
    by_cases heq : s + i = hdrLen
    · rw [heq] at ht
      rw [otaHeaderByte_end i ht (by omega) hends]
      dsimp only
      rw [if_pos rfl, ht.count, u32_eq (by omega), ← heq, Nat.add_sub_cancel_left, heq]
      exact ⟨t, rfl, ht⟩
    · obtain ⟨hmore, hnext⟩ := otaHeaderByte_inHeader i ht (by omega) (fun h6 => hfield i h6) fun h => heq h.2
      obtain ⟨-, hcount, -⟩ := otaHeaderByte_frame pData i t
      rw [hmore, if_neg Bool.false_ne_true, hcount, ht.count, u32_eq (by omega)]
      exact ih (i + 1) hnext (by omega) (by omega) (by omega)

end Header

section Frames
variable {file : Nat → Byte} {size k : Nat} {junk : Nat → Nat → Byte}

theorem frameLen_le (size k : Nat) : frameLen size k ≤ 48 := Nat.min_le_left _ _

theorem frameLen_toNat (size k : Nat) : (BitVec.ofNat 8 (frameLen size k)).toNat = frameLen size k := by
  have hle := frameLen_le size k
  rw [BitVec.toNat_ofNat]
  exact Nat.mod_eq_of_lt (by omega)

/-- A frame that starts in the file ends where the next one starts, or with the file. -/
theorem frameLen_end (hk : 48 * k < size) : 48 * k + frameLen size k = min size (48 * (k + 1)) := by
  unfold frameLen otaFramesize
  omega

theorem framePayload_eq {j : Nat} (hj : j < frameLen size k) : framePayload file size junk k j = file (48 * k + j) :=
  if_pos hj

theorem framePayload_field (junk : Nat → Nat → Byte) {hdrLen : Nat} (hlen : ofLe (bytes file 6 2) = hdrLen) :
    ∀ j, 48 * k + j = 6 → 7 < size → ofLe (bytes (framePayload file size junk k) j 2) = hdrLen := by
  intro j hj hsize
  have hk : k = 0 := by omega
  have hj6 : j = 6 := by omega
  subst hk hj6
  rw [← hlen]
  congr 1
  apply bytes_congr
  intro x h₁ h₂
  rw [framePayload_eq]
  · congr 1
    omega
  · unfold frameLen otaFramesize
    omega

end Frames

/-- Frames before the end of the header program nothing. -/
theorem feeds_header {mcu : Mcu} {file : Nat → Byte} {size hdrLen b : Nat} (junk : Nat → Nat → Byte) {t₀ : Transfer}
    (hlen : ofLe (bytes file 6 2) = hdrLen) (hsize : size < otaMaxImageSize) (ht₀ : InHeader size hdrLen b t₀ 0)
    (k : Nat) (hk : 48 * k < size + 48) (hend : HeaderEnds hdrLen → min size (48 * k) ≤ hdrLen) :
    ∃ t, Feeds mcu file size junk k t₀ t [] ∧ InHeader size hdrLen b t (min size (48 * k)) := by
  have hmax : size < 4294967000 := hsize.trans (by decide)
  induction k with
  | zero =>
    rw [Nat.mul_zero, Nat.min_zero]
    exact ⟨t₀, feeds_zero, ht₀⟩
  | succ k ih =>
    have hlt : 48 * k < size := by omega
    obtain ⟨t, hfeeds, ht⟩ := ih (by omega) (fun hends => by have := hend hends; omega)
    have hmin : min size (48 * k) = 48 * k + 0 := by omega
    have hfin := frameLen_end hlt
    rw [hmin] at ht
    obtain ⟨t', hloop, ht'⟩ := otaHeaderLoop_inHeader (frameLen size k) 0 ht (by omega) (by omega)
      (framePayload_field junk hlen) (fun hends => by have := hend hends; omega)
    rw [← frameLen_toNat size k] at hloop
    refine ⟨t', ?_, ?_⟩
    · exact hfeeds.succ (otaDataProcess_header ht.state hloop ht'.state)
    · rw [← hfin]
      exact ht'

/-! ### The payload -/

/-- The payload of a file with a header of `hdrLen` bytes. -/
def payloadAt (file : Nat → Byte) (hdrLen : Nat) : Nat → Byte := fun x => file (hdrLen + sizeofOtaSignInfo + x)

/-- The payload with another keyword byte. -/
def keywordSet (mcu : Mcu) (v : Byte) (payload : Nat → Byte) : Nat → Byte :=
  Function.update payload mcu.keywordAddrOffset v

theorem withKeyword_bytes {mcu : Mcu} {v : Byte} {len i n : Nat} {pData payload : Nat → Byte} {t : Transfer}
    (hpay : ∀ j, j < otaDataLen len i → pData (i + j) = payload (t.flashOffsetAddr + j)) (hn : n ≤ otaDataLen len i) :
    bytes (withKeyword mcu v len i pData t) i n = bytes (keywordSet mcu v payload) t.flashOffsetAddr n := by
  apply List.ext_getElem
  · rw [bytes_length, bytes_length]
  · intro j h₁ h₂
    rw [bytes_length] at h₁
    rw [bytes_getElem, bytes_getElem]
    unfold withKeyword keywordSet
    by_cases hkw : t.flashOffsetAddr + j = mcu.keywordAddrOffset
    · have hhere : KeywordHere mcu len i t := ⟨by omega, by omega, by omega⟩
      rw [if_pos hhere, hkw, show i + j = i + mcu.keywordAddrOffset - t.flashOffsetAddr by omega, Function.update_self,
        Function.update_self]
    · rw [Function.update_of_ne hkw, ← hpay j (by omega)]
      split_ifs with hhere
      · have hlow := hhere.1
        rw [Function.update_of_ne (by omega)]
      · rfl

/-- `off` bytes of the payload are programmed and summed. -/
structure InPayload (mcu : Mcu) (file : Nat → Byte) (size hdrLen mcuBootAddr : Nat) (t : Transfer) (off : Nat) : Prop where
  state : t.otaState = .dataing
  count : t.otaHeadercnt = hdrLen + 6 + off
  imageSize : t.rcOtaInfo.imageSize = size
  boot : t.mcuBootAddr = mcuBootAddr
  offset : t.flashOffsetAddr = off
  crc : t.crcValue = xcrc32 (bytes (keywordSet mcu tlImageStartFlag (payloadAt file hdrLen)) 0
    (min off (size - hdrLen - 10))) 0xffffffff

section Payload
variable {mcu : Mcu} {file : Nat → Byte} {size hdrLen b : Nat} {t : Transfer}

/-- The new bytes that are summed, in terms of the payload. -/
theorem otaCrcLen_eq {off d : Nat} (hfit : hdrLen + 6 + off + d ≤ size) (hsize : size < otaMaxImageSize) :
    otaCrcLen size (hdrLen + 6 + off) (hdrLen + 6 + off + d) d =
      min (off + d) (size - hdrLen - 10) - min off (size - hdrLen - 10) := by
  have hmax : size < 196608 := hsize
  have hsub : u32Sub size 4 = size - 4 := u32Sub_eq (by omega) (by omega)
  have hoff : u32Sub (hdrLen + 6 + off + d) (size - 4) % 65536 = hdrLen + 6 + off + d - (size - 4) ∨
      hdrLen + 6 + off + d < size - 4 := by
    by_cases hlt : hdrLen + 6 + off + d < size - 4
    · exact .inr hlt
    · left
      rw [u32Sub_eq (by omega) (by omega)]
      omega
  unfold otaCrcLen
  rw [hsub]
  dsimp only
  split_ifs <;> omega

theorem otaCounted_inPayload {len i off d : Nat} {pData : Nat → Byte} (ht : InPayload mcu file size hdrLen b t off)
    (hd : otaDataLen len i = d) (hpay : ∀ j, j < d → pData (i + j) = payloadAt file hdrLen (off + j))
    (hfit : hdrLen + 6 + off + d ≤ size) (hsize : size < otaMaxImageSize) :
    InPayload mcu file size hdrLen b (otaCounted mcu len i pData t) (off + d) ∧
      placed (otaProgramAddr t) (otaProgramData mcu len i pData t) =
        placed (otaBaseAddr b + off) (bytes (keywordSet mcu 0xff (payloadAt file hdrLen)) off d) := by
  have hmax : size < 196608 := hsize
  have hpay' : ∀ j, j < otaDataLen len i → pData (i + j) = payloadAt file hdrLen (t.flashOffsetAddr + j) := by
    rw [hd, ht.offset]
    exact hpay
  have hcount : u32 (t.otaHeadercnt + otaDataLen len i) = hdrLen + 6 + off + d := by
    rw [ht.count, hd]
    exact u32_eq (by omega)
  have hoffset : u32 (t.flashOffsetAddr + otaDataLen len i) = off + d := by
    rw [ht.offset, hd]
    exact u32_eq (by omega)
  constructor
  · refine ⟨ht.state, hcount.trans (by omega), ht.imageSize, ht.boot, hoffset, ?_⟩
    have hcrcLen := otaCrcLen_eq hfit hsize
    have hsum : otaSumData mcu len i pData t = bytes (keywordSet mcu tlImageStartFlag (payloadAt file hdrLen)) off
        (min (off + d) (size - hdrLen - 10) - min off (size - hdrLen - 10)) := by
      unfold otaSumData
      rw [hcount, hd, ht.imageSize, ht.count, hcrcLen, ← ht.offset]
      apply withKeyword_bytes hpay'
      omega
    change xcrc32 (otaSumData mcu len i pData t) t.crcValue = _
    rw [hsum, ht.crc, ← xcrc32_append]
    congr 1
    by_cases hall : off ≤ size - hdrLen - 10
    · rw [Nat.min_eq_left hall, show bytes _ 0 (min (off + d) (size - hdrLen - 10)) =
        bytes (keywordSet mcu tlImageStartFlag (payloadAt file hdrLen)) 0
          (off + (min (off + d) (size - hdrLen - 10) - off)) by congr 1; omega, bytes_append, Nat.zero_add]
    · rw [show min (off + d) (size - hdrLen - 10) = size - hdrLen - 10 by omega,
        show min off (size - hdrLen - 10) = size - hdrLen - 10 by omega, Nat.sub_self, bytes_zero, List.append_nil]
  · have hbase : otaProgramAddr t = otaBaseAddr b + off := by
      unfold otaProgramAddr
      rw [ht.boot, ht.offset]
      apply u32_eq
      unfold otaBaseAddr flashOtaNewimageAddr
      split_ifs <;> omega
    have hdata : otaProgramData mcu len i pData t = bytes (keywordSet mcu 0xff (payloadAt file hdrLen)) off d := by
      unfold otaProgramData
      rw [withKeyword_bytes hpay' le_rfl, ht.offset, hd]
    rw [hbase, hdata]

end Payload

section Runs
variable {mcu : Mcu} {file : Nat → Byte} {size hdrLen b : Nat} {t₀ : Transfer}

/-- The frame in which the header ends; the payload starts 6 bytes on, perhaps behind the frame. -/
theorem feeds_headerEnd (mcu : Mcu) (junk : Nat → Nat → Byte) (hlen : ofLe (bytes file 6 2) = hdrLen)
    (hsize : size < otaMaxImageSize) (hends : HeaderEnds hdrLen) (hhdr : hdrLen < size)
    (ht₀ : InHeader size hdrLen b t₀ 0) :
    ∃ t, InPayload mcu file size hdrLen b t 0 ∧
      Feeds mcu file size junk (hdrLen / 48 + 1) t₀
        (otaCounted mcu (frameLen size (hdrLen / 48)) (hdrLen % 48 + 6) (framePayload file size junk (hdrLen / 48)) t)
        (placed (otaProgramAddr t)
          (otaProgramData mcu (frameLen size (hdrLen / 48)) (hdrLen % 48 + 6) (framePayload file size junk (hdrLen / 48)) t)) := by
  have hmax : size < 196608 := hsize
  obtain ⟨t, hfeeds, ht⟩ := @feeds_header mcu file size hdrLen b junk t₀ hlen hsize ht₀ (hdrLen / 48) (by omega)
    (fun _ => by omega)
  have hfin := @frameLen_end size (hdrLen / 48) (by omega)
  rw [show min size (48 * (hdrLen / 48)) = 48 * (hdrLen / 48) + 0 by omega] at ht
  obtain ⟨t', hloop, ht'⟩ := otaHeaderLoop_end (frameLen size (hdrLen / 48)) 0 ht (by omega) (by omega)
    (framePayload_field junk hlen) hends (by omega) (by omega)
  rw [show (hdrLen - 48 * (hdrLen / 48) + 6) % 256 = hdrLen % 48 + 6 by omega, ← frameLen_toNat] at hloop
  refine ⟨{ t' with otaState := .dataing, otaHeadercnt := hdrLen + 6 }, ?_, ?_⟩
  · refine ⟨rfl, rfl, ht'.imageSize, ht'.boot, ht'.offset, ?_⟩
    rw [Nat.zero_min]
    exact ht'.crc
  · have hne : frameLen size (hdrLen / 48) ≠ 0 := by omega
    have hframe := @otaDataProcess_end mcu _ t _ _ _ ht.state hloop rfl (by rw [frameLen_toNat]; exact hne)
    rw [frameLen_toNat] at hframe
    exact hfeeds.succ hframe

/-- The frame in which the header ends starts the payload, when the subheader lies in it. -/
theorem feeds_payloadStart (junk : Nat → Nat → Byte) (hlen : ofLe (bytes file 6 2) = hdrLen)
    (hsize : size < otaMaxImageSize) (hends : HeaderEnds hdrLen) (hhdr : hdrLen < size)
    (hsub : hdrLen % 48 + 6 ≤ frameLen size (hdrLen / 48)) (ht₀ : InHeader size hdrLen b t₀ 0) :
    ∃ t, Feeds mcu file size junk (hdrLen / 48 + 1) t₀ t (placed (otaBaseAddr b)
        (bytes (keywordSet mcu 0xff (payloadAt file hdrLen)) 0 (min size (48 * (hdrLen / 48 + 1)) - (hdrLen + 6)))) ∧
      InPayload mcu file size hdrLen b t (min size (48 * (hdrLen / 48 + 1)) - (hdrLen + 6)) := by
  have hmax : size < 196608 := hsize
  have hfin := @frameLen_end size (hdrLen / 48) (by omega)
  have hle := frameLen_le size (hdrLen / 48)
  obtain ⟨t, ht, hfeeds⟩ := feeds_headerEnd mcu junk hlen hsize hends hhdr ht₀
  have hd : otaDataLen (frameLen size (hdrLen / 48)) (hdrLen % 48 + 6) =
      min size (48 * (hdrLen / 48 + 1)) - (hdrLen + 6) := by
    unfold otaDataLen
    omega
  have hpay : ∀ j, j < min size (48 * (hdrLen / 48 + 1)) - (hdrLen + 6) →
      framePayload file size junk (hdrLen / 48) (hdrLen % 48 + 6 + j) = payloadAt file hdrLen (0 + j) := by
    intro j hj
    rw [framePayload_eq (by omega)]
    unfold payloadAt sizeofOtaSignInfo
    congr 1
    omega
  obtain ⟨hin, hplaced⟩ := otaCounted_inPayload ht hd hpay (by omega) hsize
  rw [hplaced, Nat.add_zero] at hfeeds
  rw [Nat.zero_add] at hin
  exact ⟨_, hfeeds, hin⟩

/-- A frame behind it goes on with the payload. -/
theorem feeds_payloadNext {junk : Nat → Nat → Byte} {k : Nat} {t : Transfer} (hsize : size < otaMaxImageSize)
    (hpos : hdrLen + 6 ≤ min size (48 * k)) (hk : 48 * k < size)
    (hfeeds : Feeds mcu file size junk k t₀ t (placed (otaBaseAddr b)
      (bytes (keywordSet mcu 0xff (payloadAt file hdrLen)) 0 (min size (48 * k) - (hdrLen + 6)))))
    (ht : InPayload mcu file size hdrLen b t (min size (48 * k) - (hdrLen + 6))) :
    ∃ t', Feeds mcu file size junk (k + 1) t₀ t' (placed (otaBaseAddr b)
        (bytes (keywordSet mcu 0xff (payloadAt file hdrLen)) 0 (min size (48 * (k + 1)) - (hdrLen + 6)))) ∧
      InPayload mcu file size hdrLen b t' (min size (48 * (k + 1)) - (hdrLen + 6)) := by
  have hmax : size < 196608 := hsize
  have hfin := @frameLen_end size k (by omega)
  have hle := frameLen_le size k
  have hd : otaDataLen (frameLen size k) 0 = frameLen size k := by
    unfold otaDataLen
    omega
  have hpay : ∀ j, j < frameLen size k →
      framePayload file size junk k (0 + j) = payloadAt file hdrLen (min size (48 * k) - (hdrLen + 6) + j) := by
    intro j hj
    rw [Nat.zero_add, framePayload_eq hj]
    unfold payloadAt sizeofOtaSignInfo
    congr 1
    omega
  obtain ⟨hin, hplaced⟩ := otaCounted_inPayload ht hd hpay (by omega) hsize
  have hne : frameLen size k ≠ 0 := by omega
  have hframe := @otaDataProcess_payload mcu (framePayload file size junk k) t (BitVec.ofNat 8 (frameLen size k)) ht.state
    (by rw [frameLen_toNat]; exact hne)
  rw [frameLen_toNat, hplaced] at hframe
  have hnext : min size (48 * k) - (hdrLen + 6) + frameLen size k = min size (48 * (k + 1)) - (hdrLen + 6) := by omega
  have hall := hfeeds.succ hframe
  rw [hnext] at hin
  rw [show otaBaseAddr b + (min size (48 * k) - (hdrLen + 6)) = otaBaseAddr b +
      (bytes (keywordSet mcu 0xff (payloadAt file hdrLen)) 0 (min size (48 * k) - (hdrLen + 6))).length by
        rw [bytes_length], ← placed_append] at hall
  have hjoin := bytes_append (keywordSet mcu 0xff (payloadAt file hdrLen)) 0 (min size (48 * k) - (hdrLen + 6))
    (frameLen size k)
  rw [hnext, Nat.zero_add] at hjoin
  rw [← hjoin] at hall
  exact ⟨_, hall, hin⟩

/-- Where a subheader that lies in the frame of the header's end leaves off, the payload is
programmed and summed byte for byte. -/
theorem feeds_payload (junk : Nat → Nat → Byte) (hlen : ofLe (bytes file 6 2) = hdrLen) (hsize : size < otaMaxImageSize)
    (hends : HeaderEnds hdrLen) (hhdr : hdrLen < size) (hsub : hdrLen % 48 + 6 ≤ frameLen size (hdrLen / 48))
    (ht₀ : InHeader size hdrLen b t₀ 0) (k : Nat) (hlow : hdrLen / 48 < k) (hk : 48 * k < size + 48) :
    ∃ t, Feeds mcu file size junk k t₀ t (placed (otaBaseAddr b)
        (bytes (keywordSet mcu 0xff (payloadAt file hdrLen)) 0 (min size (48 * k) - (hdrLen + 6)))) ∧
      InPayload mcu file size hdrLen b t (min size (48 * k) - (hdrLen + 6)) := by
  induction k with
  | zero => omega
  | succ k ih =>
    by_cases hfirst : k = hdrLen / 48
    · subst hfirst
      exact feeds_payloadStart junk hlen hsize hends hhdr hsub ht₀
    · obtain ⟨t, hfeeds, ht⟩ := ih (by omega) (by omega)
      have hend := @frameLen_end size (hdrLen / 48) (by omega)
      exact feeds_payloadNext hsize (by omega) (by omega) hfeeds ht

/-- Where the subheader does not lie in that frame, the length of the frame's rest wraps, and
the count stays 256 ahead. -/
theorem feeds_behind (junk : Nat → Nat → Byte) (hlen : ofLe (bytes file 6 2) = hdrLen) (hsize : size < otaMaxImageSize)
    (hends : HeaderEnds hdrLen) (hhdr : hdrLen < size) (hsub : frameLen size (hdrLen / 48) < hdrLen % 48 + 6)
    (ht₀ : InHeader size hdrLen b t₀ 0) (k : Nat) (hlow : hdrLen / 48 < k) (hk : 48 * k < size + 48) :
    ∃ t ps, Feeds mcu file size junk k t₀ t ps ∧ t.otaState = .dataing ∧ t.otaHeadercnt = min size (48 * k) + 256 := by
  have hmax : size < 196608 := hsize
  induction k with
  | zero => omega
  | succ k ih =>
    have hfin := @frameLen_end size k (by omega)
    have hle := frameLen_le size k
    by_cases hfirst : k = hdrLen / 48
    · subst hfirst
      obtain ⟨t, ht, hfeeds⟩ := feeds_headerEnd mcu junk hlen hsize hends hhdr ht₀
      refine ⟨_, _, hfeeds, ht.state, ?_⟩
      change u32 (t.otaHeadercnt + otaDataLen _ _) = _
      rw [ht.count]
      unfold otaDataLen
      rw [u32_eq (by omega)]
      omega
    · obtain ⟨t, ps, hfeeds, hst, hcount⟩ := ih (by omega) (by omega)
      have hne : frameLen size k ≠ 0 := by omega
      have hframe := @otaDataProcess_payload mcu (framePayload file size junk k) t (BitVec.ofNat 8 (frameLen size k)) hst
        (by rw [frameLen_toNat]; exact hne)
      rw [frameLen_toNat] at hframe
      refine ⟨_, _, hfeeds.succ hframe, hst, ?_⟩
      change u32 (t.otaHeadercnt + otaDataLen _ _) = _
      rw [hcount]
      unfold otaDataLen
      rw [u32_eq (by omega)]
      omega

end Runs

/-! ### Whole files -/

/-- What a transfer of the file should come to: the payload is programmed but for its keyword,
nothing else is, all bytes are counted, and the sum is that of the payload without its last 4
bytes. -/
structure Reassembled (mcu : Mcu) (file : Nat → Byte) (size hdrLen binSize mcuBootAddr : Nat) (t : Transfer)
    (ps : List (Nat × Byte)) : Prop where
  programmed : ps = placed (otaBaseAddr mcuBootAddr) (bytes (keywordSet mcu 0xff (payloadAt file hdrLen)) 0 binSize)
  count : t.otaHeadercnt = size
  crc : t.crcValue = xcrc32 (bytes (payloadAt file hdrLen) 0 (binSize - 4)) 0xffffffff

/-- Subheader and header end lie in one frame, the end is recognised, and a keyword that is
summed is `TL_IMAGE_START_FLAG`. -/
def Separable (mcu : Mcu) (file : Nat → Byte) (size hdrLen binSize : Nat) : Prop :=
  (hdrLen + sizeofOtaSignInfo ≤ size ∧ hdrLen % otaFramesize + sizeofOtaSignInfo ≤ otaFramesize) ∧
    (binSize = 0 ∨ HeaderEnds hdrLen ∧
      (binSize ≤ mcu.keywordAddrOffset + 4 ∨ payloadAt file hdrLen mcu.keywordAddrOffset = tlImageStartFlag))

/-- `ota_state` and the counters when the frames start to come. -/
structure Started (size : Nat) (t : Transfer) : Prop where
  state : t.otaState = .starting
  count : t.otaHeadercnt = 0
  headersize : t.otaHeadersize = 0
  imageSize : t.rcOtaInfo.imageSize = size
  crc : t.crcValue = 0xffffffff
  offset : t.flashOffsetAddr = 0

theorem bytes_keywordSet {mcu : Mcu} {v : Byte} {payload : Nat → Byte} {n : Nat} (h : n ≤ mcu.keywordAddrOffset) :
    bytes (keywordSet mcu v payload) 0 n = bytes payload 0 n := by
  apply bytes_congr
  intro x _ hx
  apply Function.update_of_ne
  omega

theorem xcrc32_keywordSet (mcu : Mcu) (v : Byte) (payload : Nat → Byte) (n : Nat) (init : U32) :
    xcrc32 (bytes (keywordSet mcu v payload) 0 n) init = xcrc32 (bytes payload 0 n) init ↔
      n ≤ mcu.keywordAddrOffset ∨ payload mcu.keywordAddrOffset = v := by
  by_cases hn : n ≤ mcu.keywordAddrOffset
  · rw [bytes_keywordSet hn]
    exact iff_of_true rfl (.inl hn)
  · have hsame : ∀ x, x < mcu.keywordAddrOffset ∨ mcu.keywordAddrOffset + 1 ≤ x →
        keywordSet mcu v payload x = payload x := by
      intro x hx
      apply Function.update_of_ne
      omega
    have hkey : keywordSet mcu v payload mcu.keywordAddrOffset = v := Function.update_self _ _ _
    constructor
    · intro h
      rw [xcrc32_bytes (by decide) (Nat.zero_le _) (by omega) hsame h] at hkey
      exact .inr hkey
    · intro h
      have hid : keywordSet mcu v payload = payload := by
        funext x
        by_cases hx : x = mcu.keywordAddrOffset
        · rw [hx, hkey, h.resolve_left hn]
        · exact hsame x (by omega)
      rw [hid]

section File
variable {mcu : Mcu} {file : Nat → Byte} {size hdrLen binSize : Nat} {t₀ : Transfer}

theorem Started.inHeader (h : Started size t₀) : InHeader size hdrLen t₀.mcuBootAddr t₀ 0 :=
  ⟨h.state, h.count, fun _ => h.headersize, h.imageSize, rfl, h.crc, h.offset⟩

/-- A payload that is taken over whole has the right sum unless a wrong keyword was summed. -/
theorem InPayload.reassembled_iff {b : Nat} {t : Transfer} (ht : InPayload mcu file size hdrLen b t binSize)
    (hfit : hdrLen + 6 + binSize = size) :
    Reassembled mcu file size hdrLen binSize b t
        (placed (otaBaseAddr b) (bytes (keywordSet mcu 0xff (payloadAt file hdrLen)) 0 binSize)) ↔
      binSize ≤ mcu.keywordAddrOffset + 4 ∨ payloadAt file hdrLen mcu.keywordAddrOffset = tlImageStartFlag := by
  have hcrc := ht.crc
  rw [show min binSize (size - hdrLen - 10) = binSize - 4 by omega] at hcrc
  have hkey := xcrc32_keywordSet mcu tlImageStartFlag (payloadAt file hdrLen) (binSize - 4) 0xffffffff
  rw [← hcrc, Nat.sub_le_iff_le_add] at hkey
  rw [← hkey]
  constructor
  · intro h
    exact h.crc
  · intro h
    exact ⟨rfl, by rw [ht.count, hfit], h⟩

/-- A file whose sizes fit together is taken over as it should be exactly when it is separable. -/
theorem reassembled_iff (mcu : Mcu) (junk : Nat → Nat → Byte) (hlen : ofLe (bytes file 6 2) = hdrLen)
    (hsum : size = u32 (hdrLen + binSize + sizeofOtaSignInfo)) (hbin : binSize < 4294967296) (hhdr : hdrLen < size)
    (hsize : size < otaMaxImageSize) (ht₀ : Started size t₀) :
    ∃ t ps, Feeds mcu file size junk (frameCount size) t₀ t ps ∧
      (Reassembled mcu file size hdrLen binSize t₀.mcuBootAddr t ps ↔ Separable mcu file size hdrLen binSize) := by
  have hmax : size < 196608 := hsize
  have hcount : 48 * frameCount size < size + 48 ∧ min size (48 * frameCount size) = size := by
    unfold frameCount otaFramesize
    omega
  unfold u32 sizeofOtaSignInfo at hsum
  by_cases hends : HeaderEnds hdrLen
  · by_cases hsub : hdrLen % 48 + 6 ≤ frameLen size (hdrLen / 48)
    · obtain ⟨t, hfeeds, ht⟩ := @feeds_payload mcu file size hdrLen _ t₀ junk hlen hsize hends hhdr hsub ht₀.inHeader
        (frameCount size) (by omega) hcount.1
      have hend := @frameLen_end size (hdrLen / 48) (by omega)
      have hle := frameLen_le size (hdrLen / 48)
      have hoff : min size (48 * frameCount size) - (hdrLen + 6) = binSize := by omega
      rw [hoff] at hfeeds ht
      refine ⟨t, _, hfeeds, ?_⟩
      rw [ht.reassembled_iff (by omega)]
      unfold Separable sizeofOtaSignInfo otaFramesize
      constructor
      · intro h
        exact ⟨by omega, .inr ⟨hends, h⟩⟩
      · intro h
        rcases h.2 with hzero | ⟨-, h⟩
        · left
          omega
        · exact h
    · obtain ⟨t, ps, hfeeds, -, hcnt⟩ := @feeds_behind mcu file size hdrLen _ t₀ junk hlen hsize hends hhdr
        (Nat.lt_of_not_le hsub) ht₀.inHeader (frameCount size) (by omega) hcount.1
      refine ⟨t, ps, hfeeds, iff_of_false ?_ ?_⟩
      · intro h
        have heq := h.count
        omega
      · rintro ⟨⟨hfit, hframe⟩, -⟩
        unfold frameLen otaFramesize sizeofOtaSignInfo at *
        omega
  · obtain ⟨t, hfeeds, ht⟩ := @feeds_header mcu file size hdrLen _ junk t₀ hlen hsize ht₀.inHeader (frameCount size) hcount.1
      (fun h => absurd h hends)
    rw [hcount.2] at ht
    refine ⟨t, [], hfeeds, ?_⟩
    constructor
    · intro h
      have hlength := congrArg List.length h.programmed
      rw [placed_length, bytes_length] at hlength
      change 0 = binSize at hlength
      unfold Separable HeaderEnds sizeofOtaSignInfo otaFramesize at *
      omega
    · intro h
      have hzero : binSize = 0 := h.2.resolve_right fun h => hends h.1
      subst hzero
      exact ⟨rfl, ht.count, ht.crc⟩

end File

theorem bytes_shift (f : Flash) (a x n : Nat) : bytes (fun y => f (a + y)) x n = bytes f (a + x) n := by
  unfold bytes
  apply List.map_congr_left
  intro i _
  rw [Nat.add_assoc]

/-- A file that `ota_startReqHandler` offers, fed in frames to `ota_DataProcess`, is reassembled
exactly when it is separable. -/
theorem ota_reassembly_iff {f : Flash} {a : Nat} {req : OtaIdent} (hoffer : Offers f a req) (mcu : Mcu)
    (junk : Nat → Nat → Byte) {t₀ : Transfer} (ht₀ : Started (readHdrFields f a).totalImageSize t₀) (g : Flash) :
    let hdr := readHdrFields f a
    let binSize := (readSignInfo f (a + hdr.otaHdrLen)).binSize
    let file := fun x => f (a + x)
    let m := otaFeed mcu file hdr.totalImageSize junk (frameCount hdr.totalImageSize) t₀
    Reassembled mcu file hdr.totalImageSize hdr.otaHdrLen binSize t₀.mcuBootAddr (m.value g) (programmed (m.ops g)) ↔
      Separable mcu file hdr.totalImageSize hdr.otaHdrLen binSize := by
  obtain ⟨-, hlt, -, hsum, hmax⟩ := otaBinState_valid hoffer.2
  have hlen : ofLe (bytes (fun x => f (a + x)) 6 2) = (readHdrFields f a).otaHdrLen := by
    rw [bytes_shift, readHdrFields_otaHdrLen]
  obtain ⟨t, ps, hfeeds, hiff⟩ := reassembled_iff mcu junk hlen hsum (readSignInfo_binSize_lt f _) hlt hmax ht₀
  obtain ⟨hvalue, hops⟩ := hfeeds g
  dsimp only
  rw [hvalue, hops]
  exact hiff

/-- An upgrade file with a header of `otaHdrLen` bytes, for an 8258. -/
def upgradeFile (otaHdrLen : Nat) (payload : List Byte) : List Byte :=
  le32 otaUpgradeFileId ++ le16 0x100 ++ le16 otaHdrLen ++ le16 0 ++ le16 0x1141 ++ le16 0x8258 ++ le32 0x01000107 ++ le16 2 ++
    List.replicate 32 0 ++ le32 (otaHdrLen + sizeofOtaSignInfo + payload.length) ++ List.replicate (otaHdrLen - 56) 0 ++
    le16 otaTypeBin ++ le32 payload.length ++ payload

/-- The flash of a target with this file in its lower bank. -/
def offering (otaHdrLen : Nat) (payload : List Byte) : Flash := fun x => (upgradeFile otaHdrLen payload).getD x 0xff

/-- 40 bytes with `TL_IMAGE_START_FLAG` in the place of the keyword. -/
def smallImage : List Byte := List.replicate 8 1 ++ tlImageStartFlag :: List.replicate 31 2

def startedTransfer (size : Nat) : Transfer where
  rcOtaInfo := ⟨⟨0x01000107, 0x8258, 0x1141⟩, size⟩
  otaState := .starting
  otaHeadercnt := 0
  otaHeadersize := 0
  mcuBootAddr := 0
  crcValue := 0xffffffff
  flashOffsetAddr := 0

theorem ota_reassembly_iff_small :
    let f := offering 56 smallImage
    let hdr := readHdrFields f 0
    let binSize := (readSignInfo f (0 + hdr.otaHdrLen)).binSize
    let file := fun x => f (0 + x)
    let t₀ := startedTransfer hdr.totalImageSize
    let m := otaFeed .mcu8258 file hdr.totalImageSize (fun _ _ => 0) (frameCount hdr.totalImageSize) t₀
    Reassembled .mcu8258 file hdr.totalImageSize hdr.otaHdrLen binSize t₀.mcuBootAddr (m.value fun _ => 0xff)
        (programmed (m.ops fun _ => 0xff)) ↔
      Separable .mcu8258 file hdr.totalImageSize hdr.otaHdrLen binSize :=
  @ota_reassembly_iff (offering 56 smallImage) 0 ⟨0x01000106, 0x8258, 0x1141⟩ (by decide +kernel) .mcu8258 _ _
    ⟨rfl, rfl, rfl, rfl, rfl, rfl⟩ _

/-- With a header of 91 bytes the subheader starts in one frame and ends in the next. -/
theorem ota_reassembly_miscounts :
    let f := offering 91 smallImage
    let hdr := readHdrFields f 0
    let file := fun x => f (0 + x)
    let t₀ := startedTransfer hdr.totalImageSize
    let m := otaFeed .mcu8258 file hdr.totalImageSize (fun _ _ => 0) (frameCount hdr.totalImageSize) t₀
    Offers f 0 ⟨0x01000106, 0x8258, 0x1141⟩ ∧ Started hdr.totalImageSize t₀ ∧
      ¬ Reassembled .mcu8258 file hdr.totalImageSize hdr.otaHdrLen (readSignInfo f (0 + hdr.otaHdrLen)).binSize
        t₀.mcuBootAddr (m.value fun _ => 0xff) (programmed (m.ops fun _ => 0xff)) := by
  refine ⟨by decide +kernel, ⟨rfl, rfl, rfl, rfl, rfl, rfl⟩, fun h => ?_⟩
  have hcount : ((otaFeed .mcu8258 (fun x => offering 91 smallImage (0 + x)) 137 (fun _ _ => 0) (frameCount 137)
      (startedTransfer 137)).value fun _ => 0xff).otaHeadercnt ≠ 137 := by
    decide +kernel
  have hsize : (readHdrFields (offering 91 smallImage) 0).totalImageSize = 137 := by
    decide +kernel
  have heq := h.count
  rw [hsize] at heq
  exact hcount heq

end Rf4ce.Ota

import Rf4ce.Crash.Program
import Rf4ce.Crash.Bytes
import Mathlib.Data.List.GetD

/-! The flash chip and `drv_flash.c`: sector erase, page program, and the driver that
splits every access at page boundaries. -/
namespace Rf4ce.Drv
open Crash

def flashPageSize : Nat := 256
def flashSectorSize : Nat := 4096

abbrev Flash := Nat → Byte

inductive FlashOp where
  | erase (addr : Nat)
  | program (addr : Nat) (data : List Byte)
deriving DecidableEq, Repr

/-- Programming can only clear bits. -/
def Flash.program (f : Flash) (addr : Nat) (data : List Byte) : Flash := fun x =>
  if addr ≤ x then f x &&& data.getD (x - addr) 0xff else f x

/-- `flash_erase_sector` clears the sector that holds `addr`. -/
def Flash.eraseSector (f : Flash) (addr : Nat) : Flash := fun x =>
  if x / flashSectorSize = addr / flashSectorSize then 0xff else f x

def FlashOp.apply (f : Flash) : FlashOp → Flash
  | .erase addr => f.eraseSector addr
  | .program addr data => f.program addr data

/-- The addresses an operation may change. -/
def FlashOp.foot : FlashOp → Nat → Prop
  | .erase addr, x => x / flashSectorSize = addr / flashSectorSize
  | .program addr data, x => addr ≤ x ∧ x < addr + data.length

theorem program_outside (f : Flash) (addr : Nat) (data : List Byte) {x : Nat}
    (hx : ¬ (addr ≤ x ∧ x < addr + data.length)) : f.program addr data x = f x := by
  unfold Flash.program
  split_ifs with h
  · rw [List.getD_eq_default _ _ (by omega)]
    exact BitVec.and_allOnes
  · rfl

instance : Device FlashOp Nat Byte where
  apply := FlashOp.apply
  foot := FlashOp.foot
  apply_outside := by
    intro f op x hx
    cases op with
    | erase addr => exact if_neg hx
    | program addr data => exact program_outside f addr data hx

abbrev FlashM := Prog FlashOp

@[simp] theorem apply_erase (f : Flash) (addr : Nat) :
    Device.apply f (FlashOp.erase addr) = f.eraseSector addr := rfl

@[simp] theorem apply_program (f : Flash) (addr : Nat) (data : List Byte) :
    Device.apply f (FlashOp.program addr data) = f.program addr data := rfl

theorem program_apply (f : Flash) (addr : Nat) (data : List Byte) (i : Nat)
    (h : i < data.length) : f.program addr data (addr + i) = f (addr + i) &&& data[i] := by
  simp [Flash.program, h]

theorem program_nil (f : Flash) (addr : Nat) : f.program addr [] = f := by
  funext x
  exact program_outside f addr [] (by simp)

/-- Programming a range in two consecutive parts. -/
theorem program_append (f : Flash) (addr : Nat) (xs ys : List Byte) :
    (f.program addr xs).program (addr + xs.length) ys = f.program addr (xs ++ ys) := by
  funext x
  by_cases h : x < addr + xs.length
  · rw [program_outside _ _ _ (by omega)]
    unfold Flash.program
    split_ifs with ha
    · rw [List.getD_append _ _ _ _ (by omega)]
    · rfl
  · have hx : addr ≤ x := by omega
    have hy : addr + xs.length ≤ x := by omega
    simp only [Flash.program, hx, hy, if_true]
    rw [List.getD_eq_default xs _ (by omega), List.getD_append_right _ _ _ _ (by omega),
      show x - addr - xs.length = x - (addr + xs.length) by omega, BitVec.and_assoc]
    congr 1
    exact BitVec.allOnes_and

/-- Programming erased bytes stores the data. -/
theorem bytes_program_erased {f : Flash} {addr : Nat} {data : List Byte}
    (h : ∀ x, addr ≤ x → x < addr + data.length → f x = 0xff) :
    bytes (f.program addr data) addr data.length = data := by
  refine bytes_eq_iff.mpr fun i hi => ?_
  rw [program_apply f addr data i hi, h _ (by omega) (by omega)]
  exact BitVec.allOnes_and

/-- The data can be stored over the old bytes: no cleared bit has to be set. -/
def Programmable (old data : List Byte) : Prop := List.zipWith (· &&& ·) old data = data

instance (old data : List Byte) : Decidable (Programmable old data) :=
  inferInstanceAs (Decidable (_ = _))

theorem programmable_getElem {old data : List Byte} (h : Programmable old data) {i : Nat}
    (ho : i < old.length) (hd : i < data.length) : old[i] &&& data[i] = data[i] := by
  have hi := congrArg (fun l => l[i]?) h
  simpa [List.getElem?_zipWith, ho, hd] using hi

theorem programmable_append {xs xs' ys ys' : List Byte} (h : Programmable xs ys)
    (h' : Programmable xs' ys') (hlen : xs.length = ys.length) :
    Programmable (xs ++ xs') (ys ++ ys') := by
  unfold Programmable at *
  rw [List.zipWith_append hlen, h, h']

theorem programmable_self (l : List Byte) : Programmable l l := by
  unfold Programmable
  induction l with
  | nil => rfl
  | cons b bs ih => rw [List.zipWith_cons_cons, ih, BitVec.and_self]

theorem programmable_erased (l : List Byte) : Programmable (List.replicate l.length 0xff) l := by
  unfold Programmable
  induction l with
  | nil => rfl
  | cons b bs ih =>
    rw [List.length_cons, List.replicate_succ, List.zipWith_cons_cons, ih]
    exact congrArg (· :: bs) BitVec.allOnes_and

/-- A write cut after `m` bytes has stored these and left the others. -/
theorem bytes_program_take {f : Flash} {addr n : Nat} {old data : List Byte}
    (h : bytes f addr n = old) (hlen : data.length = n) (hp : Programmable old data) (m : Nat) :
    bytes (f.program addr (data.take m)) addr n = data.take m ++ old.drop m := by
  have hold : old.length = n := by rw [← h, bytes_length]
  refine List.ext_getElem (by simp; omega) fun i h₁ h₂ => ?_
  rw [bytes_length] at h₁
  have hi : f (addr + i) = old[i] := by
    rw [← bytes_getElem f addr n i (by rw [bytes_length]; exact h₁)]
    exact List.getElem_of_eq h _
  rw [bytes_getElem, List.getElem_append]
  split_ifs with hm
  · rw [program_apply _ _ _ _ hm, hi, List.getElem_take]
    exact programmable_getElem hp (by omega) (by omega)
  · have hmi : m ≤ i := by
      rw [List.length_take] at hm
      omega
    rw [program_outside _ _ _ (by rw [List.length_take] at hm ⊢; omega), hi, List.getElem_drop]
    congr 1
    rw [List.length_take]
    omega

theorem bytes_program {f : Flash} {addr n : Nat} {old data : List Byte}
    (h : bytes f addr n = old) (hlen : data.length = n) (hp : Programmable old data) :
    bytes (f.program addr data) addr n = data := by
  have hold : old.length = n := by rw [← h, bytes_length]
  have hn := bytes_program_take h hlen hp n
  rwa [List.take_of_length_le (by omega), List.drop_of_length_le (by omega), List.append_nil] at hn

/-- Programming a part of a known range. -/
theorem bytes_program_mid {f : Flash} {addr n k : Nat} {old data : List Byte}
    (h : bytes f addr n = old) (hk : k + data.length ≤ n)
    (hp : Programmable ((old.drop k).take data.length) data) :
    bytes (f.program (addr + k) data) addr n =
      old.take k ++ data ++ old.drop (k + data.length) := by
  have hmid : bytes f (addr + k) data.length = (old.drop k).take data.length := bytes_sub h _ _ hk
  have hout {a m : Nat} (ha : a + m ≤ addr + k ∨ addr + k + data.length ≤ a) :
      bytes (f.program (addr + k) data) a m = bytes f a m :=
    bytes_congr fun x h₁ h₂ => program_outside f _ data (by omega)
  have hsplit (g : Flash) : bytes g addr n = bytes g addr k ++ bytes g (addr + k) data.length ++
      bytes g (addr + (k + data.length)) (n - (k + data.length)) := by
    rw [← bytes_append, ← bytes_append]
    congr 1
    omega
  have hpre : bytes f addr k = old.take k := by
    simpa using bytes_sub h 0 k (by omega)
  have hpost : bytes f (addr + (k + data.length)) (n - (k + data.length)) =
      old.drop (k + data.length) := by
    have hold : old.length = n := by rw [← h, bytes_length]
    rw [bytes_sub h _ _ (by omega), List.take_of_length_le (by rw [List.length_drop]; omega)]
  rw [hsplit, bytes_program hmid rfl hp, hout (.inl (Nat.le_refl _)), hout (.inr (by omega)), hpre,
    hpost]

/-- The page pieces of the do-while loop of `flash_op`; the fuel is the length plus one. -/
def flashPieces : Nat → Nat → Nat → Nat → List (Nat × Nat)
  | 0, _, _, _ => []
  | fuel + 1, addr, pageReLen, remainLen =>
    if remainLen ≤ pageReLen then [(addr, remainLen)]
    else (addr, pageReLen) :: flashPieces fuel (addr + pageReLen) flashPageSize (remainLen - pageReLen)

/-- The pieces of an access, the first one reaching to the next page at most. -/
def flashOp (addr len : Nat) : List (Nat × Nat) :=
  let re := addr % 256
  flashPieces (len + 1) addr (if re ≠ 0 then 256 - re else 256) len

def flashProgramPieces (buf : List Byte) : List (Nat × Nat) → FlashM Unit
  | [] => pure ()
  | (addr, writeLen) :: ps => do
    issue (.program addr (buf.take writeLen))
    flashProgramPieces (buf.drop writeLen) ps

def flashWrite (addr : Nat) (buf : List Byte) : FlashM Unit :=
  flashProgramPieces buf (flashOp addr buf.length)

def flashRead (f : Flash) (addr len : Nat) : List Byte :=
  (flashOp addr len).flatMap fun p => bytes f p.1 p.2

def flashErase (addr : Nat) : FlashM Unit := issue (.erase addr)

/-- An `u32` as an `s32`. -/
def s32 (n : Nat) : Int := (BitVec.ofNat 32 n).toInt

/-- Read back in pieces of `copyLen = 48` bytes and compare. -/
def flashCheckLoop (f : Flash) : Nat → Int → Nat → List Byte → Bool
  | 0, _, _, _ => true
  | fuel + 1, toalLen, sAddr, pSrc =>
    if toalLen ≤ 0 then true
    else
      let wLen := if toalLen > 48 then 48 else toalLen.toNat
      if flashRead f sAddr wLen ≠ pSrc.take wLen then false
      else flashCheckLoop f fuel (toalLen - wLen) (sAddr + wLen) (pSrc.drop wLen)

def flashWriteWithCheck (addr : Nat) (buf : List Byte) : FlashM Bool := do
  flashWrite addr buf
  query fun f => flashCheckLoop f (buf.length + 1) (s32 buf.length) addr buf

/-- Where the power may fail inside a write: at its ends and at page boundaries. -/
def PageCut (addr len m : Nat) : Prop := m ≤ len ∧ (m = 0 ∨ m = len ∨ (addr + m) % 256 = 0)

theorem flashProgramPieces_wp {R : Nat → Prop} {Q : Unit → Flash → Prop} {C : Flash → Prop}
    (fuel : Nat) (addr pageReLen : Nat) (buf : List Byte) (f : Flash)
    (hfuel : buf.length < fuel) (hpos : 0 < pageReLen) (hpage : (addr + pageReLen) % 256 = 0)
    (hR : ∀ x, addr ≤ x → x < addr + buf.length → R x)
    (hC : ∀ m, PageCut addr buf.length m → C (f.program addr (buf.take m)))
    (hQ : Q () (f.program addr buf)) :
    wp R (flashProgramPieces buf (flashPieces fuel addr pageReLen buf.length)) Q C f := by
  induction fuel generalizing addr pageReLen buf f with
  | zero => omega
  | succ fuel ih =>
    have hC0 : C f := by simpa [program_nil] using hC 0 ⟨by omega, .inl rfl⟩
    unfold flashPieces
    split_ifs with hlast
    · have hC1 : C (f.program addr buf) := by
        simpa using hC buf.length ⟨Nat.le_refl _, .inr (.inl rfl)⟩
      refine wp_bind (wp_issue ?_ hC0 ?_ ?_)
      · intro x hx
        simp only [Device.foot, FlashOp.foot, List.take_length] at hx
        exact hR x hx.1 hx.2
      · simpa using hC1
      · simpa [flashProgramPieces] using wp_pure hQ hC1
    · -- the first piece ends at a page boundary, the rest starts there
      have hlen : (buf.take pageReLen).length = pageReLen := by simp; omega
      have hjoin : ∀ ys, (f.program addr (buf.take pageReLen)).program (addr + pageReLen) ys =
          f.program addr (buf.take pageReLen ++ ys) := by
        intro ys
        rw [← program_append, hlen]
      have hC1 : C (f.program addr (buf.take pageReLen)) :=
        hC pageReLen ⟨by omega, .inr (.inr hpage)⟩
      refine wp_bind (wp_issue ?_ hC0 hC1 ?_)
      · intro x hx
        simp only [Device.foot, FlashOp.foot, hlen] at hx
        exact hR x hx.1 (by omega)
      · rw [apply_program, ← List.length_drop]
        refine ih _ _ _ _ (by simp; omega) (by decide) (by simp only [flashPageSize]; omega) ?_ ?_ ?_
        · intro x h₁ h₂
          rw [List.length_drop] at h₂
          exact hR x (by omega) (by omega)
        · rintro m ⟨hm, hm'⟩
          rw [hjoin, ← List.take_add]
          rw [List.length_drop] at hm hm'
          exact hC _ ⟨by omega, by omega⟩
        · rw [hjoin, List.take_append_drop]
          exact hQ

theorem flashWrite_wp {R : Nat → Prop} {Q : Unit → Flash → Prop} {C : Flash → Prop}
    {addr : Nat} {buf : List Byte} {f : Flash}
    (hR : ∀ x, addr ≤ x → x < addr + buf.length → R x)
    (hC : ∀ m, PageCut addr buf.length m → C (f.program addr (buf.take m)))
    (hQ : Q () (f.program addr buf)) : wp R (flashWrite addr buf) Q C f := by
  refine flashProgramPieces_wp _ _ _ _ _ (by omega) ?_ ?_ hR hC hQ <;> split_ifs <;> omega

theorem flashPieces_read (f : Flash) (fuel addr pageReLen len : Nat) (hfuel : len < fuel)
    (hpos : 0 < pageReLen) :
    ((flashPieces fuel addr pageReLen len).flatMap fun p => bytes f p.1 p.2) = bytes f addr len := by
  induction fuel generalizing addr pageReLen len with
  | zero => omega
  | succ fuel ih =>
    unfold flashPieces
    split_ifs with h
    · simp
    · rw [List.flatMap_cons, ih _ _ _ (by omega) (by decide), ← bytes_append]
      congr 1
      omega

/-- Splitting a read at page boundaries does not show in its result. -/
@[simp] theorem flashRead_eq (f : Flash) (addr len : Nat) : flashRead f addr len = bytes f addr len :=
  flashPieces_read f _ _ _ _ (by omega) (by split_ifs <;> omega)

theorem s32_eq {n : Nat} (h : n < 2 ^ 31) : s32 n = n := by
  rw [s32, BitVec.toInt_eq_toNat_of_lt]
  · rw [BitVec.toNat_ofNat, Nat.mod_eq_of_lt (by omega)]
  · rw [BitVec.toNat_ofNat]
    omega

theorem flashCheckLoop_eq (f : Flash) (fuel sAddr : Nat) (pSrc : List Byte)
    (hfuel : pSrc.length < fuel) :
    flashCheckLoop f fuel pSrc.length sAddr pSrc = decide (bytes f sAddr pSrc.length = pSrc) := by
  induction fuel generalizing sAddr pSrc with
  | zero => omega
  | succ fuel ih =>
    by_cases h0 : pSrc.length = 0
    · obtain rfl := List.length_eq_zero_iff.mp h0
      simp [flashCheckLoop]
    · rw [flashCheckLoop, if_neg (by omega)]
      dsimp only
      generalize hw : (if (pSrc.length : Int) > 48 then 48 else (pSrc.length : Int).toNat) = w
      have hwl : w ≤ pSrc.length ∧ 0 < w := by split_ifs at hw <;> omega
      have hsplit : bytes f sAddr pSrc.length =
          bytes f sAddr w ++ bytes f (sAddr + w) (pSrc.drop w).length := by
        rw [← bytes_append, List.length_drop]
        congr 1
        omega
      have hrest : (pSrc.length : Int) - w = (pSrc.drop w).length := by
        rw [List.length_drop]
        omega
      rw [flashRead_eq, hrest, ih _ _ (by rw [List.length_drop]; omega), hsplit]
      have hlen : (bytes f sAddr w).length = (pSrc.take w).length := by simp; omega
      have happ : (bytes f sAddr w ++ bytes f (sAddr + w) (pSrc.drop w).length = pSrc) ↔
          bytes f sAddr w = pSrc.take w ∧
            bytes f (sAddr + w) (pSrc.drop w).length = pSrc.drop w := by
        constructor
        · intro h
          exact List.append_inj (h.trans (List.take_append_drop w pSrc).symm) hlen
        · rintro ⟨h₁, h₂⟩
          rw [h₁, h₂, List.take_append_drop]
      rw [decide_eq_decide.mpr happ, Bool.decide_and]
      by_cases ht : bytes f sAddr w = pSrc.take w <;> simp [ht]

/-- A checked write reports whether the range reads back as the buffer. -/
theorem flashWriteWithCheck_wp {R : Nat → Prop} {Q : Bool → Flash → Prop} {C : Flash → Prop}
    {addr : Nat} {buf : List Byte} {f : Flash} (hlen : buf.length < 2 ^ 31)
    (hR : ∀ x, addr ≤ x → x < addr + buf.length → R x)
    (hC : ∀ m, PageCut addr buf.length m → C (f.program addr (buf.take m)))
    (hQ : Q (decide (bytes (f.program addr buf) addr buf.length = buf)) (f.program addr buf)) :
    wp R (flashWriteWithCheck addr buf) Q C f := by
  refine wp_bind (flashWrite_wp hR hC (wp_query ?_ ?_))
  · rw [s32_eq hlen, flashCheckLoop_eq _ _ _ _ (by omega)]
    exact hQ
  · simpa using hC buf.length ⟨Nat.le_refl _, .inr (.inl rfl)⟩

theorem bytes_program_zip (f : Flash) (addr : Nat) (data : List Byte) :
    bytes (f.program addr data) addr data.length = List.zipWith (· &&& ·) (bytes f addr data.length) data := by
  apply List.ext_getElem
  · simp
  · intro i h₁ h₂
    rw [bytes_length] at h₁
    rw [bytes_getElem, List.getElem_zipWith, bytes_getElem, program_apply f addr data i h₁]

theorem flashWriteWithCheck_value (addr : Nat) {buf : List Byte} (hlen : buf.length < 2 ^ 31) (f : Flash) :
    (flashWriteWithCheck addr buf).value f = decide (Programmable (bytes f addr buf.length) buf) := by
  have h : wp (fun _ => True) (flashWriteWithCheck addr buf)
      (fun r _ => r = decide (bytes (f.program addr buf) addr buf.length = buf)) (fun _ => True) f := by
    apply flashWriteWithCheck_wp hlen
    · intro _ _ _
      trivial
    · intro _ _
      trivial
    · rfl
  have hr := wp_result h
  rw [bytes_program_zip] at hr
  exact hr

/-! ### Runs of sectors -/

/-- Erase `n` flash sectors from `addr` on. -/
def flashEraseSectors (addr : Nat) : Nat → FlashM Unit
  | 0 => pure ()
  | n + 1 => do
    flashErase addr
    flashEraseSectors (addr + flashSectorSize) n

theorem eraseSector_apply {f : Flash} {addr x : Nat} (haddr : addr % 4096 = 0) :
    f.eraseSector addr x = if addr ≤ x ∧ x < addr + 4096 then 0xff else f x := by
  unfold Flash.eraseSector flashSectorSize
  refine if_congr ?_ rfl rfl
  omega

/-- The flash after `n` sectors from `addr` on are erased. -/
def Flash.eraseRange (f : Flash) (addr n : Nat) : Flash := fun x =>
  if addr ≤ x ∧ x < addr + 4096 * n then 0xff else f x

theorem eraseRange_zero (f : Flash) (addr : Nat) : f.eraseRange addr 0 = f := by
  funext x
  exact if_neg (by omega)

theorem eraseRange_in {f : Flash} {addr n x : Nat} (h₁ : addr ≤ x) (h₂ : x < addr + 4096 * n) :
    f.eraseRange addr n x = 0xff := if_pos ⟨h₁, h₂⟩

theorem eraseRange_out {f : Flash} {addr n x : Nat} (h : ¬ (addr ≤ x ∧ x < addr + 4096 * n)) :
    f.eraseRange addr n x = f x := if_neg h

theorem eraseRange_succ (f : Flash) {addr : Nat} (haddr : addr % 4096 = 0) (n : Nat) :
    (f.eraseSector addr).eraseRange (addr + 4096) n = f.eraseRange addr (n + 1) := by
  funext x
  simp only [Flash.eraseRange, eraseSector_apply haddr]
  split_ifs
  all_goals first | rfl | omega

/-- Erasing sector by sector. -/
theorem flashEraseSectors_wp (f : Flash) {addr : Nat} (haddr : addr % 4096 = 0) (n : Nat) :
    wp (fun x => addr ≤ x ∧ x < addr + 4096 * n) (flashEraseSectors addr n)
      (fun _ g => g = f.eraseRange addr n) (fun g => ∃ k ≤ n, g = f.eraseRange addr k) f := by
  induction n generalizing f addr with
  | zero => exact wp_pure (eraseRange_zero f addr).symm ⟨0, Nat.le_refl 0, (eraseRange_zero f addr).symm⟩
  | succ n ih =>
    have hrest := @ih (f.eraseSector addr) (addr + 4096) (by omega)
    have hone : f.eraseSector addr = f.eraseRange addr 1 := by
      rw [← eraseRange_succ f haddr, eraseRange_zero]
    apply wp_bind
    apply wp_issue
    · intro x hx
      simp only [Device.foot, FlashOp.foot, flashSectorSize] at hx
      omega
    · exact ⟨0, Nat.zero_le _, (eraseRange_zero f addr).symm⟩
    · exact ⟨1, Nat.succ_le_succ (Nat.zero_le n), hone⟩
    · apply wp_region (wp_mono hrest _ _)
      · intro x hx
        omega
      · intro _ g hg
        rw [hg, eraseRange_succ f haddr]
      · intro g hg
        obtain ⟨k, hk, rfl⟩ := hg
        exact ⟨k + 1, Nat.succ_le_succ hk, eraseRange_succ f haddr k⟩

end Rf4ce.Drv

import Rf4ce.Drv.Flash
import Rf4ce.Mac.Pib
import Rf4ce.Ota.Types

/-! The IEEE address that `mac_pibReset` finds in the flash or makes up, over restarts. -/
namespace Rf4ce.Mac
open Crash Drv Ota

/-! ### The reset -/

inductive FlashSize where
  | k512 | m1 | m2 | m4
deriving DecidableEq, Repr

/-- `CFG_MAC_ADDRESS`, for the flash found at the start. -/
def cfgMacAddress : FlashSize → Nat
  | .k512 => 0x76000
  | .m1 => 0xFF000
  | .m2 => 0x1FF000
  | .m4 => 0x3FF000

def startIEEEAddr : List Byte := [0x38, 0xc1, 0xa4]
def invalidIEEEAddr : List Byte := List.replicate 8 0xff
def gZeroAddr : List Byte := List.replicate 8 0

/-- The bytes 3 to 5 of a stored address that has to be rotated. -/
def vendorIds : List (List Byte) := [
  [0x38, 0xC1, 0xA4],
  [0xD1, 0x19, 0xC4],
  [0xCB, 0x0B, 0xD8],
  [0x77, 0x5F, 0xD8],
  [0xB4, 0xCF, 0x3C],
  [0xC7, 0xA3, 0xC0],
  [0x28, 0x22, 0x38]]

/-- The bytes in the fuses, rotated unless there are none. -/
def drvGetPrimaryIeeeAddr (buf : List Byte) : Option (List Byte) :=
  if buf = gZeroAddr ∨ buf = invalidIEEEAddr then none else some (buf.drop 6 ++ buf.take 6)

/-- What a reset gets from outside: two sequence numbers, five random bytes, and what
`drv_get_primary_ieee_addr` returns. -/
structure ResetEnv where
  dsn : Byte
  bsn : Byte
  random : List Byte
  primary : Option (List Byte)
  random_length : random.length = 5
  primary_length : ∀ p ∈ primary, p.length = 8

/-- The address of a device that has none yet. -/
def newAddr (mcu : Mcu) (e : ResetEnv) : List Byte :=
  (if mcu = .tl321x then e.primary else none).getD (e.random ++ startIEEEAddr)

/-- A new address is stored rotated, in two parts. -/
def storeNewAddr (mcu : Mcu) (c : FlashSize) (e : ResetEnv) : FlashM (List Byte) := do
  let extAddr := newAddr mcu e
  flashWrite (cfgMacAddress c) (extAddr.drop 2)
  flashWrite (cfgMacAddress c + 6) (extAddr.take 2)
  pure extAddr

/-- The `extAddr` of `mac_pibReset`. -/
def loadExtAddr (mcu : Mcu) (c : FlashSize) (e : ResetEnv) : FlashM (List Byte) := do
  let extAddr ← query fun f => bytes f (cfgMacAddress c) 8
  if extAddr = invalidIEEEAddr ∨ extAddr = gZeroAddr then do
    if extAddr = gZeroAddr then flashErase (cfgMacAddress c)
    storeNewAddr mcu c e
  else if (extAddr.drop 3).take 3 ∈ vendorIds then
    query fun f => flashRead f (cfgMacAddress c + 6) 2 ++ flashRead f (cfgMacAddress c) 6
  else pure extAddr

def macPibReset (mcu : Mcu) (c : FlashSize) (e : ResetEnv) : FlashM PibResult := do
  let pib := storeBytes macPibDefaults (offsetOf .dsn) [e.dsn]
  let pib := storeBytes pib (offsetOf .bsn) [e.bsn]
  let extAddr ← loadExtAddr mcu c e
  pure (macMlmeSetReq pib macExtendedAddress fun i => extAddr.getD i 0)

/-- `macPib.extendedAddress` -/
def extendedAddress (r : PibResult) : List Byte := bytes r.pib (offsetOf .extendedAddress) 8

/-! ### One reset -/

section Reset
variable {mcu : Mcu} {c : FlashSize} {e : ResetEnv} {f : Flash} {addr raw : List Byte}

/-- The 8 bytes in the flash. -/
def storedAddr (c : FlashSize) (f : Flash) : List Byte := bytes f (cfgMacAddress c) 8

def BlankAddr (raw : List Byte) : Prop := raw = invalidIEEEAddr ∨ raw = gZeroAddr

instance (raw : List Byte) : Decidable (BlankAddr raw) := inferInstanceAs (Decidable (_ ∨ _))

/-- The order in which an address is stored. -/
def rotated (addr : List Byte) : List Byte := addr.drop 2 ++ addr.take 2

/-- The address read from the bytes in the flash. -/
def readAddr (raw : List Byte) : List Byte :=
  if (raw.drop 3).take 3 ∈ vendorIds then raw.drop 6 ++ raw.take 6 else raw

/-- The bytes in the flash after a reset. -/
def nextStored (mcu : Mcu) (e : ResetEnv) (raw : List Byte) : List Byte :=
  if BlankAddr raw then rotated (newAddr mcu e) else raw

/-- The address a reset ends with. -/
def nextAddr (mcu : Mcu) (e : ResetEnv) (raw : List Byte) : List Byte :=
  if BlankAddr raw then newAddr mcu e else readAddr raw

theorem newAddr_length (mcu : Mcu) (e : ResetEnv) : (newAddr mcu e).length = 8 := by
  have hrandom : (e.random ++ startIEEEAddr).length = 8 := by
    rw [List.length_append, e.random_length]
    rfl
  unfold newAddr
  split_ifs
  · cases hp : e.primary with
    | none => exact hrandom
    | some p => exact e.primary_length p hp
  · exact hrandom

theorem extendedAddress_set (pib : MacPib) (haddr : addr.length = 8) :
    extendedAddress (macMlmeSetReq pib macExtendedAddress fun i => addr.getD i 0) = addr := by
  have hentry : macPibTbl[macPibIndex macExtendedAddress]? = some ⟨offsetOf .extendedAddress, 8, 0, 0⟩ := rfl
  have hvalue : bytes (fun i => addr.getD i 0) 0 addr.length = addr := by
    rw [bytes_eq_iff]
    intro i hi
    rw [Nat.zero_add, List.getD_eq_getElem _ _ hi]
  have hstore := bytes_storeBytes pib (offsetOf .extendedAddress) addr
  rw [haddr] at hstore hvalue
  unfold macMlmeSetReq
  rw [if_neg (by decide), hentry]
  dsimp only
  have hpass : valueRefused ⟨offsetOf .extendedAddress, 8, 0, 0⟩ macExtendedAddress (fun i => addr.getD i 0) = false :=
    if_neg (by simp)
  rw [hpass, if_neg Bool.false_ne_true, extendedAddress, applyAttribute_pib, if_neg (by decide), hvalue, hstore]

theorem cfgMacAddress_mod (c : FlashSize) : cfgMacAddress c % 4096 = 0 := by
  cases c with
  | k512 => rfl
  | m1 => rfl
  | m2 => rfl
  | m4 => rfl

/-- A new address goes to erased flash in two parts. -/
theorem storedAddr_write (herased : ∀ x, cfgMacAddress c ≤ x → x < cfgMacAddress c + 8 → f x = 0xff)
    (haddr : addr.length = 8) :
    storedAddr c ((f.program (cfgMacAddress c) (addr.drop 2)).program (cfgMacAddress c + 6) (addr.take 2)) =
      rotated addr := by
  have hsix : (addr.drop 2).length = 6 := by
    rw [List.length_drop, haddr]
  have hjoin := program_append f (cfgMacAddress c) (addr.drop 2) (addr.take 2)
  rw [hsix] at hjoin
  have hlen : (addr.drop 2 ++ addr.take 2).length = 8 := by
    rw [List.length_append, hsix, List.length_take, haddr]
    rfl
  have hback := @bytes_program_erased f (cfgMacAddress c) (addr.drop 2 ++ addr.take 2) (by rw [hlen]; exact herased)
  rw [hlen] at hback
  rw [hjoin]
  exact hback

theorem storeNewAddr_wp (herased : ∀ x, cfgMacAddress c ≤ x → x < cfgMacAddress c + 8 → f x = 0xff) :
    wp (fun _ => True) (storeNewAddr mcu c e)
      (fun r g => r = newAddr mcu e ∧ storedAddr c g = rotated (newAddr mcu e)) (fun _ => True) f := by
  unfold storeNewAddr
  apply wp_bind
  apply flashWrite_wp
  · exact fun _ _ _ => trivial
  · exact fun _ _ => trivial
  apply wp_bind
  apply flashWrite_wp
  · exact fun _ _ _ => trivial
  · exact fun _ _ => trivial
  apply wp_pure _ trivial
  exact ⟨rfl, storedAddr_write herased (newAddr_length mcu e)⟩

theorem loadExtAddr_wp (mcu : Mcu) (c : FlashSize) (e : ResetEnv) (f : Flash) :
    wp (fun _ => True) (loadExtAddr mcu c e)
      (fun r g => r = nextAddr mcu e (storedAddr c f) ∧ storedAddr c g = nextStored mcu e (storedAddr c f))
      (fun _ => True) f := by
  have hmod := cfgMacAddress_mod c
  unfold loadExtAddr nextAddr nextStored
  apply wp_bind
  apply wp_query _ trivial
  change wp _ (if BlankAddr (storedAddr c f) then
      if storedAddr c f = gZeroAddr then do
        flashErase (cfgMacAddress c)
        storeNewAddr mcu c e
      else storeNewAddr mcu c e
    else if ((storedAddr c f).drop 3).take 3 ∈ vendorIds then _ else _) _ _ _
  by_cases hblank : BlankAddr (storedAddr c f)
  · rw [if_pos hblank, if_pos hblank, if_pos hblank]
    by_cases hzero : storedAddr c f = gZeroAddr
    · rw [if_pos hzero]
      apply wp_bind
      apply wp_issue
      · exact fun _ _ => trivial
      · trivial
      · trivial
      apply storeNewAddr_wp
      intro x h₁ h₂
      rw [apply_erase, eraseSector_apply hmod, if_pos ⟨h₁, by omega⟩]
    · rw [if_neg hzero]
      apply storeNewAddr_wp
      have hinvalid : storedAddr c f = invalidIEEEAddr := hblank.resolve_right hzero
      have hbytes := bytes_eq_iff.mp
        (show bytes f (cfgMacAddress c) invalidIEEEAddr.length = invalidIEEEAddr from hinvalid)
      intro x h₁ h₂
      obtain ⟨i, rfl⟩ := Nat.exists_eq_add_of_le h₁
      have hi : i < invalidIEEEAddr.length := by
        rw [invalidIEEEAddr, List.length_replicate]
        omega
      rw [hbytes i hi]
      exact List.getElem_replicate _
  · rw [if_neg hblank, if_neg hblank, if_neg hblank, readAddr]
    by_cases hvendor : ((storedAddr c f).drop 3).take 3 ∈ vendorIds
    · rw [if_pos hvendor, if_pos hvendor]
      apply wp_query _ trivial
      have hlow := bytes_sub (rfl : bytes f (cfgMacAddress c) 8 = _) 6 2 (by decide)
      have hhigh := bytes_sub (rfl : bytes f (cfgMacAddress c) 8 = _) 0 6 (by decide)
      rw [flashRead_eq, flashRead_eq, hlow, ← Nat.add_zero (cfgMacAddress c), hhigh]
      exact ⟨by simp [storedAddr], rfl⟩
    · rw [if_neg hvendor, if_neg hvendor]
      exact wp_pure ⟨rfl, rfl⟩ trivial

theorem nextAddr_length (mcu : Mcu) (e : ResetEnv) (hraw : raw.length = 8) : (nextAddr mcu e raw).length = 8 := by
  unfold nextAddr readAddr
  split_ifs
  · exact newAddr_length mcu e
  · rw [List.length_append, List.length_drop, List.length_take, hraw]
    rfl
  · exact hraw

/-- A reset ends with the address that the bytes in the flash stand for, or with a new one. -/
theorem macPibReset_wp (mcu : Mcu) (c : FlashSize) (e : ResetEnv) (f : Flash) :
    wp (fun _ => True) (macPibReset mcu c e)
      (fun r g => extendedAddress r = nextAddr mcu e (storedAddr c f) ∧
        storedAddr c g = nextStored mcu e (storedAddr c f)) (fun _ => True) f := by
  have hlen : (storedAddr c f).length = 8 := bytes_length _ _ _
  unfold macPibReset
  apply wp_bind
  apply wp_mono (loadExtAddr_wp mcu c e f)
  · intro r g h
    obtain ⟨rfl, hstored⟩ := h
    apply wp_pure _ trivial
    exact ⟨extendedAddress_set _ (nextAddr_length mcu e hlen), hstored⟩
  · exact fun _ h => h

/-! ### Restarts -/

/-- The address after a reset. -/
def resetAddr (mcu : Mcu) (c : FlashSize) (e : ResetEnv) (f : Flash) : List Byte :=
  extendedAddress ((macPibReset mcu c e).value f)

/-- The flash after a reset. -/
def resetFlash (mcu : Mcu) (c : FlashSize) (f : Flash) (e : ResetEnv) : Flash := (macPibReset mcu c e).final f

/-- Every reset after the first one ends with the same address. -/
def StableAddr (mcu : Mcu) (c : FlashSize) (e : ResetEnv) (f : Flash) : Prop :=
  ∀ (later : List ResetEnv) (e' : ResetEnv),
    resetAddr mcu c e' (later.foldl (resetFlash mcu c) (resetFlash mcu c f e)) = resetAddr mcu c e f

/-- An address that is read back as it was stored: it ends with a vendor's id, or is its own rotation. -/
def ReadsBack (p : List Byte) : Prop := p.drop 5 ∈ vendorIds ∨ (rotated p = p ∧ ¬ BlankAddr p)

theorem resetAddr_eq (mcu : Mcu) (c : FlashSize) (e : ResetEnv) (f : Flash) :
    resetAddr mcu c e f = nextAddr mcu e (storedAddr c f) := (wp_result (macPibReset_wp mcu c e f)).1

theorem storedAddr_reset (mcu : Mcu) (c : FlashSize) (e : ResetEnv) (f : Flash) :
    storedAddr c (resetFlash mcu c f e) = nextStored mcu e (storedAddr c f) :=
  (wp_result (macPibReset_wp mcu c e f)).2

/-- An address in the flash stays there. -/
theorem storedAddr_later (later : List ResetEnv) (h : ¬ BlankAddr (storedAddr c f)) :
    storedAddr c (later.foldl (resetFlash mcu c) f) = storedAddr c f := by
  induction later generalizing f with
  | nil => rfl
  | cons e later ih =>
    have hnext : storedAddr c (resetFlash mcu c f e) = storedAddr c f := by
      rw [storedAddr_reset]
      exact if_neg h
    rw [List.foldl_cons, ih (by rwa [hnext]), hnext]

theorem rotated_back (haddr : addr.length = 8) : (rotated addr).drop 6 ++ (rotated addr).take 6 = addr := by
  have hsix : (addr.drop 2).length = 6 := by
    rw [List.length_drop, haddr]
  unfold rotated
  rw [List.drop_left' hsix, List.take_left' hsix, List.take_append_drop]

theorem rotated_vendor (haddr : addr.length = 8) : ((rotated addr).drop 3).take 3 = addr.drop 5 := by
  have hsix : 3 ≤ (addr.drop 2).length := by
    rw [List.length_drop, haddr]
    decide
  have hthree : (addr.drop 5).length = 3 := by
    rw [List.length_drop, haddr]
  unfold rotated
  rw [List.drop_append_of_le_length hsix, List.drop_drop, List.take_left' hthree]

theorem rotated_replicate (b : Byte) : rotated (List.replicate 8 b) = List.replicate 8 b := by
  unfold rotated
  rw [List.drop_replicate, List.take_replicate]
  rfl

theorem blank_rotated (haddr : addr.length = 8) : BlankAddr (rotated addr) ↔ BlankAddr addr := by
  have hback := rotated_back haddr
  have hrep (b : Byte) : rotated addr = List.replicate 8 b ↔ addr = List.replicate 8 b := by
    constructor
    · intro h
      rw [h, List.drop_replicate, List.take_replicate] at hback
      rw [← hback]
      rfl
    · intro h
      rw [h, rotated_replicate]
  exact or_congr (hrep 0xff) (hrep 0)

theorem vendor_not_blank (h : addr.drop 5 ∈ vendorIds) : ¬ BlankAddr addr := by
  intro hblank
  rcases hblank with rfl | rfl
  · exact absurd h (by decide)
  · exact absurd h (by decide)

theorem readsBack_iff (haddr : addr.length = 8) :
    ReadsBack addr ↔ ¬ BlankAddr (rotated addr) ∧ readAddr (rotated addr) = addr := by
  rw [blank_rotated haddr, readAddr, rotated_vendor haddr, rotated_back haddr]
  constructor
  · intro h
    rcases h with h | ⟨hrot, hblank⟩
    · rw [if_pos h]
      exact ⟨vendor_not_blank h, rfl⟩
    · refine ⟨hblank, ?_⟩
      rw [hrot]
      split_ifs <;> rfl
  · intro h
    obtain ⟨hblank, hread⟩ := h
    by_cases hvendor : addr.drop 5 ∈ vendorIds
    · exact .inl hvendor
    · rw [if_neg hvendor] at hread
      exact .inr ⟨hread, hblank⟩

/-- The addresses made from random bytes end with the id of the first vendor. -/
theorem random_vendor (e : ResetEnv) : (e.random ++ startIEEEAddr).drop 5 ∈ vendorIds := by
  rw [List.drop_left' e.random_length]
  decide

/-- Some reset without a primary address. -/
def randomEnv : ResetEnv where
  dsn := 0
  bsn := 0
  random := List.replicate 5 0
  primary := none
  random_length := rfl
  primary_length := fun _ h => absurd h (by simp)

theorem newAddr_readsBack (h : ∀ p, mcu = .tl321x → e.primary = some p → ReadsBack p) : ReadsBack (newAddr mcu e) := by
  unfold newAddr
  by_cases hmcu : mcu = .tl321x
  · rw [if_pos hmcu]
    cases hp : e.primary with
    | none => exact .inl (random_vendor e)
    | some p => exact h p hmcu hp
  · rw [if_neg hmcu]
    exact .inl (random_vendor e)

/-- The address is stable unless a TL321X device stores a primary address that does not read back. -/
theorem stableAddr_iff (mcu : Mcu) (c : FlashSize) (e : ResetEnv) (f : Flash) : StableAddr mcu c e f ↔
    (mcu = .tl321x → BlankAddr (storedAddr c f) → ∀ p, e.primary = some p → ReadsBack p) := by
  have hnew := newAddr_length mcu e
  constructor
  · intro hstable hmcu hblank p hp
    have haddr : newAddr mcu e = p := by
      rw [newAddr, if_pos hmcu, hp]
      rfl
    have hlen : p.length = 8 := e.primary_length p hp
    have hfirst : resetAddr mcu c e f = p := by
      rw [resetAddr_eq, nextAddr, if_pos hblank, haddr]
    have hstored : storedAddr c (resetFlash mcu c f e) = rotated p := by
      rw [storedAddr_reset, nextStored, if_pos hblank, haddr]
    -- the next reset makes up another address, or reads this one
    have hnext := hstable [] randomEnv
    rw [List.foldl_nil, hfirst, resetAddr_eq, hstored, nextAddr] at hnext
    by_cases hgone : BlankAddr (rotated p)
    · rw [if_pos hgone, newAddr, if_pos hmcu] at hnext
      rw [← hnext] at hgone
      exact absurd hgone (by decide)
    · rw [if_neg hgone] at hnext
      exact (readsBack_iff hlen).mpr ⟨hgone, hnext⟩
  · intro hcond later e'
    by_cases hblank : BlankAddr (storedAddr c f)
    · have hback := (readsBack_iff hnew).mp (newAddr_readsBack fun p hmcu => hcond hmcu hblank p)
      have hstored : storedAddr c (resetFlash mcu c f e) = rotated (newAddr mcu e) := by
        rw [storedAddr_reset, nextStored, if_pos hblank]
      have hlater : storedAddr c (later.foldl (resetFlash mcu c) (resetFlash mcu c f e)) = rotated (newAddr mcu e) := by
        rw [storedAddr_later later (by rw [hstored]; exact hback.1), hstored]
      rw [resetAddr_eq, resetAddr_eq, hlater, nextAddr, nextAddr, if_pos hblank, if_neg hback.1, hback.2]
    · have hstored : storedAddr c (resetFlash mcu c f e) = storedAddr c f := by
        rw [storedAddr_reset, nextStored, if_neg hblank]
      have hlater : storedAddr c (later.foldl (resetFlash mcu c) (resetFlash mcu c f e)) = storedAddr c f := by
        rw [storedAddr_later later (by rwa [hstored]), hstored]
      rw [resetAddr_eq, resetAddr_eq, hlater, nextAddr, nextAddr, if_neg hblank, if_neg hblank]

/-- Fuses without a vendor's id, on a device with erased flash. -/
theorem fuses_not_stable : ∃ e : ResetEnv, e.primary = drvGetPrimaryIeeeAddr [1, 2, 3, 4, 5, 6, 7, 8] ∧
    ¬ StableAddr .tl321x .m1 e fun _ => 0xff := by
  refine ⟨{ randomEnv with
    primary := drvGetPrimaryIeeeAddr [1, 2, 3, 4, 5, 6, 7, 8]
    primary_length := by decide }, rfl, ?_⟩
  intro hstable
  have hnext := hstable [] randomEnv
  rw [List.foldl_nil, resetAddr_eq, storedAddr_reset, resetAddr_eq] at hnext
  have hblank : storedAddr .m1 (fun _ => 0xff) = invalidIEEEAddr := rfl
  rw [hblank] at hnext
  exact absurd hnext (by decide)

end Reset

end Rf4ce.Mac

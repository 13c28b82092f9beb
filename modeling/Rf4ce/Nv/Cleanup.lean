import Rf4ce.Nv.AnyLength

/-! What `nv_exceptionDataHandler` does to an index table of any content. -/
namespace Rf4ce.Nv
open Crash Drv

variable {c : NvCfg} {id s : Nat} {single : Bool} {itemId : Byte} {f g : Flash}

/-- The test of `nv_exceptionDataHandler` on an index entry. -/
def nvKeptOnce (single : Bool) (itemId : Byte) (idx : NvInfoIdx) : Bool :=
  itemValidFlagCheck idx.usedState &&
    (idx.usedState = itemFieldValidSingle || (idx.itemId = itemId && single))

/-- The clean-up of sector `s` deletes entry `i`. -/
def Deleted (c : NvCfg) (f : Flash) (id s : Nat) (single : Bool) (itemId : Byte) (i : Nat) : Prop :=
  nvKeptOnce single itemId (idxEntry c f id s i) = true ∧
    ∃ j, i < j ∧ j < moduleIdxNum c id ∧ nvKeptOnce single itemId (idxEntry c f id s j) = true ∧
      (idxEntry c f id s j).itemId = (idxEntry c f id s i).itemId

/-- Where the state of entry `i` is stored. -/
def stateAddr (c : NvCfg) (id s i : Nat) : Nat := idxAddr c id s i + staOffset

/-- `g` is `f` with the deleted entries from `k` on invalidated, and nothing else. -/
structure CleanedFrom (c : NvCfg) (id s : Nat) (single : Bool) (itemId : Byte) (k : Nat) (f g : Flash) : Prop where
  invalid : ∀ i, k ≤ i → i < moduleIdxNum c id → Deleted c f id s single itemId i →
    g (stateAddr c id s i) = itemFieldInvalid
  same : ∀ x, (∀ i, k ≤ i → i < moduleIdxNum c id → Deleted c f id s single itemId i → x ≠ stateAddr c id s i) →
    g x = f x

theorem idxEntry_usedState (c : NvCfg) (id s : Nat) (f : Flash) (i : Nat) :
    (idxEntry c f id s i).usedState = f (stateAddr c id s i) := by
  have hlt := staOffset_lt c
  have hlen : staOffset < (bytes f (idxAddr c id s i) (sizeofNvInfoIdx c)).length := by
    rw [bytes_length]
    omega
  change (flashRead f (idxAddr c id s i) (sizeofNvInfoIdx c)).getD staOffset 0 = _
  rw [flashRead_eq, List.getD_eq_getElem _ _ hlen, bytes_getElem]
  rfl

theorem idxEntry_congr {i : Nat}
    (h : ∀ x, idxAddr c id s i ≤ x → x < idxAddr c id s i + sizeofNvInfoIdx c → g x = f x) :
    idxEntry c g id s i = idxEntry c f id s i := by
  unfold idxEntry readInfoIdx
  rw [flashRead_eq, flashRead_eq, bytes_congr h]

/-- The state byte of one entry is not a byte of another one. -/
theorem ne_stateAddr {i j x : Nat} (hij : i ≠ j) (h₁ : idxAddr c id s i ≤ x)
    (h₂ : x < idxAddr c id s i + sizeofNvInfoIdx c) : x ≠ stateAddr c id s j := by
  have hlt := staOffset_lt c
  unfold stateAddr
  rcases Nat.lt_or_gt_of_ne hij with h | h
  · have hnext := @idxAddr_lt c id s i j h
    omega
  · have hnext := @idxAddr_lt c id s j i h
    omega

theorem stateAddr_inj {i j : Nat} (hij : i ≠ j) : stateAddr c id s i ≠ stateAddr c id s j := by
  have hlt := staOffset_lt c
  apply ne_stateAddr hij
  · exact Nat.le_add_right _ _
  · unfold stateAddr
    omega

theorem Deleted.lt {i : Nat} (h : Deleted c f id s single itemId i) : i < moduleIdxNum c id := by
  obtain ⟨-, j, hij, hj, -⟩ := h
  omega

/-- Whether an entry is deleted is read from the index table alone. -/
theorem Deleted.congr (hg : ∀ i < moduleIdxNum c id, idxEntry c g id s i = idxEntry c f id s i) {i : Nat}
    (h : Deleted c f id s single itemId i) : Deleted c g id s single itemId i := by
  have hi := h.lt
  obtain ⟨hkept, j, hij, hj, hkept', hitem⟩ := h
  rw [← hg i hi] at hkept hitem
  rw [← hg j hj] at hkept' hitem
  exact ⟨hkept, j, hij, hj, hkept', hitem⟩

theorem nvKeptOnce_valid {i : NvInfoIdx} (h : nvKeptOnce single itemId i = true) :
    i.usedState = itemFieldValid ∨ i.usedState = itemFieldValidSingle := by
  rw [nvKeptOnce, Bool.and_eq_true, itemValidFlagCheck, Bool.or_eq_true, decide_eq_true_iff,
    decide_eq_true_iff] at h
  exact h.1

namespace CleanedFrom
variable {k : Nat}

/-- An entry that was not invalidated is the one it was. -/
theorem entry (h : CleanedFrom c id s single itemId k f g) {i : Nat}
    (hi : ¬ (k ≤ i ∧ Deleted c f id s single itemId i)) : idxEntry c g id s i = idxEntry c f id s i := by
  apply idxEntry_congr
  intro x h₁ h₂
  apply h.same x
  intro j hkj _ hout
  have hij : i ≠ j := by
    intro hij
    subst hij
    exact hi ⟨hkj, hout⟩
  exact ne_stateAddr hij h₁ h₂

theorem refl (f : Flash) : CleanedFrom c id s single itemId (moduleIdxNum c id) f f :=
  ⟨fun _ h₁ h₂ _ => absurd h₂ (Nat.not_lt.mpr h₁), fun _ _ => rfl⟩

/-- The scan goes past an entry that stays. -/
theorem pass (h : CleanedFrom c id s single itemId (k + 1) f g) (hk : ¬ Deleted c f id s single itemId k) :
    CleanedFrom c id s single itemId k f g := by
  have hnext {i : Nat} (hki : k ≤ i) (hout : Deleted c f id s single itemId i) : k + 1 ≤ i := by
    rcases Nat.eq_or_lt_of_le hki with rfl | hlt
    · exact absurd hout hk
    · exact hlt
  constructor
  · intro i hki hi hout
    exact h.invalid i (hnext hki hout) hi hout
  · intro x hx
    exact h.same x fun i hki => hx i (by omega)

/-- The scan invalidates an entry that has a higher one of its id. -/
theorem delete (h : CleanedFrom c id s single itemId (k + 1) f g) (hk : k < moduleIdxNum c id)
    (hout : Deleted c f id s single itemId k) :
    CleanedFrom c id s single itemId k f (g.program (stateAddr c id s k) [itemFieldInvalid]) := by
  have hother {x : Nat} (hx : x ≠ stateAddr c id s k) :
      g.program (stateAddr c id s k) [itemFieldInvalid] x = g x := by
    apply program_outside
    rw [List.length_singleton]
    omega
  constructor
  · intro i hki hi hi'
    rcases Nat.eq_or_lt_of_le hki with rfl | hlt
    · have hstate := program_apply g (stateAddr c id s k) [itemFieldInvalid] 0 (by decide)
      have hread : g (stateAddr c id s k) = (idxEntry c f id s k).usedState := by
        rw [← h.entry (by omega), idxEntry_usedState]
      rw [Nat.add_zero, hread] at hstate
      rw [hstate]
      rcases nvKeptOnce_valid hout.1 with hv | hv
      · rw [hv]
        rfl
      · rw [hv]
        rfl
    · rw [hother (stateAddr_inj (by omega))]
      exact h.invalid i hlt hi hi'
  · intro x hx
    rw [hother (hx k (Nat.le_refl k) hk hout)]
    exact h.same x fun i hki => hx i (by omega)

end CleanedFrom

/-- An entry from `k` on counts as single and holds the item `b`. -/
def MetFrom (c : NvCfg) (f : Flash) (id s : Nat) (single : Bool) (itemId : Byte) (k : Nat) (b : Byte) : Prop :=
  ∃ j, k ≤ j ∧ j < moduleIdxNum c id ∧ nvKeptOnce single itemId (idxEntry c f id s j) = true ∧
    (idxEntry c f id s j).itemId = b

theorem not_metFrom_end {b : Byte} : ¬ MetFrom c f id s single itemId (moduleIdxNum c id) b := by
  intro h
  obtain ⟨j, h₁, h₂, -⟩ := h
  omega

theorem metFrom_iff {k : Nat} {b : Byte} (hk : k < moduleIdxNum c id) :
    MetFrom c f id s single itemId k b ↔ MetFrom c f id s single itemId (k + 1) b ∨
      nvKeptOnce single itemId (idxEntry c f id s k) = true ∧ (idxEntry c f id s k).itemId = b := by
  constructor
  · intro h
    obtain ⟨j, hkj, hj, hcount, hitem⟩ := h
    rcases Nat.eq_or_lt_of_le hkj with rfl | hlt
    · exact .inr ⟨hcount, hitem⟩
    · exact .inl ⟨j, hlt, hj, hcount, hitem⟩
  · intro h
    rcases h with ⟨j, hkj, hrest⟩ | ⟨hcount, hitem⟩
    · exact ⟨j, by omega, hrest⟩
    · exact ⟨k, Nat.le_refl k, hk, hcount, hitem⟩

/-- The loop keeps in `idxTbl` the ids of the entries met so far that count as single. -/
theorem nvExceptionLoop_cleaned {k : Nat} (hk : k ≤ moduleIdxNum c id) {idxTbl : List Byte}
    (h : CleanedFrom c id s single itemId k f g) (htbl : ∀ b, b ∈ idxTbl ↔ MetFrom c f id s single itemId k b) :
    wp (fun _ => True) (nvExceptionLoop c single s id itemId k idxTbl)
      (fun _ => CleanedFrom c id s single itemId 0 f) (fun _ => True) g := by
  induction k generalizing idxTbl g with
  | zero => exact wp_pure h trivial
  | succ k ih =>
    have hread : readInfoIdx c g (idxAddr c id s k) = idxEntry c f id s k := h.entry (by omega)
    have hmet (b : Byte) : MetFrom c f id s single itemId k b ↔ b ∈ idxTbl ∨
        nvKeptOnce single itemId (idxEntry c f id s k) = true ∧ (idxEntry c f id s k).itemId = b := by
      rw [metFrom_iff hk, htbl]
    apply wp_bind
    apply wp_query _ trivial
    rw [hread]
    change wp _ (if nvKeptOnce single itemId (idxEntry c f id s k) = true then _ else _) _ _ _
    by_cases hcount : nvKeptOnce single itemId (idxEntry c f id s k) = true
    · rw [if_pos hcount]
      by_cases hseen : (idxEntry c f id s k).itemId ∈ idxTbl
      · -- a higher entry of this id has been met
        have hout : Deleted c f id s single itemId k := ⟨hcount, (htbl _).mp hseen⟩
        rw [if_pos hseen]
        apply wp_bind
        apply nvItemDeleteByIndex_wp trivial trivial trivial
        apply ih (by omega) (h.delete (by omega) hout)
        intro b
        rw [hmet]
        constructor
        · exact .inl
        · intro hb
          rcases hb with hb | ⟨-, hb⟩
          · exact hb
          · rwa [← hb]
      · have hout : ¬ Deleted c f id s single itemId k := fun hout => hseen ((htbl _).mpr hout.2)
        rw [if_neg hseen]
        apply ih (by omega) (h.pass hout)
        intro b
        rw [hmet, List.mem_append, List.mem_singleton, and_iff_right hcount, @eq_comm _ b]
    · rw [if_neg hcount]
      apply ih (by omega) (h.pass fun hout => hcount hout.1)
      intro b
      rw [hmet, or_iff_left fun hb => hcount hb.1]

theorem nvExceptionDataHandler_cleaned (c : NvCfg) (id s : Nat) (single : Bool) (itemId : Byte) (f : Flash) :
    CleanedFrom c id s single itemId 0 f ((nvExceptionDataHandler c true single s id itemId).final f) := by
  have htbl (b : Byte) : b ∈ ([] : List Byte) ↔ MetFrom c f id s single itemId (moduleIdxNum c id) b :=
    iff_of_false List.not_mem_nil not_metFrom_end
  exact wp_result (nvExceptionLoop_cleaned (Nat.le_refl _) (CleanedFrom.refl f) htbl)

/-- After the clean-up no entry is left to delete. -/
theorem CleanedFrom.not_deleted (h : CleanedFrom c id s single itemId 0 f g) {i : Nat}
    (hi : i < moduleIdxNum c id) : ¬ Deleted c g id s single itemId i := by
  -- an entry that counts as single afterwards has not been touched
  have hkept {j : Nat} (hj : j < moduleIdxNum c id)
      (hcount : nvKeptOnce single itemId (idxEntry c g id s j) = true) :
      ¬ Deleted c f id s single itemId j ∧ idxEntry c g id s j = idxEntry c f id s j := by
    have hout : ¬ Deleted c f id s single itemId j := by
      intro hout
      have hinv := h.invalid j (Nat.zero_le j) hj hout
      rw [← idxEntry_usedState c id s g j] at hinv
      rcases nvKeptOnce_valid hcount with hv | hv
      · rw [hinv] at hv
        exact absurd hv (by decide)
      · rw [hinv] at hv
        exact absurd hv (by decide)
    exact ⟨hout, h.entry fun hk => hout hk.2⟩
  intro hout
  obtain ⟨hcount, j, hij, hj, hcount', hitem⟩ := hout
  obtain ⟨hstay, hsame⟩ := hkept hi hcount
  obtain ⟨-, hsame'⟩ := hkept hj hcount'
  rw [hsame] at hcount hitem
  rw [hsame'] at hcount' hitem
  exact hstay ⟨hcount, j, hij, hj, hcount', hitem⟩

/-- The clean-up invalidates the deleted entries and nothing else, and a second run does nothing. -/
theorem nvExceptionDataHandler_exact (c : NvCfg) (id s : Nat) (single : Bool) (itemId : Byte) (f : Flash) :
    ∃ g, (nvExceptionDataHandler c true single s id itemId).final f = g ∧
      (∀ i < moduleIdxNum c id, Deleted c f id s single itemId i → g (stateAddr c id s i) = itemFieldInvalid) ∧
      (∀ x, (∀ i < moduleIdxNum c id, Deleted c f id s single itemId i → x ≠ stateAddr c id s i) → g x = f x) ∧
      (∀ i < moduleIdxNum c id, ¬ Deleted c f id s single itemId i →
        idxEntry c g id s i = idxEntry c f id s i) ∧
      (nvExceptionDataHandler c true single s id itemId).final g = g := by
  have hclean := nvExceptionDataHandler_cleaned c id s single itemId f
  generalize (nvExceptionDataHandler c true single s id itemId).final f = g at hclean
  refine ⟨g, rfl, ?_, ?_, ?_, ?_⟩
  · intro i hi
    exact hclean.invalid i (Nat.zero_le i) hi
  · intro x hx
    exact hclean.same x fun i _ => hx i
  · intro i _ hout
    exact hclean.entry fun h => hout h.2
  · funext x
    apply (nvExceptionDataHandler_cleaned c id s single itemId g).same x
    intro i _ hi hout
    exact absurd hout (hclean.not_deleted hi)

end Rf4ce.Nv

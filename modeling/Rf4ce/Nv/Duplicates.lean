import Rf4ce.Nv.Append

/-! Erasing a sector, deleting by index, and the clean-up of older duplicates. -/
namespace Rf4ce.Nv
open Crash Drv Common

/-- `nv_itemDeleteByIndex` programs one byte. -/
theorem nvItemDeleteByIndex_wp {c : NvCfg} {id s i : Nat} {R : Nat → Prop}
    {Q : Unit → Flash → Prop} {C : Flash → Prop} {f : Flash}
    (hR : R (idxAddr c id s i + staOffset)) (hC : C f)
    (hC' : C (f.program (idxAddr c id s i + staOffset) [itemFieldInvalid]))
    (hQ : Q () (f.program (idxAddr c id s i + staOffset) [itemFieldInvalid])) :
    wp R (nvItemDeleteByIndex c id s i) Q C f := by
  refine flashWrite_wp (fun x h₁ h₂ => ?_) (fun m hm => ?_) hQ
  · rw [List.length_singleton] at h₂
    rwa [show x = idxAddr c id s i + staOffset by omega]
  · obtain ⟨hm₁, -⟩ := hm
    rw [List.length_singleton] at hm₁
    obtain rfl | rfl : m = 0 ∨ m = 1 := by omega
    · rwa [List.take_zero, program_nil]
    · exact hC'

theorem idxAddr_state_region {c : NvCfg} {id s i : Nat} (hi : i < moduleIdxNum c id) :
    moduleSectStart c id s + 4 ≤ idxAddr c id s i + staOffset ∧
      idxAddr c id s i + staOffset < moduleContextStart c id s := by
  have hlow := idxAddr_lower c id s i
  have hup := @idxAddr_upper c id s i hi
  have hlt := staOffset_lt c
  omega

/-! ### Older duplicates -/

/-- The log `es'` is `es` with some entries deleted that a later valid entry of the same id
stands in for. -/
structure Shadowed (es es' : List Entry) : Prop where
  length : es'.length = es.length
  entry : ∀ i (h : i < es.length) (h' : i < es'.length), es'[i] = es[i] ∨
    es[i].stage = .valid ∧ es'[i] = es[i].drop ∧
      ∃ j, ∃ hj : j < es'.length, i < j ∧ es'[j].stage = .valid ∧ es'[j].itemId = es[i].itemId

theorem Shadowed.refl (es : List Entry) : Shadowed es es := ⟨rfl, fun _ _ _ => .inl rfl⟩

/-- A valid entry of the cleaned log is the one it was. -/
theorem Shadowed.eq_of_valid {es es' : List Entry} (h : Shadowed es es') {i : Nat}
    (hi : i < es.length) (hi' : i < es'.length) (hv : es'[i].stage = .valid) : es'[i] = es[i] := by
  rcases h.entry i hi hi' with heq | ⟨-, hdrop, -⟩
  · exact heq
  · rw [hdrop] at hv
    exact absurd hv (by simp [Entry.drop])

/-- Deleting one more entry that a later one stands in for. -/
theorem Shadowed.drop {es es' : List Entry} (h : Shadowed es es') {i j : Nat} (hi : i < es'.length)
    (hj : j < es'.length) (hij : i < j) (hvi : es'[i].stage = .valid) (hvj : es'[j].stage = .valid)
    (hid : es'[j].itemId = es'[i].itemId) : Shadowed es (es'.modify i Entry.drop) := by
  have hlen := h.length
  have hkeep {k : Nat} (hk' : k < es'.length) (hk : k < (es'.modify i Entry.drop).length)
      (hki : k ≠ i) : (es'.modify i Entry.drop)[k] = es'[k] := by
    rw [List.getElem_modify, if_neg (Ne.symm hki)]
  refine ⟨by rw [List.length_modify, hlen], fun k hk hk' => ?_⟩
  have hk'' : k < es'.length := by omega
  have hj' : j < (es'.modify i Entry.drop).length := by rwa [List.length_modify]
  by_cases hki : k = i
  · subst hki
    have heq := h.eq_of_valid hk hi hvi
    refine .inr ⟨by rw [← heq]; exact hvi, ?_, j, hj', hij, ?_, ?_⟩
    · rw [List.getElem_modify, if_pos rfl, heq]
    · rw [hkeep hj hj' (by omega)]
      exact hvj
    · rw [hkeep hj hj' (by omega), ← heq]
      exact hid
  · rw [hkeep hk'' hk' hki]
    rcases h.entry k hk hk'' with heq | ⟨hv, hdrop, l, hl, hkl, hvl, hidl⟩
    · exact .inl heq
    · refine .inr ⟨hv, hdrop, ?_⟩
      -- the entry that stood in may be the one deleted now
      by_cases hli : l = i
      · subst hli
        refine ⟨j, hj', by omega, ?_, ?_⟩
        · rw [hkeep hj hj' (by omega)]
          exact hvj
        · rw [hkeep hj hj' (by omega), hid, hidl]
      · have hl' : l < (es'.modify i Entry.drop).length := by rwa [List.length_modify]
        refine ⟨l, hl', hkl, ?_, ?_⟩
        · rw [hkeep hl hl' hli]
          exact hvl
        · rw [hkeep hl hl' hli]
          exact hidl

/-! ### The clean-up -/

/-- An item the clean-up keeps only once when `itemId` is written. -/
def Entry.keptOnce (single : Bool) (itemId : Byte) (e : Entry) : Bool :=
  e.stage = .valid && (e.single || e.itemId = itemId && single)

/-- Entry `i` is followed by another one of its id. -/
def Duplicate (single : Bool) (itemId : Byte) (es : List Entry) (i : Nat) : Prop :=
  ∃ h : i < es.length, es[i].keptOnce single itemId = true ∧
    ∃ j, ∃ hj : j < es.length, i < j ∧ es[j].keptOnce single itemId = true ∧ es[j].itemId = es[i].itemId

/-- The state byte of an entry that the clean-up deletes. -/
def DuplicateByte (c : NvCfg) (id s : Nat) (alloc single : Bool) (itemId : Byte) (es : List Entry)
    (x : Nat) : Prop :=
  alloc = true ∧ ∃ i, Duplicate single itemId es i ∧ x = idxAddr c id s i + staOffset

theorem Entry.keptOnce_valid {single : Bool} {itemId : Byte} {e : Entry}
    (h : e.keptOnce single itemId = true) : e.stage = .valid := by
  simp only [keptOnce, Bool.and_eq_true, decide_eq_true_eq] at h
  exact h.1

/-- The test of the code on an index record. -/
theorem Entry.keptOnce_idx (single : Bool) (itemId : Byte) (e : Entry) (off : Nat) :
    (itemValidFlagCheck (e.idx off).usedState && (decide ((e.idx off).usedState = itemFieldValidSingle) ||
      (decide ((e.idx off).itemId = itemId) && single))) = e.keptOnce single itemId := by
  have hflag : itemValidFlagCheck (e.idx off).usedState = decide (e.stage = .valid) := e.state_validFlag
  have hstate : (e.idx off).usedState = e.state := rfl
  have hitem : (e.idx off).itemId = e.itemId := rfl
  rw [hflag, hstate, hitem, keptOnce]
  by_cases hv : e.stage = .valid
  · have hsingle : decide (e.state = itemFieldValidSingle) = e.single := by
      unfold state
      rw [hv]
      cases e.single <;> decide
    rw [hsingle]
  · rw [decide_eq_false hv, Bool.false_and, Bool.false_and]

section Table
variable {c : NvCfg} {id s : Nat} {marked : Bool} {f : Flash} {es : List Entry}

theorem DuplicateByte.index {alloc single : Bool} {itemId : Byte} {x : Nat}
    (h : DuplicateByte c id s alloc single itemId es x) (hcount : es.length ≤ moduleIdxNum c id) :
    moduleSectStart c id s + 4 ≤ x ∧ x < moduleContextStart c id s := by
  obtain ⟨-, i, ⟨hi, -⟩, rfl⟩ := h
  exact idxAddr_state_region (by omega)

variable (hid : id < dsMaxModuls) (hs : s < 2)
include hid hs

/-- What `nv_exceptionDataHandler` may have done at any point. -/
def CleanedRep (c : NvCfg) (id s : Nat) (marked : Bool) (es : List Entry) (g : Flash) : Prop :=
  ∃ es', Shadowed es es' ∧ SectorRep c id s marked g es'

theorem nvExceptionLoop_wp (single : Bool) (itemId : Byte) (k : Nat) (hk : k ≤ moduleIdxNum c id)
    (idxTbl : List Byte) {es' : List Entry} {g : Flash} (hsh : Shadowed es es')
    (hrep : SectorRep c id s marked g es')
    (htbl : ∀ b ∈ idxTbl, ∃ j, ∃ hj : j < es'.length,
      k ≤ j ∧ es'[j].keptOnce single itemId = true ∧ es'[j].itemId = b) :
    wp (DuplicateByte c id s true single itemId es)
      (nvExceptionLoop c single s id itemId k idxTbl)
      (fun _ => CleanedRep c id s marked es) (CleanedRep c id s marked es) g := by
  induction k generalizing idxTbl es' g with
  | zero => exact wp_pure ⟨es', hsh, hrep⟩ ⟨es', hsh, hrep⟩
  | succ k ih =>
    have hnow : CleanedRep c id s marked es g := ⟨es', hsh, hrep⟩
    have hlen := hsh.length
    have hskip : ∀ b ∈ idxTbl, ∃ j, ∃ hj : j < es'.length,
        k ≤ j ∧ es'[j].keptOnce single itemId = true ∧ es'[j].itemId = b := by
      intro b hb
      obtain ⟨j, hj, hkj, hv⟩ := htbl b hb
      exact ⟨j, hj, by omega, hv⟩
    have hnext := ih (by omega) idxTbl hsh hrep hskip
    refine wp_bind (wp_query ?_ hnow)
    by_cases hin : k < es'.length
    · rw [hrep.readInfoIdx_entry hid hs hin, Entry.keptOnce_idx]
      have hitem : (es'[k].idx (itemOff c id s (es'.take k))).itemId = es'[k].itemId := rfl
      rw [hitem]
      split_ifs with hsel hmem
      · -- an id already met: the later entry stays
        have hv := Entry.keptOnce_valid hsel
        obtain ⟨j, hj, hkj, hvj, hidj⟩ := htbl _ hmem
        have hkept {i : Nat} (hi : i < es'.length) (h : es'[i].keptOnce single itemId = true) :
            es'[i] = es[i] := hsh.eq_of_valid (by omega) hi (Entry.keptOnce_valid h)
        have hdup : Duplicate single itemId es k := by
          refine ⟨by omega, ?_, j, by omega, by omega, ?_, ?_⟩
          · rw [← hkept hin hsel]
            exact hsel
          · rw [← hkept hj hvj]
            exact hvj
          · rw [← hkept hin hsel, ← hkept hj hvj]
            exact hidj
        have hsh' := hsh.drop hin hj (by omega) hv (Entry.keptOnce_valid hvj) hidj
        have hrep' := hrep.drop hin
        have hcut : CleanedRep c id s marked es _ := ⟨_, hsh', hrep'⟩
        refine wp_bind (nvItemDeleteByIndex_wp ⟨rfl, k, hdup, rfl⟩ hnow hcut ?_)
        refine ih (by omega) idxTbl hsh' hrep' fun b hb => ?_
        obtain ⟨l, hl, hkl, hvl, hidl⟩ := htbl b hb
        have hl' : l < (es'.modify k Entry.drop).length := by rwa [List.length_modify]
        have heq : (es'.modify k Entry.drop)[l] = es'[l] := by
          rw [List.getElem_modify, if_neg (by omega)]
        exact ⟨l, hl', by omega, by rw [heq]; exact hvl, by rw [heq]; exact hidl⟩
      · refine ih (by omega) _ hsh hrep fun b hb => ?_
        rcases List.mem_append.mp hb with hb | hb
        · exact hskip b hb
        · rw [List.mem_singleton.mp hb]
          exact ⟨k, hin, Nat.le_refl k, hsel, rfl⟩
      · exact hnext
    · obtain ⟨o, st, hread, -, hst⟩ := hrep.readInfoIdx_idle hid hs (Nat.le_of_not_lt hin) (by omega)
      have hflag : itemValidFlagCheck st = false := by
        rcases hst with rfl | ⟨-, rfl⟩ <;> decide
      rw [hread]
      simp only [idleIdx, hflag, Bool.false_and, Bool.false_eq_true, if_false]
      exact hnext

theorem nvExceptionDataHandler_wp (h : SectorRep c id s marked f es) (alloc single : Bool)
    (itemId : Byte) :
    wp (DuplicateByte c id s alloc single itemId es)
      (nvExceptionDataHandler c alloc single s id itemId)
      (fun _ => CleanedRep c id s marked es) (CleanedRep c id s marked es) f := by
  have hnow : CleanedRep c id s marked es f := ⟨es, .refl es, h⟩
  unfold nvExceptionDataHandler
  cases alloc with
  | true =>
    exact nvExceptionLoop_wp hid hs single itemId _ (Nat.le_refl _) [] (.refl es) h
      fun b hb => absurd hb List.not_mem_nil
  | false => exact wp_pure hnow hnow

end Table

end Rf4ce.Nv

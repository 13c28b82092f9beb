import Rf4ce.Nv.Sector

/-! What the backward index search finds in the log of a sector. -/
namespace Rf4ce.Nv
open Crash Drv Common

/-- The last position below `n` at which `p` holds, if any. -/
def IsLast (p : Nat → Bool) (n : Nat) : Option Nat → Prop
  | none => ∀ j < n, p j = false
  | some i => i < n ∧ p i = true ∧ ∀ j, i < j → j < n → p j = false

theorem IsLast.congr {p q : Nat → Bool} {n : Nat} {r : Option Nat} (h : IsLast p n r)
    (hpq : ∀ j < n, q j = p j) : IsLast q n r := by
  cases r with
  | none => exact fun j hj => (hpq j hj).trans (h j hj)
  | some i =>
    obtain ⟨hi, hp, hlast⟩ := h
    exact ⟨hi, (hpq i hi).trans hp, fun j hij hj => (hpq j hj).trans (hlast j hij hj)⟩

/-- Searching the upper part first and the lower part if nothing was found there. -/
theorem IsLast.add {p : Nat → Bool} {m k : Nat} {lower upper : Option Nat} :
    IsLast (fun i => p (m + i)) k upper → IsLast p m lower →
      IsLast p (m + k) (match upper with | some i => some (m + i) | none => lower) := by
  intro hu hl
  have hshift {j : Nat} (hj : m ≤ j) : m + (j - m) = j := by omega
  cases upper with
  | some i =>
    obtain ⟨hi, hp, hlast⟩ := hu
    refine ⟨by omega, hp, fun j hij hj => ?_⟩
    have := hlast (j - m) (by omega) (by omega)
    simpa [hshift (j := j) (by omega)] using this
  | none =>
    have hupper {j : Nat} (hm : m ≤ j) (hj : j < m + k) : p j = false := by
      have := hu (j - m) (by omega)
      simpa [hshift hm] using this
    cases lower with
    | none =>
      intro j hj
      by_cases hjm : j < m
      · exact hl j hjm
      · exact hupper (by omega) hj
    | some i =>
      obtain ⟨hi, hp, hlast⟩ := hl
      refine ⟨by omega, hp, fun j hij hj => ?_⟩
      by_cases hjm : j < m
      · exact hlast j hij hjm
      · exact hupper (by omega) hj

theorem nvIndexGroup_last (jump : NvInfoIdx → Bool) (idxInfo : List NvInfoIdx) (n : Nat) :
    IsLast (fun i => jump (idxInfo.getD i default)) n (nvIndexGroup jump idxInfo n) := by
  induction n with
  | zero => exact fun j hj => absurd hj (Nat.not_lt_zero j)
  | succ n ih =>
    unfold nvIndexGroup
    split_ifs with h
    · exact ⟨Nat.lt_succ_self n, h, fun j h₁ h₂ => by omega⟩
    · have htop : jump (idxInfo.getD n default) = false := by simpa using h
      generalize nvIndexGroup jump idxInfo n = r at ih
      cases r with
      | none =>
        intro j hj
        obtain hj | rfl : j < n ∨ j = n := by omega
        · exact ih j hj
        · exact htop
      | some i =>
        obtain ⟨hi, hp, hlast⟩ := ih
        refine ⟨by omega, hp, fun j hij hj => ?_⟩
        obtain hj | rfl : j < n ∨ j = n := by omega
        · exact hlast j hij hj
        · exact htop

/-- The loop over groups of four is one backward search over all entries. -/
theorem nvIndexLoop_last (c : NvCfg) (f : Flash) (jump : NvInfoIdx → Bool) (base fuel n : Nat)
    (hfuel : n ≤ fuel) :
    IsLast (fun i => jump (readInfoIdx c f (base + i * sizeofNvInfoIdx c))) n
      (nvIndexLoop c f jump fuel (base + n * sizeofNvInfoIdx c) n n) := by
  induction fuel generalizing n with
  | zero =>
    obtain rfl : n = 0 := by omega
    exact fun j hj => absurd hj (Nat.not_lt_zero j)
  | succ fuel ih =>
    by_cases h0 : n = 0
    · subst h0
      rw [nvIndexLoop, if_pos rfl]
      exact fun j hj => absurd hj (Nat.not_lt_zero j)
    · rw [nvIndexLoop, if_neg h0]
      dsimp only
      generalize hk : (if n > 4 then 4 else n) = k
      obtain ⟨hkn, hpos⟩ : k ≤ n ∧ 0 < k := by split_ifs at hk <;> omega
      have hbase : base + n * sizeofNvInfoIdx c - k * sizeofNvInfoIdx c =
          base + (n - k) * sizeofNvInfoIdx c := by
        rw [Nat.sub_mul]
        have := Nat.mul_le_mul_right (sizeofNvInfoIdx c) hkn
        omega
      rw [hbase]
      have hgroup := (nvIndexGroup_last jump
        (readInfoIdxs c f (base + (n - k) * sizeofNvInfoIdx c) k) k).congr
        (q := fun i => jump (readInfoIdx c f (base + (n - k + i) * sizeofNvInfoIdx c))) (by
          intro j hj
          simp [readInfoIdxs, hj, Nat.add_mul, Nat.add_assoc])
      have hadd := IsLast.add (p := fun i => jump (readInfoIdx c f (base + i * sizeofNvInfoIdx c)))
        hgroup (ih (n - k) (by omega))
      rwa [Nat.sub_add_cancel hkn] at hadd

theorem nvIndexRead_last (c : NvCfg) (f : Flash) (id : Nat) (itemId : Byte) (len s n : Nat) :
    IsLast (fun i => nvIndexMatch itemId len (readInfoIdx c f (idxAddr c id s i))) n
      (nvIndexRead c f id itemId len s n) :=
  nvIndexLoop_last c f _ _ n n (Nat.le_refl n)

/-! ### Any table -/

/-- The status of `nv_index_read` and `*idxNo`, a `u16`, which keeps its old value when nothing is found. -/
def nvIndexReadNo (c : NvCfg) (f : Flash) (id : Nat) (itemId : Byte) (len opSect totalItemNum : Nat)
    (idxNo : BitVec 16) : NvSts × BitVec 16 :=
  match nvIndexRead c f id itemId len opSect totalItemNum with
  | some i => (.succ, BitVec.ofNat 16 i)
  | none => (.itemNotFound, idxNo)

/-- The result names the greatest index below `n` with `p`. -/
inductive FoundLast (p : Nat → Prop) (n : Nat) : NvSts × BitVec 16 → Prop where
  | found {i : Nat} (hi : i < n) (hp : p i) (hlast : ∀ j, i < j → j < n → ¬ p j) :
      FoundLast p n (.succ, BitVec.ofNat 16 i)
  | notFound (hnone : ∀ j < n, ¬ p j) (idxNo : BitVec 16) : FoundLast p n (.itemNotFound, idxNo)

/-- A valid entry of the item whose payload is a multiple of `len` bytes. -/
def NvInfoIdx.IsItem (itemId : Byte) (len : Nat) (i : NvInfoIdx) : Prop :=
  (i.usedState = itemFieldValid ∨ i.usedState = itemFieldValidSingle) ∧ i.itemId = itemId ∧
    len ∣ u32Sub i.size sizeofItemHdr

/-- Nothing has been written to the entry. -/
def NvInfoIdx.FullyIdle (i : NvInfoIdx) : Prop :=
  i.usedState = itemFieldIdle ∧ i.size = 0xffff ∧ i.itemId = itemFieldIdle

theorem nvIndexMatch_item {itemId : Byte} (hne : itemId ≠ itemFieldIdle) (len : Nat) (i : NvInfoIdx) :
    nvIndexMatch itemId len i = true ↔ i.IsItem itemId len := by
  rw [nvIndexMatch, if_pos hne, Bool.and_eq_true, Bool.and_eq_true, itemValidFlagCheck, Bool.or_eq_true,
    decide_eq_true_iff, decide_eq_true_iff, decide_eq_true_iff, nvItemlenMatch, decide_eq_true_iff, and_assoc,
    NvInfoIdx.IsItem, Nat.dvd_iff_mod_eq_zero]

theorem nvIndexMatch_fullyIdle (len : Nat) (i : NvInfoIdx) :
    nvIndexMatch itemFieldIdle len i = true ↔ ¬ i.FullyIdle := by
  rw [nvIndexMatch, if_neg (not_not_intro rfl), Bool.or_eq_true, Bool.or_eq_true, decide_eq_true_iff,
    decide_eq_true_iff, decide_eq_true_iff, NvInfoIdx.FullyIdle, not_and_or, not_and_or, or_assoc]

theorem nvIndexReadNo_last {c : NvCfg} {f : Flash} {id : Nat} {itemId : Byte} {len s n : Nat}
    {p : NvInfoIdx → Prop} (hp : ∀ i, nvIndexMatch itemId len i = true ↔ p i) (idxNo : BitVec 16) :
    FoundLast (fun i => p (readInfoIdx c f (idxAddr c id s i))) n (nvIndexReadNo c f id itemId len s n idxNo) := by
  have hlast := nvIndexRead_last c f id itemId len s n
  have hno {j : Nat} (h : nvIndexMatch itemId len (readInfoIdx c f (idxAddr c id s j)) = false) :
      ¬ p (readInfoIdx c f (idxAddr c id s j)) := by
    rw [← hp, h]
    exact Bool.false_ne_true
  unfold nvIndexReadNo
  cases hread : nvIndexRead c f id itemId len s n with
  | none =>
    rw [hread] at hlast
    exact .notFound (fun j hj => hno (hlast j hj)) idxNo
  | some i =>
    rw [hread] at hlast
    obtain ⟨hi, hmatch, hafter⟩ := hlast
    exact .found hi ((hp _).mp hmatch) fun j hij hj => hno (hafter j hij hj)

/-- The search of `nv_index_read` in a table of any length and content. -/
theorem nvIndexReadNo_greatest (c : NvCfg) (f : Flash) (id len s n : Nat) (idxNo : BitVec 16) :
    (∀ itemId, itemId ≠ itemFieldIdle →
      FoundLast (fun i => (readInfoIdx c f (idxAddr c id s i)).IsItem itemId len) n
        (nvIndexReadNo c f id itemId len s n idxNo)) ∧
      FoundLast (fun i => ¬ (readInfoIdx c f (idxAddr c id s i)).FullyIdle) n
        (nvIndexReadNo c f id itemFieldIdle len s n idxNo) := by
  constructor
  · intro itemId hne
    exact nvIndexReadNo_last (nvIndexMatch_item hne len) idxNo
  · exact nvIndexReadNo_last (nvIndexMatch_fullyIdle len) idxNo

/-- Item 0x21 of module 1 is written twice, next to an item 0x22. -/
def writtenTwice : Flash :=
  (nvFlashWriteNew ⟨false, false⟩ true false 1 0x21 [5, 6, 7, 8]).final
    ((nvFlashWriteNew ⟨false, false⟩ true false 1 0x22 [9]).final
      ((nvFlashWriteNew ⟨false, false⟩ true false 1 0x21 [1, 2, 3, 4]).final fun _ => 0xff))

theorem nvIndexReadNo_greatest_twice :
    nvIndexReadNo ⟨false, false⟩ writtenTwice 1 0x21 4 0 5 0 = (.succ, 2) ∧
      FoundLast (fun i => (readInfoIdx ⟨false, false⟩ writtenTwice (idxAddr ⟨false, false⟩ 1 0 i)).IsItem 0x21 4) 5
        (nvIndexReadNo ⟨false, false⟩ writtenTwice 1 0x21 4 0 5 0) :=
  ⟨by decide +kernel, (nvIndexReadNo_greatest ⟨false, false⟩ writtenTwice 1 4 0 5 0).1 0x21 (by decide)⟩

/-! ### Searching an item -/

/-- The entry is the item `itemId` and its length fits the length asked for. -/
def Entry.found (itemId : Byte) (len : Nat) (e : Entry) : Bool :=
  e.stage = .valid && e.itemId = itemId && nvItemlenMatch e.payload.length len

/-- The last entry of the log with `p`. -/
def LastEntry (p : Entry → Bool) (es : List Entry) : Option Nat → Prop
  | none => ∀ e ∈ es, p e = false
  | some i => ∃ h : i < es.length, p es[i] = true ∧ ∀ j (hj : j < es.length), i < j → p es[j] = false

section Table
variable {c : NvCfg} {id s : Nat} {marked : Bool} {f : Flash} {es : List Entry}
variable (hid : id < dsMaxModuls) (hs : s < 2)

theorem nvIndexMatch_entry {itemId : Byte} (hne : itemId ≠ itemFieldIdle) (len : Nat) {e : Entry}
    (hsize : e.size < 65536) (off : Nat) :
    nvIndexMatch itemId len (e.idx off) = e.found itemId len := by
  have hlen : u32Sub (e.idx off).size sizeofItemHdr = e.payload.length := by
    have := e.size_eq
    change u32Sub e.size sizeofItemHdr = _
    rw [u32Sub_eq (show sizeofItemHdr ≤ e.size from Nat.le_add_left _ _) (show e.size < _ by omega)]
    exact Nat.add_sub_cancel ..
  rw [nvIndexMatch, if_pos hne, hlen]
  exact congrArg (· && decide (e.itemId = itemId) && nvItemlenMatch e.payload.length len)
    e.state_validFlag

theorem nvIndexMatch_idle {itemId : Byte} (hne : itemId ≠ itemFieldIdle) (len o : Nat) {st : Byte}
    (hst : st = itemFieldIdle ∨ marked = true ∧ st = itemFieldInvalid) :
    nvIndexMatch itemId len (idleIdx c o st) = false := by
  have hflag : itemValidFlagCheck st = false := by
    rcases hst with rfl | ⟨-, rfl⟩ <;> decide
  rw [nvIndexMatch, if_pos hne, show (idleIdx c o st).usedState = st from rfl, hflag]
  rfl

include hid hs in
/-- `nv_index_read` finds the last matching item of the log. -/
theorem nvIndexRead_item (h : SectorTable c id s marked f es) {itemId : Byte}
    (hne : itemId ≠ itemFieldIdle) (len : Nat) :
    LastEntry (Entry.found itemId len) es (nvIndexRead c f id itemId len s (moduleIdxNum c id)) := by
  have hlast := nvIndexRead_last c f id itemId len s (moduleIdxNum c id)
  have hentry {i : Nat} (hi : i < es.length) :
      nvIndexMatch itemId len (readInfoIdx c f (idxAddr c id s i)) = es[i].found itemId len := by
    rw [h.readInfoIdx_entry hid hs hi]
    exact nvIndexMatch_entry hne len (h.size_lt hi) _
  have hcount := h.count
  generalize nvIndexRead c f id itemId len s (moduleIdxNum c id) = r at hlast
  cases r with
  | none =>
    intro e he
    obtain ⟨i, hi, rfl⟩ := List.mem_iff_getElem.mp he
    rw [← hentry hi]
    exact hlast i (by omega)
  | some i =>
    obtain ⟨hi, hmatch, hafter⟩ := hlast
    have hin : i < es.length := by
      by_contra hout
      obtain ⟨o, st, hread, -, hst⟩ := h.readInfoIdx_idle hid hs (Nat.le_of_not_lt hout) hi
      dsimp only at hmatch
      rw [hread, nvIndexMatch_idle hne len o hst] at hmatch
      exact absurd hmatch (by decide)
    refine ⟨hin, by rw [← hentry hin]; exact hmatch, fun j hj hij => ?_⟩
    rw [← hentry hj]
    exact hafter j hij (by omega)

/-! ### Searching the end of the log -/

theorem nvIndexMatch_used (len : Nat) (e : Entry) (off : Nat) :
    nvIndexMatch itemFieldIdle len (e.idx off) = true := by
  have hstate : e.state ≠ itemFieldIdle := by
    unfold Entry.state
    generalize e.single = single
    cases e.stage <;> decide +revert
  have : (e.idx off).usedState = e.state := rfl
  simp [nvIndexMatch, this, hstate]

theorem nvIndexMatch_free (len o : Nat) (st : Byte) :
    nvIndexMatch itemFieldIdle len (idleIdx c o st) = decide (st ≠ itemFieldIdle) := by
  by_cases h : st = itemFieldIdle
  · subst h
    rfl
  · simp [nvIndexMatch, idleIdx, h]

include hid hs in
/-- The search for the last used slot ends at the last entry, unless a free slot is marked. -/
theorem nvIndexRead_idle (h : SectorTable c id s marked f es) (len : Nat) {r : Option Nat}
    (hr : nvIndexRead c f id itemFieldIdle len s (moduleIdxNum c id) = r) :
    (SectorTable c id s false f es ∧ r = if es = [] then none else some (es.length - 1)) ∨
      marked = true ∧ ∃ w, r = some w ∧ es.length ≤ w ∧ w < moduleIdxNum c id := by
  have hlast := nvIndexRead_last c f id itemFieldIdle len s (moduleIdxNum c id)
  rw [hr] at hlast
  have hcount := h.count
  have hused {i : Nat} (hi : i < es.length) :
      nvIndexMatch itemFieldIdle len (readInfoIdx c f (idxAddr c id s i)) = true := by
    rw [h.readInfoIdx_entry hid hs hi]
    exact nvIndexMatch_used len _ _
  have hfree (hall : ∀ i, es.length ≤ i → i < moduleIdxNum c id →
      nvIndexMatch itemFieldIdle len (readInfoIdx c f (idxAddr c id s i)) = false) :
      SectorTable c id s false f es := by
    refine ⟨h.count, h.fits, h.entry, fun i hi hi' => ?_⟩
    obtain ⟨o, st, hb, ho, hst⟩ := h.idle i hi hi'
    refine ⟨o, st, hb, ho, .inl ?_⟩
    have hoff := h.itemOff_lt hid hs
    have hno := hall i hi hi'
    have hread : readInfoIdx c f (idxAddr c id s i) = idleIdx c o st := by
      refine readInfoIdx_of_bytes hb ?_ (show 0xffff < 65536 by decide)
      change o < _
      split_ifs at ho <;> omega
    rw [hread, nvIndexMatch_free] at hno
    simpa using hno
  cases r with
  | none =>
    have hnil : es = [] := by
      by_contra hne
      have hpos := List.length_pos_iff.mpr hne
      have hno := hlast 0 (by omega)
      exact absurd ((hused hpos).symm.trans hno) (by decide)
    exact .inl ⟨hfree fun i _ hi => hlast i hi, by rw [if_pos hnil]⟩
  | some w =>
    obtain ⟨hw, hmatch, hafter⟩ := hlast
    by_cases hin : w < es.length
    · have hw' : w = es.length - 1 := by
        by_contra hne
        have hno := hafter (es.length - 1) (by omega) (by omega)
        exact absurd ((hused (by omega)).symm.trans hno) (by decide)
      have hne : es ≠ [] := List.length_pos_iff.mp (by omega)
      refine .inl ⟨hfree fun i hi hi' => hafter i (by omega) hi', by rw [if_neg hne, hw']⟩
    · obtain ⟨o, st, hread, -, hst⟩ := h.readInfoIdx_idle hid hs (Nat.le_of_not_lt hin) hw
      dsimp only at hmatch
      rw [hread, nvIndexMatch_free] at hmatch
      refine .inr ⟨?_, w, rfl, Nat.le_of_not_lt hin, hw⟩
      rcases hst with rfl | ⟨hm, -⟩
      · exact absurd hmatch (by decide)
      · exact hm

/-! ### Finding a slot -/

/-- Where the last item of the log ends, before rounding. -/
def lastEnd (c : NvCfg) (id s : Nat) (es : List Entry) : Nat :=
  match es.getLast? with
  | none => moduleContextStart c id s
  | some e => itemOff c id s es.dropLast + e.size

/-- The handler's own test that the sector takes one more item of `len` bytes. -/
def HasRoom (c : NvCfg) (id s len : Nat) (es : List Entry) : Prop :=
  es = [] ∨ es.length < moduleIdxNum c id ∧ lastEnd c id s es + itemTotalLen len ≤ moduleSectEnd c id s

instance (c : NvCfg) (id s len : Nat) (es : List Entry) : Decidable (HasRoom c id s len es) :=
  inferInstanceAs (Decidable (_ ∨ _))

theorem getLast?_eq_some {α : Type} {es : List α} {i : Nat} (hi : i < es.length) (h : i + 1 = es.length) :
    es.getLast? = some es[i] := by
  rw [List.getLast?_eq_getElem?, show es.length - 1 = i by omega, List.getElem?_eq_getElem hi]

theorem lastEnd_getElem {es : List Entry} {i : Nat} (hi : i < es.length) (h : i + 1 = es.length) :
    lastEnd c id s es = itemOff c id s (es.take i) + es[i].size := by
  have hdrop : es.dropLast = es.take i := by
    rw [List.dropLast_eq_take, show es.length - 1 = i by omega]
  rw [lastEnd, getLast?_eq_some hi h, hdrop]

/-- An entry of the log passes the handler's check of its place. -/
theorem SectorTable.itemOftCheck (h : SectorTable c id s marked f es) {i : Nat} (hi : i < es.length) :
    itemOftCheck c (itemOff c id s (es.take i)) es[i].size id s = true := by
  have hlow := contextStart_le_itemOff c id s (es.take i)
  have hup := @itemOff_take_le c id s es i hi
  have hsize := es[i].size_le_slotLen
  have hpos := es[i].size_eq
  have hfits := h.fits
  simp only [Nv.itemOftCheck, Bool.and_eq_true, decide_eq_true_eq]
  omega

/-- The record of a free slot asks for more room than a sector has. -/
theorem idleIdx_oft (c : NvCfg) {id : Nat} (o : Nat) (st : Byte) (s : Nat) :
    itemOftCheck c (idleIdx c o st).offset (idleIdx c o st).size id s = false := by
  have hend := moduleSectEnd_eq c id s
  have hinfo := moduleContextStart_eq c id s
  have hsize : nvSectorSize id ≤ 16384 := by
    rcases moduleInfoSize_cases id with ⟨-, h⟩ | ⟨-, h⟩ <;> omega
  change itemOftCheck c o 0xffff id s = false
  simp only [itemOftCheck, Bool.and_eq_false_iff, decide_eq_false_iff_not]
  omega

include hid hs in
theorem nvFindSlot_unmarked (h : SectorTable c id s false f es) {len : Nat}
    (hlen : itemTotalLen len ≤ 65536) :
    nvFindSlot c f id len s = if HasRoom c id s len es then some es.length else none := by
  rcases nvIndexRead_idle hid hs h len rfl with ⟨-, hr⟩ | ⟨hm, -⟩
  · by_cases hnil : es = []
    · rw [if_pos hnil] at hr
      rw [if_pos (.inl hnil)]
      simp [nvFindSlot, hr, hnil]
    · rw [if_neg hnil] at hr
      have hpos := List.length_pos_iff.mpr hnil
      have hi : es.length - 1 < es.length := by omega
      have hread := h.readInfoIdx_entry hid hs hi
      have hend := @lastEnd_getElem c id s es _ hi (by omega)
      have hoff := h.itemOff_lt hid hs
      have hup := @itemOff_take_le c id s es _ hi
      have hsize := es[es.length - 1].size_le_slotLen
      have hcount := h.count
      have hoft := h.itemOftCheck hi
      simp only [nvFindSlot, hr, hread, Entry.idx, Entry.state_flag, hoft, Bool.and_self, if_true]
      rw [u32_eq (by omega), ← hend]
      by_cases hroom : HasRoom c id s len es
      · obtain hnil' | ⟨hn, hfit⟩ := hroom
        · exact absurd hnil' hnil
        · rw [if_neg (by omega), if_pos (.inr ⟨hn, hfit⟩), Nat.sub_add_cancel hpos]
      · rw [if_neg hroom, if_pos]
        by_contra hno
        exact hroom (.inr ⟨by omega, by omega⟩)
  · exact absurd hm (by decide)

include hid hs in
/-- A slot is found only behind the last entry of an unmarked table. -/
theorem nvFindSlot_some (h : SectorTable c id s marked f es) {len w : Nat}
    (hlen : itemTotalLen len ≤ 65536) (hw : nvFindSlot c f id len s = some w) :
    SectorTable c id s false f es ∧ w = es.length ∧ HasRoom c id s len es := by
  rcases nvIndexRead_idle hid hs h len rfl with ⟨h', -⟩ | ⟨-, v, hr, hv, hv'⟩
  · rw [nvFindSlot_unmarked hid hs h' hlen] at hw
    split_ifs at hw with hroom
    exact ⟨h', (Option.some.inj hw).symm, hroom⟩
  · -- a marked slot never passes the check of its offset
    obtain ⟨o, st, hread, -, -⟩ := h.readInfoIdx_idle hid hs hv hv'
    have hoft := @idleIdx_oft c id o st s
    simp only [nvFindSlot, hr, hread, hoft, Bool.and_false, Bool.false_eq_true, if_false] at hw
    split_ifs at hw

theorem HasRoom.count_lt {len : Nat} (h : HasRoom c id s len es) : es.length < moduleIdxNum c id := by
  rcases h with rfl | ⟨h, -⟩
  · exact moduleIdxNum_pos c id
  · exact h

end Table

end Rf4ce.Nv

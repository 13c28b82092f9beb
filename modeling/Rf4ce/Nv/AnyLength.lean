import Rf4ce.Nv.CrashSafety

/-! Items of any length: the entry a read finds, and how much of it reaches the caller's
buffer. -/
namespace Rf4ce.Nv
open Crash Drv Common

/-- Writes and reads of items of any id, kind and length. -/
def AnyItem : Call → Prop
  | .delete _ _ => False
  | _ => True

/-- The sector `nv_sector_read` settles on. -/
def nvOpSect (c : NvCfg) (f : Flash) (id : Nat) : Option Nat :=
  match (nvSectorRead c false id).value f with
  | (.succ, some sectInfo) => some (sectInfo.opSect.toNat % moduleSectorNum)
  | _ => none

/-- The index entry `i` of sector `s`. -/
def idxEntry (c : NvCfg) (f : Flash) (id s i : Nat) : NvInfoIdx := readInfoIdx c f (idxAddr c id s i)

/-- The entry a read of `itemId` with the length `len` finds. Under the id of a free slot only
the last entry is looked at. -/
def newest (itemId : Byte) (len : Nat) (es : List Entry) : Option Entry :=
  if itemId = itemFieldIdle then es.getLast?.filter (Entry.found itemId len)
  else (es.filter (Entry.found itemId len)).getLast?

def Contents.newest (itemId : Byte) (len : Nat) : Contents → Option Entry
  | .fresh => none
  | .active _ es => Nv.newest itemId len es

/-- What a read makes of the entry it finds. -/
def readEntry (g : NvItemLenCheck) (itemId : Byte) : Option Entry → NvSts × Option (List Byte)
  | some e => (.succ, some (e.payload.take (nvItemLengthValidCheck g itemId e.payload.length)))
  | none => (.itemNotFound, none)

theorem nvItemLengthValidCheck_le (g : NvItemLenCheck) (itemId : Byte) (len : Nat) :
    nvItemLengthValidCheck g itemId len ≤ len := by
  unfold nvItemLengthValidCheck
  split
  · exact Nat.min_le_right _ _
  · exact Nat.le_refl _

section Read
variable {c : NvCfg} {id s : Nat} {f : Flash} {es : List Entry}
variable (hid : id < dsMaxModuls) (hs : s < 2)
include hid hs

/-- An entry that does not match is not read. -/
theorem nvFlashReadByIndex_other (h : SectorTable c id s false f es) (g : NvItemLenCheck) {itemId : Byte}
    {i len : Nat} (hi : i < es.length) (hfound : es[i].found itemId len = false) :
    nvFlashReadByIndex c g f id itemId s i len = (.itemNotFound, none) := by
  rw [nvFlashReadByIndex, h.readInfoIdx_entry hid hs hi]
  have hflag : itemValidFlagCheck (es[i].idx (itemOff c id s (es.take i))).usedState =
      decide (es[i].stage = .valid) := es[i].state_validFlag
  by_cases hv : es[i].stage = .valid
  · have hh : es[i].stage.hasHdr = true := by
      rw [hv]
      rfl
    have hhdr := h.readItemHdr_entry hi hh
    have hoffset : (es[i].idx (itemOff c id s (es.take i))).offset = itemOff c id s (es.take i) := rfl
    have hmiss : (nvItemlenMatch es[i].payload.length len && itemHdrValidCheck itemHdrFieldValidCheckcrc &&
        decide (es[i].itemId = itemId)) = false := by
      simp only [Entry.found, hv, decide_true, Bool.true_and] at hfound
      cases hm : nvItemlenMatch es[i].payload.length len with
      | false => rfl
      | true =>
        rw [hm, Bool.and_true] at hfound
        rw [hfound, Bool.and_false]
    dsimp only
    rw [hflag, decide_eq_true hv, hoffset, hhdr]
    change (if false = true then _ else if (nvItemlenMatch es[i].payload.length len &&
      itemHdrValidCheck itemHdrFieldValidCheckcrc && decide (es[i].itemId = itemId)) = true then _ else _) = _
    rw [hmiss, if_neg Bool.false_ne_true, if_neg Bool.false_ne_true]
  · dsimp only
    rw [hflag, decide_eq_false hv]
    rfl

/-- The index search and the read by index together return the newest match. -/
theorem nvIndexRead_newest (h : SectorTable c id s false f es) (used : es ≠ []) (g : NvItemLenCheck)
    (itemId : Byte) (len : Nat) :
    (match nvIndexRead c f id itemId len s (moduleIdxNum c id) with
      | none => (NvSts.itemNotFound, none)
      | some i => nvFlashReadByIndex c g f id itemId s i len) = readEntry g itemId (newest itemId len es) := by
  by_cases hne : itemId = itemFieldIdle
  · subst hne
    have hpos := List.length_pos_iff.mpr used
    have hi : es.length - 1 < es.length := by omega
    have hidle : nvIndexRead c f id itemFieldIdle len s (moduleIdxNum c id) = some (es.length - 1) := by
      rcases nvIndexRead_idle hid hs h len rfl with ⟨-, hr⟩ | ⟨hm, -⟩
      · rw [hr, if_neg used]
      · exact absurd hm Bool.false_ne_true
    rw [hidle, newest, if_pos rfl, getLast?_eq_some hi (by omega)]
    cases hfound : es[es.length - 1].found itemFieldIdle len with
    | false =>
      simp only [Option.filter, hfound]
      exact nvFlashReadByIndex_other hid hs h g hi hfound
    | true =>
      simp only [Option.filter, hfound]
      exact nvFlashReadByIndex_entry hid hs h g hi hfound
  · have hlast := nvIndexRead_item hid hs h hne len
    rw [newest, if_neg hne, lastEntry_filter hlast]
    generalize nvIndexRead c f id itemId len s (moduleIdxNum c id) = r at hlast
    cases r with
    | none => rfl
    | some i =>
      obtain ⟨hi, hfound, -⟩ := hlast
      rw [Option.bind_some, List.getElem?_eq_getElem hi]
      exact nvFlashReadByIndex_entry hid hs h g hi hfound

end Read

section Module
variable {c : NvCfg} {id : Nat} {f : Flash}
variable (hid : id < dsMaxModuls) (hfc : id ≠ dsNwkFramecountModule)

include hid in
theorem nvOpSect_active {q : Byte} {es : List Entry} (h : ModuleRep c id false f (.active q es)) :
    nvOpSect c f id = some (sectOf q) := by
  have hid' : id < 256 := Nat.lt_trans hid (by decide)
  cases h with
  | active headers rep used table =>
    have hread := (wp_result (nvSectorRead_read (R := fun _ => False) hid' headers)).1
    rw [nvOpSect, hread]
    exact congrArg some (mkSectInfo_sect headers.seq)

theorem ModuleRep.sectorTable {q : Byte} {es : List Entry} (h : ModuleRep c id false f (.active q es)) :
    SectorTable c id (sectOf q) false f es := by
  cases h with
  | active headers rep used table => exact rep.toSectorTable

theorem nvOpSect_fresh (h : ModuleRep c id false f .fresh) : nvOpSect c f id = none := by
  cases h with
  | fresh dead₀ dead₁ =>
    have hread := (wp_result (@nvSectorRead_fresh c id f false (fun _ => False) dead₀ dead₁)).1
    rw [nvOpSect, hread]

include hid hfc in
/-- A read returns the newest match and leaves the flash as it is. -/
theorem nvFlashReadNew_newest {m : Contents} (h : ModuleRep c id false f m) (g : NvItemLenCheck)
    (itemId : Byte) (len : Nat) :
    wp (InModule c id) (nvFlashReadNew c g id itemId len)
      (fun r f' => r = readEntry g itemId (m.newest itemId len) ∧ f' = f) (fun f' => f' = f) f := by
  have hid' : id < 256 := Nat.lt_trans hid (by decide)
  rw [nvFlashReadNew, if_neg hfc]
  apply wp_bind
  cases h with
  | fresh dead₀ dead₁ table₀ table₁ =>
    apply wp_mono (nvSectorRead_fresh dead₀ dead₁)
    · intro r f' hpost
      obtain ⟨rfl, rfl⟩ := hpost
      exact wp_pure ⟨rfl, rfl⟩ rfl
    · exact fun _ h => h
  | @active q es headers rep used table =>
    have hread := nvIndexRead_newest hid (sectOf_lt q) rep.toSectorTable used g itemId len
    apply wp_mono (nvSectorRead_read hid' headers)
    swap
    · exact fun _ h => h
    intro r f' hpost
    obtain ⟨rfl, rfl⟩ := hpost
    dsimp only
    rw [mkSectInfo_sect headers.seq]
    change _ = readEntry g itemId (Contents.newest itemId len (.active q es)) at hread
    refine wp_bind (wp_query ?_ rfl)
    cases hidx : nvIndexRead c f' id itemId len (sectOf q) (moduleIdxNum c id) with
    | none =>
      rw [hidx] at hread
      exact wp_pure ⟨hread, rfl⟩ rfl
    | some i =>
      rw [hidx] at hread
      refine wp_bind (wp_query ?_ rfl)
      dsimp only at hread ⊢
      rw [hread]
      have hsts : ¬ (readEntry g itemId (Contents.newest itemId len (.active q es))).1 = .checkSumError := by
        cases Contents.newest itemId len (.active q es) <;> simp [readEntry]
      rw [if_neg hsts]
      exact wp_pure ⟨rfl, rfl⟩ rfl

include hid hfc in
/-- Runs with items of any length keep the log of the module in order. -/
theorem Reach.contents (hf : Reach c id AnyItem f) : ∃ m : Contents, ModuleRep c id false f m := by
  induction hf with
  | erased h => exact ⟨.fresh, moduleRep_erased h false⟩
  | @call f t k _ hk ht ih =>
    obtain ⟨m, hrep⟩ := ih
    cases k with
    | write alloc single itemId buf =>
      obtain ⟨m', -, hrep'⟩ := wp_cut (nvFlashWriteNew_wp hid hrep hfc alloc) ht
      exact ⟨m', hrep'⟩
    | read g itemId len =>
      obtain rfl := wp_cut (nvFlashReadNew_newest hid hfc hrep g itemId len) ht
      exact ⟨m, hrep⟩
    | delete opSect opIdx => exact hk.elim

end Module

/-! ### The caller's buffer -/

/-- The length an item is registered with. -/
def registeredLen (g : NvItemLenCheck) (itemId : Byte) : Option Nat :=
  (g.tbl.find? fun p => p.1 = itemId).map Prod.snd

theorem nvItemLengthValidCheck_le_iff (g : NvItemLenCheck) (itemId : Byte) (n len : Nat) :
    nvItemLengthValidCheck g itemId n ≤ len ↔ n ≤ len ∨ ∃ r, registeredLen g itemId = some r ∧ r ≤ len := by
  unfold nvItemLengthValidCheck registeredLen
  cases g.tbl.find? fun p => p.1 = itemId with
  | none => simp
  | some p =>
    simp only [Option.map_some, Option.some.injEq, exists_eq_left']
    omega

/-- The item a read finds is not longer than the buffer, or registered with a length that is
not. -/
def FitsBuffer (c : NvCfg) (g : NvItemLenCheck) (f : Flash) (id : Nat) (itemId : Byte) (len : Nat) :
    Prop :=
  ∀ s, nvOpSect c f id = some s → ∀ i, nvIndexRead c f id itemId len s (moduleIdxNum c id) = some i →
    (idxEntry c f id s i).size ≤ itemTotalLen len ∨
      ∃ r, registeredLen g itemId = some r ∧ r ≤ len

section Buffer
variable {c : NvCfg} {id : Nat} {f : Flash} {g : NvItemLenCheck} {itemId : Byte}

/-- The bytes a read stores come from the newest match. -/
theorem readEntry_inBuffer_iff (r : Option Entry) (len : Nat) :
    (∀ stored, (readEntry g itemId r).2 = some stored → stored.length ≤ len) ↔
      ∀ e, r = some e → nvItemLengthValidCheck g itemId e.payload.length ≤ len := by
  cases r with
  | none => simp [readEntry]
  | some e =>
    have hreal := nvItemLengthValidCheck_le g itemId e.payload.length
    simp only [readEntry, Option.some.injEq, forall_eq', List.length_take]
    rw [Nat.min_eq_left hreal]

/-- **Stores of a read.** A read stays inside the caller's buffer exactly when the item it
finds fits there. -/
theorem nvFlashReadNew_inBuffer_iff (hid : id < dsMaxModuls)
    (hf : id ≠ dsNwkFramecountModule → Reach c id AnyItem f) (g : NvItemLenCheck)
    (hitem : ItemIdOk itemId) (len : Nat) :
    (∀ stored, ((nvFlashReadNew c g id itemId len).value f).2 = some stored → stored.length ≤ len) ↔
      id = dsNwkFramecountModule ∨ FitsBuffer c g f id itemId len := by
  by_cases hfc : id = dsNwkFramecountModule
  · have hvalue : (nvFlashReadNew c g id itemId len).value f = (.invalidModuls, none) := by
      rw [nvFlashReadNew, if_pos hfc]
      rfl
    rw [hvalue]
    simp [hfc]
  · obtain ⟨m, hrep⟩ := (hf hfc).contents hid hfc
    have hread := (wp_result (nvFlashReadNew_newest hid hfc hrep g itemId len)).1
    rw [hread, readEntry_inBuffer_iff]
    simp only [hfc, false_or, FitsBuffer]
    cases hrep with
    | fresh dead₀ dead₁ table₀ table₁ =>
      have hsect := nvOpSect_fresh (.fresh dead₀ dead₁ table₀ table₁ : ModuleRep c id false f .fresh)
      simp [Contents.newest, hsect]
    | @active q es headers rep used table =>
      have hs := sectOf_lt q
      have hsect := nvOpSect_active hid
        (.active headers rep used table : ModuleRep c id false f (.active q es))
      have htable := rep.toSectorTable
      have hlast := nvIndexRead_item hid hs htable hitem.ne_idle len
      have hnewest : (Contents.active q es).newest itemId len =
          (nvIndexRead c f id itemId len (sectOf q) (moduleIdxNum c id)).bind fun i => es[i]? := by
        rw [Contents.newest, newest, if_neg hitem.ne_idle, lastEntry_filter hlast]
      rw [hnewest]
      simp only [hsect, Option.some.injEq, forall_eq']
      generalize nvIndexRead c f id itemId len (sectOf q) (moduleIdxNum c id) = r at hlast
      cases r with
      | none => simp
      | some i =>
        obtain ⟨hi, -, -⟩ := hlast
        have hread := htable.readInfoIdx_entry hid hs hi
        have hsize := es[i].size_eq
        have hlen : (idxEntry c f id (sectOf q) i).size ≤ itemTotalLen len ↔
            es[i].payload.length ≤ len := by
          rw [idxEntry, hread]
          change es[i].size ≤ len + 8 ↔ _
          omega
        simp only [Option.bind_some, List.getElem?_eq_getElem hi, Option.some.injEq, forall_eq', hlen]
        exact nvItemLengthValidCheck_le_iff g itemId _ len

/-- Item 1 of module 0 with two bytes, written to erased flash. -/
def twoByteItem : Flash := (nvFlashWriteNew ⟨false, false⟩ true true 0 1 [0x41, 0x42]).final fun _ => 0xff

theorem twoByteItem_reach : Reach ⟨false, false⟩ 0 AnyItem twoByteItem :=
  .call (k := .write true true 1 [0x41, 0x42]) (.erased fun _ _ => rfl) trivial (Prog.cut_final _ _)

/-- Item 1 of module 0 with three bytes, written to erased flash. -/
def threeByteItem : Flash :=
  (nvFlashWriteNew ⟨false, false⟩ true true 0 1 [0x41, 0x42, 0x43]).final fun _ => 0xff

theorem threeByteItem_reach : Reach ⟨false, false⟩ 0 AnyItem threeByteItem :=
  .call (k := .write true true 1 [0x41, 0x42, 0x43]) (.erased fun _ _ => rfl) trivial (Prog.cut_final _ _)

/-- The same item written once more, with two bytes. -/
def resizedItem : Flash :=
  (nvFlashWriteNew ⟨false, false⟩ true true 0 1 [0x44, 0x45]).final threeByteItem

theorem resizedItem_reach : Reach ⟨false, false⟩ 0 AnyItem resizedItem :=
  .call (k := .write true true 1 [0x44, 0x45]) threeByteItem_reach trivial (Prog.cut_final _ _)

/-- Read with its own length the item fits, read with half of it it does not. -/
theorem nvFlashReadNew_inBuffer_iff_two :
    (∀ stored, ((nvFlashReadNew ⟨false, false⟩ .initial 0 1 2).value twoByteItem).2 = some stored →
      stored.length ≤ 2) ∧
    ¬ FitsBuffer ⟨false, false⟩ .initial twoByteItem 0 1 1 := by
  constructor
  · apply (nvFlashReadNew_inBuffer_iff (by decide) (fun _ => twoByteItem_reach) .initial
      ⟨by decide, by decide⟩ 2).mpr
    right
    intro s hs i hi
    obtain rfl : 0 = s := Option.some.inj ((by decide +kernel : some 0 = nvOpSect _ twoByteItem 0).trans hs)
    obtain rfl : 0 = i := Option.some.inj ((by decide +kernel : some 0 = nvIndexRead ⟨false, false⟩ twoByteItem
      0 1 2 0 (moduleIdxNum ⟨false, false⟩ 0)).trans hi)
    exact .inl (by decide +kernel)
  · intro hfits
    have hread := (nvFlashReadNew_inBuffer_iff (by decide) (fun _ => twoByteItem_reach) .initial
      ⟨by decide, by decide⟩ 1).mpr (.inr hfits) [0x41, 0x42] (by decide +kernel)
    exact absurd hread (by decide)

/-- One byte asked for, two bytes stored. -/
theorem nvFlashReadNew_overrun :
    Reach ⟨false, false⟩ 0 AnyItem twoByteItem ∧
      (nvFlashReadNew ⟨false, false⟩ .initial 0 1 1).value twoByteItem = (.succ, some [0x41, 0x42]) :=
  ⟨twoByteItem_reach, by decide +kernel⟩

end Buffer

end Rf4ce.Nv

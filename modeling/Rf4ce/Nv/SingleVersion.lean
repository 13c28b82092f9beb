import Rf4ce.Nv.AnyLength

/-! How many versions of an item written as single are valid after the write. -/
namespace Rf4ce.Nv
open Crash Drv Common

/-- The index entry `i` of sector `s` is valid for `itemId`. -/
def Live (c : NvCfg) (f : Flash) (id s : Nat) (itemId : Byte) (i : Nat) : Prop :=
  i < moduleIdxNum c id ∧ itemValidFlagCheck (idxEntry c f id s i).usedState = true ∧
    (idxEntry c f id s i).itemId = itemId

/-- The item `itemId` has one version, the entry written last, and its payload is `buf`. -/
structure OneVersion (c : NvCfg) (f : Flash) (id : Nat) (itemId : Byte) (buf : List Byte) : Prop where
  written : ∃ s i, nvOpSect c f id = some s ∧
    nvIndexRead c f id itemFieldIdle buf.length s (moduleIdxNum c id) = some i ∧
    (∀ j, Live c f id s itemId j ↔ j = i) ∧ (idxEntry c f id s i).size = itemTotalLen buf.length ∧
    flashRead f ((idxEntry c f id s i).offset + sizeofItemHdr) buf.length = buf
  read : ∀ g len, (nvFlashReadNew c g id itemId len).value f = (.itemNotFound, none) ∨
    ∃ n, (nvFlashReadNew c g id itemId len).value f = (.succ, some (buf.take n))

/-- The entry that a write with `len` retires is the only valid one, unless the sector changes. -/
def Replaces (c : NvCfg) (f : Flash) (id : Nat) (itemId : Byte) (len : Nat) : Prop :=
  ∀ s, nvOpSect c f id = some s → nvFindSlot c f id len s = none ∨
    ∀ i, Live c f id s itemId i → nvIndexRead c f id itemId len s (moduleIdxNum c id) = some i

/-- A valid entry of the item. -/
def Entry.live (itemId : Byte) (e : Entry) : Prop := e.stage = .valid ∧ e.itemId = itemId

theorem Entry.found_live {itemId : Byte} {len : Nat} {e : Entry} (h : e.found itemId len = true) :
    e.live itemId := by
  simp only [found, Bool.and_eq_true, decide_eq_true_eq] at h
  exact h.1

section Retired
variable {itemId : Byte} {es : List Entry}

/-- What is valid in a log with one entry retired was valid before. -/
theorem mem_retireAt_live {d : Option Nat} {e : Entry} (he : e ∈ retireAt es d) (hv : e.live itemId) :
    e ∈ es := by
  cases d with
  | none => exact he
  | some d =>
    obtain ⟨j, hj, rfl⟩ := List.mem_iff_getElem.mp he
    have hj' : j < es.length := by simpa using hj
    rw [retireAt_getElem hj' hj] at hv ⊢
    split_ifs at hv ⊢
    · exact absurd hv.1 (by simp [Entry.drop])
    · exact List.getElem_mem hj'

/-- No version is left exactly when the retired one is the only one. -/
theorem retireAt_live_iff (d : Option Nat) :
    (∀ e ∈ retireAt es d, ¬ e.live itemId) ↔ ∀ i (hi : i < es.length), es[i].live itemId → d = some i := by
  constructor
  · intro h i hi hlive
    by_contra hne
    have hlen : i < (retireAt es d).length := by
      rw [retireAt_length]
      exact hi
    have hget : (retireAt es d)[i] = es[i] := by
      cases d with
      | none => rfl
      | some d => rw [retireAt_getElem hi hlen, if_neg fun hd => hne (by rw [hd])]
    refine h _ (List.getElem_mem hlen) ?_
    rw [hget]
    exact hlive
  · intro h e he hlive
    cases d with
    | none =>
      obtain ⟨i, hi, rfl⟩ := List.mem_iff_getElem.mp he
      exact absurd (h i hi hlive) (by simp)
    | some d =>
      obtain ⟨j, hj, rfl⟩ := List.mem_iff_getElem.mp he
      have hj' : j < es.length := by simpa using hj
      rw [retireAt_getElem hj' hj] at hlive
      split_ifs at hlive with hd
      · exact absurd hlive.1 (by simp [Entry.drop])
      · exact hd (Option.some.inj (h j hj' hlive))

end Retired

section Table
variable {c : NvCfg} {id s : Nat} {f : Flash} {es : List Entry} {itemId : Byte}
variable (hid : id < dsMaxModuls) (hs : s < 2)
include hid hs

theorem SectorTable.live_iff (h : SectorTable c id s false f es) (i : Nat) :
    Live c f id s itemId i ↔ ∃ hi : i < es.length, es[i].live itemId := by
  have hcount := h.count
  constructor
  · rintro ⟨hi, hflag, hitem⟩
    by_cases hin : i < es.length
    · rw [idxEntry, h.readInfoIdx_entry hid hs hin] at hflag hitem
      have hstate : itemValidFlagCheck es[i].state = true := hflag
      rw [Entry.state_validFlag, decide_eq_true_eq] at hstate
      exact ⟨hin, hstate, hitem⟩
    · obtain ⟨o, st, hread, -, hst⟩ := h.readInfoIdx_idle hid hs (Nat.le_of_not_lt hin) hi
      rw [idxEntry, hread] at hflag
      have hidle : itemValidFlagCheck st = true := hflag
      rcases hst with rfl | ⟨hm, -⟩
      · exact absurd hidle (by decide)
      · exact absurd hm Bool.false_ne_true
  · rintro ⟨hi, hv, hitem⟩
    have hentry : idxEntry c f id s i = es[i].idx (itemOff c id s (es.take i)) :=
      h.readInfoIdx_entry hid hs hi
    rw [Live, hentry]
    refine ⟨by omega, ?_, hitem⟩
    change itemValidFlagCheck es[i].state = true
    rw [Entry.state_validFlag, decide_eq_true_eq]
    exact hv

end Table

section Version
variable {c : NvCfg} {id : Nat} {f : Flash} {itemId : Byte} {buf : List Byte} {es : List Entry} {q : Byte}
variable (hid : id < dsMaxModuls) (hfc : id ≠ dsNwkFramecountModule) (hitem : ItemIdOk itemId)
include hid hfc hitem

/-- Behind a new entry there is one version exactly when the log before it has none. -/
theorem oneVersion_iff (es' : List Entry)
    (h : ModuleRep c id false f (.active q (es ++ [newEntry c true itemId buf es']))) :
    OneVersion c f id itemId buf ↔ ∀ e ∈ es, ¬ e.live itemId := by
  have hs := sectOf_lt q
  have hsect := nvOpSect_active hid h
  have htable := h.sectorTable
  have hlen : (es ++ [newEntry c true itemId buf es']).length = es.length + 1 := by simp
  have hin : es.length < (es ++ [newEntry c true itemId buf es']).length := by omega
  have hnew : (es ++ [newEntry c true itemId buf es'])[es.length] = newEntry c true itemId buf es' := by simp
  have hlast : nvIndexRead c f id itemFieldIdle buf.length (sectOf q) (moduleIdxNum c id) = some es.length := by
    rcases nvIndexRead_idle hid hs htable buf.length rfl with ⟨-, hr⟩ | ⟨hm, -⟩
    · rw [hr, if_neg (by simp), hlen, Nat.add_sub_cancel]
    · exact absurd hm Bool.false_ne_true
  constructor
  · rintro ⟨⟨s, i, hs', hi, hone, -⟩, -⟩ e he hlive
    obtain rfl : sectOf q = s := Option.some.inj (hsect.symm.trans hs')
    obtain rfl : es.length = i := Option.some.inj (hlast.symm.trans hi)
    obtain ⟨j, hj, rfl⟩ := List.mem_iff_getElem.mp he
    have hold : Live c f id (sectOf q) itemId j := by
      rw [htable.live_iff hid hs]
      refine ⟨by omega, ?_⟩
      rw [List.getElem_append_left hj]
      exact hlive
    have := (hone j).mp hold
    omega
  · intro hnone
    have hentry : idxEntry c f id (sectOf q) es.length = (newEntry c true itemId buf es').idx
        (itemOff c id (sectOf q) ((es ++ [newEntry c true itemId buf es']).take es.length)) := by
      rw [idxEntry, htable.readInfoIdx_entry hid hs hin, hnew]
    refine ⟨⟨sectOf q, es.length, hsect, hlast, fun j => ?_, ?_, ?_⟩, fun g len => ?_⟩
    · rw [htable.live_iff hid hs]
      constructor
      · rintro ⟨hj, hlive⟩
        by_contra hne
        have hj' : j < es.length := by omega
        rw [List.getElem_append_left hj'] at hlive
        exact hnone _ (List.getElem_mem hj') hlive
      · rintro rfl
        refine ⟨hin, ?_⟩
        rw [hnew]
        exact ⟨rfl, rfl⟩
    · rw [hentry]
      rfl
    · rw [hentry, flashRead_eq]
      have hbytes := (htable.entry es.length hin).item (by rw [hnew]; rfl)
      rw [hnew] at hbytes
      have hsize := (newEntry c true itemId buf es').size_eq
      have hpay := bytes_sub hbytes 8 buf.length (by
        change _ = buf.length + 8 at hsize
        omega)
      rwa [List.drop_left' (ItemHdr.encode_length _), show (newEntry c true itemId buf es').payload = buf from rfl,
        List.take_length] at hpay
    · have hread := (wp_result (nvFlashReadNew_newest hid hfc h g itemId len)).1
      rw [hread, Contents.newest, newest, if_neg hitem.ne_idle]
      cases hfound : ((es ++ [newEntry c true itemId buf es']).filter (Entry.found itemId len)).getLast? with
      | none => exact .inl rfl
      | some e =>
        obtain ⟨hmem, hsel⟩ := List.mem_filter.mp (List.mem_of_getLast? hfound)
        rcases List.mem_append.mp hmem with hold | hmem
        · exact absurd (Entry.found_live hsel) (hnone e hold)
        · rw [List.mem_singleton.mp hmem]
          exact .inr ⟨_, rfl⟩

/-- **One version of a single item.** A write that succeeds leaves exactly one version when the
entry it retires was the only valid one, or the sector was changed. -/
theorem nvFlashWriteNew_oneVersion_iff (hf : Reach c id AnyItem f) (alloc : Bool)
    (hsucc : (nvFlashWriteNew c alloc true id itemId buf).value f = .succ) :
    OneVersion c ((nvFlashWriteNew c alloc true id itemId buf).final f) id itemId buf ↔
      Replaces c f id itemId buf.length := by
  obtain ⟨m, hrep⟩ := hf.contents hid hfc
  obtain ⟨m', hend, hrep'⟩ :=
    wp_result (@nvFlashWriteNew_wp c id false true itemId buf f hid m hrep hfc alloc)
  have hlen : itemTotalLen buf.length ≤ 65536 := by
    by_contra hlong
    have hsize := moduleInfoSize_cases id
    rw [nvFlashWriteNew, if_neg hfc, nvFlashWriteNewHandler, if_pos (by omega)] at hsucc
    cases hsucc
  rw [hsucc] at hend
  cases hend with
  | first =>
    rw [@oneVersion_iff c id _ itemId buf [] 0 hid hfc hitem [] hrep']
    have hsect := nvOpSect_fresh hrep
    simp [Replaces, hsect]
  | @added q es d hroom hacc hd =>
    have hs := sectOf_lt q
    have hsect := nvOpSect_active hid hrep
    have htable := hrep.sectorTable
    have hslot : nvFindSlot c f id buf.length (sectOf q) = some es.length := by
      rw [nvFindSlot_unmarked hid hs htable hlen, if_pos hroom]
    have hidx : nvIndexRead c f id itemId buf.length (sectOf q) (moduleIdxNum c id) = d :=
      (nvIndexRead_item hid hs htable hitem.ne_idle buf.length).unique (hd.last rfl hitem.ne_idle)
    rw [oneVersion_iff hid hfc hitem _ hrep', retireAt_live_iff]
    simp only [Replaces, hsect, Option.some.injEq, forall_eq', hslot, reduceCtorEq, false_or, hidx,
      htable.live_iff hid hs, forall_exists_index]
  | @changed q es es' d hroom hshadow hfits hd =>
    have hs := sectOf_lt q
    have hsect := nvOpSect_active hid hrep
    have htable := hrep.sectorTable
    have hslot : nvFindSlot c f id buf.length (sectOf q) = none := by
      rw [nvFindSlot_unmarked hid hs htable hlen, if_neg (hroom rfl)]
    rw [oneVersion_iff hid hfc hitem _ hrep']
    constructor
    · intro _ s hs'
      obtain rfl : sectOf q = s := Option.some.inj (hsect.symm.trans hs')
      exact .inl hslot
    · intro _ e he hlive
      exact lookup_survivors_self es' e (mem_retireAt_live he hlive) hlive.2

end Version

/-- Item 1 written again with its length. -/
theorem nvFlashWriteNew_oneVersion_iff_same :
    OneVersion ⟨false, false⟩ ((nvFlashWriteNew ⟨false, false⟩ true true 0 1 [0x43, 0x44]).final twoByteItem)
      0 1 [0x43, 0x44] := by
  apply (nvFlashWriteNew_oneVersion_iff (by decide) (by decide) ⟨by decide, by decide⟩ twoByteItem_reach true
    (by decide +kernel)).mpr
  intro s hs
  obtain rfl : 0 = s := Option.some.inj ((by decide +kernel : some 0 = nvOpSect _ twoByteItem 0).trans hs)
  refine .inr fun i hi => ?_
  obtain ⟨hi, hflag, -⟩ := hi
  have hone : ∀ i < moduleIdxNum ⟨false, false⟩ 0, 0 < i →
      itemValidFlagCheck (idxEntry ⟨false, false⟩ twoByteItem 0 0 i).usedState = false := by decide +kernel
  obtain rfl : i = 0 := by
    by_contra hne
    rw [hone i hi (by omega)] at hflag
    exact Bool.false_ne_true hflag
  decide +kernel

/-- Item 1 written again with another length: the first version stays valid and is read. -/
theorem nvFlashWriteNew_twoVersions :
    Reach ⟨false, false⟩ 0 AnyItem threeByteItem ∧
      (nvFlashWriteNew ⟨false, false⟩ true true 0 1 [0x44, 0x45]).value threeByteItem = .succ ∧
      (nvFlashReadNew ⟨false, false⟩ .initial 0 1 3).value resizedItem = (.succ, some [0x41, 0x42, 0x43]) ∧
      ¬ OneVersion ⟨false, false⟩ resizedItem 0 1 [0x44, 0x45] := by
  have hread : (nvFlashReadNew ⟨false, false⟩ .initial 0 1 3).value resizedItem =
      (.succ, some [0x41, 0x42, 0x43]) := by decide +kernel
  refine ⟨threeByteItem_reach, by decide +kernel, hread, fun h => ?_⟩
  rcases h.read .initial 3 with hno | ⟨n, hn⟩
  · rw [hread] at hno
    cases hno
  · rw [hread] at hn
    have hlen := congrArg (fun r => r.2.map List.length) hn
    simp only [Option.map_some, List.length_take, Option.some.injEq, List.length_cons, List.length_nil] at hlen
    omega

end Rf4ce.Nv

import Rf4ce.Nv.Write

/-! `nv_flashReadNew`: what a read returns, in terms of the contents of the module. -/
namespace Rf4ce.Nv
open Crash Drv Common

/-- The payload of the last valid item `itemId`. -/
def lookup (itemId : Byte) (es : List Entry) : Option (List Byte) :=
  (es.filter fun e => e.stage = .valid && e.itemId = itemId).getLast?.map Entry.payload

def Contents.lookup (itemId : Byte) : Contents → Option (List Byte)
  | .fresh => none
  | .active _ es => Nv.lookup itemId es

/-- Every item has the length that goes with its id. -/
def Uniform (L : Byte → Nat) (es : List Entry) : Prop := ∀ e ∈ es, e.payload.length = L e.itemId

def Contents.Uniform (L : Byte → Nat) : Contents → Prop
  | .fresh => True
  | .active _ es => Nv.Uniform L es

/-- The status and the data a read returns for what was looked up. -/
def readResult {α : Type} : Option α → NvSts × Option α
  | some p => (.succ, some p)
  | none => (.itemNotFound, none)

theorem lastEntry_filter {p : Entry → Bool} {es : List Entry} {r : Option Nat} (h : LastEntry p es r) :
    (es.filter p).getLast? = r.bind fun i => es[i]? := by
  cases r with
  | none =>
    have hnil : es.filter p = [] := List.filter_eq_nil_iff.mpr fun e he => by simp [h e he]
    rw [hnil]
    rfl
  | some i =>
    obtain ⟨hi, hp, hlast⟩ := h
    have hdrop : (es.drop (i + 1)).filter p = [] := by
      refine List.filter_eq_nil_iff.mpr fun e he => ?_
      obtain ⟨j, hj, rfl⟩ := List.mem_iff_getElem.mp he
      rw [List.length_drop] at hj
      rw [List.getElem_drop]
      simp [hlast (i + 1 + j) (by omega) (by omega)]
    have hsplit : es = es.take i ++ (es[i] :: es.drop (i + 1)) := by
      rw [List.getElem_cons_drop, List.take_append_drop]
    have hfilter : es.filter p = (es.take i).filter p ++ [es[i]] := by
      conv_lhs => rw [hsplit]
      rw [List.filter_append, List.filter_cons_of_pos hp, hdrop]
    rw [hfilter, List.getLast?_concat, Option.bind_some, List.getElem?_eq_getElem hi]

theorem LastEntry.unique {p : Entry → Bool} {es : List Entry} {r r' : Option Nat} (h : LastEntry p es r)
    (h' : LastEntry p es r') : r = r' := by
  cases r with
  | none =>
    cases r' with
    | none => rfl
    | some j =>
      obtain ⟨hj, hp, -⟩ := h'
      exact absurd ((h _ (List.getElem_mem hj)).symm.trans hp) Bool.false_ne_true
  | some i =>
    obtain ⟨hi, hpi, hlast⟩ := h
    cases r' with
    | none => exact absurd ((h' _ (List.getElem_mem hi)).symm.trans hpi) Bool.false_ne_true
    | some j =>
      obtain ⟨hj, hpj, hlast'⟩ := h'
      rcases Nat.lt_trichotomy i j with hij | rfl | hij
      · exact absurd ((hlast j hj hij).symm.trans hpj) Bool.false_ne_true
      · rfl
      · exact absurd ((hlast' i hi hij).symm.trans hpi) Bool.false_ne_true

theorem exists_lastEntry (p : Entry → Bool) (es : List Entry) : ∃ r, LastEntry p es r := by
  induction es with
  | nil => exact ⟨none, fun e he => absurd he List.not_mem_nil⟩
  | cons e es ih =>
    obtain ⟨r, hr⟩ := ih
    cases r with
    | some i =>
      obtain ⟨hi, hp, hlast⟩ := hr
      refine ⟨some (i + 1), Nat.succ_lt_succ hi, hp, fun j hj hij => ?_⟩
      cases j with
      | zero => omega
      | succ j => exact hlast j (Nat.lt_of_succ_lt_succ hj) (by omega)
    | none =>
      cases hp : p e with
      | true =>
        refine ⟨some 0, Nat.zero_lt_succ _, hp, fun j hj hij => ?_⟩
        cases j with
        | zero => omega
        | succ j => exact hr _ (List.getElem_mem _)
      | false =>
        refine ⟨none, fun x hx => ?_⟩
        rcases List.mem_cons.mp hx with rfl | hx
        · exact hp
        · exact hr x hx

section Lookup
variable {c : NvCfg} {itemId : Byte} {es es' : List Entry}

theorem lookup_append (es : List Entry) (e : Entry) : lookup itemId (es ++ [e]) =
    if e.stage = .valid ∧ e.itemId = itemId then some e.payload else lookup itemId es := by
  rw [lookup, List.filter_append]
  by_cases h : e.stage = .valid ∧ e.itemId = itemId
  · rw [if_pos h, List.filter_cons_of_pos (by simp [h])]
    simp
  · rw [if_neg h, List.filter_cons_of_neg (by simpa using h)]
    simp [lookup]

/-- The last of the entries with `p` is not affected by a clean-up that keeps it. -/
theorem Shadowed.filter_getLast? (h : Shadowed es es') {p : Entry → Bool}
    (hp : ∀ e, p e = true → e.stage = .valid)
    (hkeep : ∀ i (hi : i < es.length) (hi' : i < es'.length), LastEntry p es (some i) → es'[i] = es[i]) :
    (es'.filter p).getLast? = (es.filter p).getLast? := by
  have hlen := h.length
  obtain ⟨r, hr⟩ := exists_lastEntry p es
  have hvalid {i : Nat} (hi : i < es'.length) (hpi : p es'[i] = true) : es'[i] = es[i] :=
    h.eq_of_valid (by omega) hi (hp _ hpi)
  have hr' : LastEntry p es' r ∧ (r.bind fun i => es'[i]?) = r.bind fun i => es[i]? := by
    cases r with
    | none =>
      refine ⟨fun e he => ?_, rfl⟩
      obtain ⟨i, hi, rfl⟩ := List.mem_iff_getElem.mp he
      by_contra hpi
      rw [Bool.not_eq_false] at hpi
      have heq := hvalid hi hpi
      rw [heq] at hpi
      have hno := hr es[i] (List.getElem_mem _)
      exact absurd (hno.symm.trans hpi) Bool.false_ne_true
    | some i =>
      have hi : i < es.length := hr.1
      have hi' : i < es'.length := by omega
      have heq := hkeep i hi hi' hr
      obtain ⟨hin, hpi, hlast⟩ := hr
      refine ⟨⟨hi', by rw [heq]; exact hpi, fun j hj hij => ?_⟩, ?_⟩
      · by_contra hpj
        rw [Bool.not_eq_false] at hpj
        rw [hvalid hj hpj] at hpj
        exact absurd (hlast j (by omega) hij) (by simp [hpj])
      · simp [List.getElem?_eq_getElem hi, List.getElem?_eq_getElem hi', heq]
  rw [lastEntry_filter hr, lastEntry_filter hr'.1, hr'.2]

/-- Deleting duplicates does not show: the last valid entry of an id stays. -/
theorem Shadowed.lookup_eq (h : Shadowed es es') : lookup itemId es' = lookup itemId es := by
  have hlen := h.length
  rw [lookup, lookup, h.filter_getLast?]
  · intro e he
    simp only [Bool.and_eq_true, decide_eq_true_eq] at he
    exact he.1
  · intro i hi hi' hr
    obtain ⟨hin, hp, hlast⟩ := hr
    rcases h.entry i hi hi' with heq | ⟨-, -, j, hj, hij, hv, hid⟩
    · exact heq
    · -- the entry standing in would be a later one of the same id
      have hj' : j < es.length := by omega
      have heq := h.eq_of_valid hj' hj hv
      rw [heq] at hv hid
      simp only [Bool.and_eq_true, decide_eq_true_eq] at hp
      have hno := hlast j hj' hij
      simp [hv, hid, hp.2] at hno

/-- Deleting an item of another id. -/
theorem lookup_modify (es : List Entry) {d : Nat} (h : ∀ hd : d < es.length, es[d].itemId ≠ itemId) :
    lookup itemId (es.modify d Entry.drop) = lookup itemId es := by
  have hfilter : (es.modify d Entry.drop).filter (fun e => e.stage = .valid && e.itemId = itemId) =
      es.filter fun e => e.stage = .valid && e.itemId = itemId := by
    induction es generalizing d with
    | nil => simp
    | cons e es ih =>
      cases d with
      | zero =>
        have hne := h (Nat.zero_lt_succ _)
        rw [List.getElem_cons_zero] at hne
        rw [List.modify_zero_cons, List.filter_cons_of_neg, List.filter_cons_of_neg]
        · simp [hne]
        · simp [Entry.drop, Entry.withStage]
      | succ d =>
        have hrest := @ih d fun hd => h (Nat.succ_lt_succ hd)
        rw [List.modify_succ_cons, List.filter_cons, List.filter_cons, hrest]
  rw [lookup, lookup, hfilter]

/-- The copy keeps what is read under the other ids. -/
theorem lookup_survivors {itemId' : Byte} (hne : itemId' ≠ itemId) (es : List Entry) :
    lookup itemId' (survivors c true itemId es) = lookup itemId' es := by
  have hfilter : (survivors c true itemId es).filter (fun e => e.stage = .valid && e.itemId = itemId') =
      (es.filter fun e => e.stage = .valid && e.itemId = itemId').map (Entry.copied c) := by
    rw [survivors, List.filter_map, List.filter_filter]
    congr 1
    refine List.filter_congr fun e _ => ?_
    rw [Bool.eq_iff_iff]
    simp only [Function.comp_apply, survives, Bool.and_eq_true, Bool.not_true, Bool.or_false,
      decide_eq_true_eq]
    change (e.stage = .valid ∧ e.itemId = itemId') ∧ e.stage = .valid ∧ e.itemId ≠ itemId ↔
      e.stage = .valid ∧ e.itemId = itemId'
    constructor
    · exact fun h => h.1
    · exact fun h => ⟨h, h.1, by rw [h.2]; exact hne⟩
  rw [lookup, hfilter, List.getLast?_map, Option.map_map, lookup]
  rfl

theorem lookup_survivors_self (es : List Entry) : ∀ e ∈ survivors c true itemId es, e.itemId ≠ itemId := by
  intro e he
  obtain ⟨e', -, hsurv, rfl⟩ := mem_survivors c true itemId he
  simp only [survives, Bool.not_true, Bool.or_false, Bool.and_eq_true, decide_eq_true_eq] at hsurv
  exact hsurv.2

end Lookup

/-! ### What a write does to later reads -/

section WriteLookup
variable {c : NvCfg} {itemId : Byte} {buf : List Byte} {L : Byte → Nat}

theorem retired_itemId {es : List Entry} {d : Nat} (hne : itemId ≠ itemFieldIdle)
    (h : Retires true itemId buf.length es (some d)) : ∃ hd : d < es.length, es[d].itemId = itemId := by
  obtain ⟨hd, hfound, -⟩ := h.last rfl hne
  simp only [Entry.found, Bool.and_eq_true, decide_eq_true_eq] at hfound
  exact ⟨hd, hfound.1.2⟩

theorem lookup_retireAt {es : List Entry} {d : Option Nat} (hne : itemId ≠ itemFieldIdle)
    (h : Retires true itemId buf.length es d) {itemId' : Byte} (hne' : itemId' ≠ itemId) :
    lookup itemId' (retireAt es d) = lookup itemId' es := by
  cases d with
  | none => rfl
  | some d =>
    obtain ⟨hd, hid⟩ := retired_itemId hne h
    exact lookup_modify es fun _ => by rw [hid]; exact Ne.symm hne'

theorem lookup_newEntry (es es' : List Entry) (itemId' : Byte) :
    lookup itemId' (es ++ [newEntry c true itemId buf es']) =
      if itemId' = itemId then some buf else lookup itemId' es := by
  rw [lookup_append]
  simp [newEntry, eq_comm]

theorem lookup_unfinished {es : List Entry} {e e' : Entry} (h : Unfinished e e') (itemId' : Byte) :
    lookup itemId' (es ++ [e']) = lookup itemId' es := by
  rw [lookup_append, if_neg]
  cases h with
  | opened resv => simp
  | closed => simp

/-- Wherever the power fails during a call, the other items read as before, and its own item
reads as before or as the new payload. -/
theorem WriteCut.lookup_eq {m m' : Contents} (h : WriteCut c true itemId buf m m')
    (hne : itemId ≠ itemFieldIdle) :
    (∀ itemId' ≠ itemId, m'.lookup itemId' = m.lookup itemId') ∧
      (m'.lookup itemId = m.lookup itemId ∨ m'.lookup itemId = some buf) := by
  cases h with
  | same => exact ⟨fun _ _ => rfl, .inl rfl⟩
  | cleaned h => exact ⟨fun _ _ => h.lookup_eq, .inl h.lookup_eq⟩
  | unfinished h => exact ⟨fun _ _ => lookup_unfinished h _, .inl (lookup_unfinished h _)⟩
  | added =>
    refine ⟨fun i hi => ?_, .inr ?_⟩
    · exact (lookup_newEntry _ _ i).trans (if_neg hi)
    · exact (lookup_newEntry _ _ itemId).trans (if_pos rfl)
  | retired h =>
    refine ⟨fun i hi => ?_, .inr ?_⟩
    · exact (lookup_newEntry _ _ i).trans ((if_neg hi).trans (lookup_retireAt hne h hi))
    · exact (lookup_newEntry _ _ itemId).trans (if_pos rfl)
  | first =>
    refine ⟨fun i hi => ?_, .inr ?_⟩
    · exact (lookup_newEntry [] _ i).trans (if_neg hi)
    · exact (lookup_newEntry [] _ itemId).trans (if_pos rfl)
  | @changed q es es' d h hd =>
    refine ⟨fun i hi => ?_, .inr ?_⟩
    · calc lookup i (retireAt (survivors c true itemId es') d ++ [newEntry c true itemId buf _])
          = lookup i (retireAt (survivors c true itemId es') d) :=
            (lookup_newEntry _ _ i).trans (if_neg hi)
        _ = lookup i (survivors c true itemId es') := lookup_retireAt hne hd hi
        _ = lookup i es' := lookup_survivors hi es'
        _ = lookup i es := h.lookup_eq
    · exact (lookup_newEntry _ _ itemId).trans (if_pos rfl)

/-- What a completed call leaves is among what a power failure may leave. -/
theorem WriteEnd.cut {id : Nat} {marked single : Bool} {m m' : Contents} {r : NvSts}
    (h : WriteEnd c id marked single itemId buf m r m') : WriteCut c single itemId buf m m' := by
  cases h with
  | tooLong => exact .same _
  | first => exact .first
  | refused => exact .same _
  | added _ _ hd => exact .retired hd
  | full _ h => exact .cleaned h
  | changed _ h _ hd => exact .changed h hd

/-- A successful call stores its payload, any other call changes nothing that can be read. -/
theorem WriteEnd.lookup_eq {id : Nat} {marked : Bool} {m m' : Contents} {r : NvSts}
    (h : WriteEnd c id marked true itemId buf m r m') :
    (r = .succ → m'.lookup itemId = some buf) ∧
      (r ≠ .succ → ∀ itemId', m'.lookup itemId' = m.lookup itemId') := by
  cases h with
  | tooLong => exact ⟨fun hr => (by cases hr), fun _ _ => rfl⟩
  | refused => exact ⟨fun hr => (by cases hr), fun _ _ => rfl⟩
  | full _ h => exact ⟨fun hr => (by cases hr), fun _ _ => h.lookup_eq⟩
  | first =>
    exact ⟨fun _ => (lookup_newEntry [] _ itemId).trans (if_pos rfl), fun hr => absurd rfl hr⟩
  | added =>
    exact ⟨fun _ => (lookup_newEntry _ _ itemId).trans (if_pos rfl), fun hr => absurd rfl hr⟩
  | changed =>
    exact ⟨fun _ => (lookup_newEntry _ _ itemId).trans (if_pos rfl), fun hr => absurd rfl hr⟩

theorem Contents.Uniform.lookup_length {m : Contents} (h : m.Uniform L) {p : List Byte}
    (hp : m.lookup itemId = some p) : p.length = L itemId := by
  cases m with
  | fresh => cases hp
  | active q es =>
    obtain ⟨e, he, rfl⟩ := Option.map_eq_some_iff.mp hp
    obtain ⟨hmem, hsel⟩ := List.mem_filter.mp (List.mem_of_getLast? he)
    simp only [Bool.and_eq_true, decide_eq_true_eq] at hsel
    rw [h e hmem, hsel.2]

theorem Uniform.append {es : List Entry} (h : Uniform L es) {e : Entry}
    (he : e.payload.length = L e.itemId) : Uniform L (es ++ [e]) := by
  intro x hx
  rcases List.mem_append.mp hx with hx | hx
  · exact h x hx
  · rw [List.mem_singleton.mp hx]
    exact he

theorem Uniform.modify {es : List Entry} (h : Uniform L es) (d : Nat) :
    Uniform L (es.modify d Entry.drop) := by
  intro x hx
  obtain ⟨i, hi, rfl⟩ := List.mem_iff_getElem.mp hx
  rw [List.length_modify] at hi
  have hx := h es[i] (List.getElem_mem hi)
  rw [List.getElem_modify]
  split_ifs
  · exact hx
  · exact hx

theorem Uniform.retireAt {es : List Entry} (h : Uniform L es) (d : Option Nat) :
    Uniform L (retireAt es d) := by
  cases d with
  | none => exact h
  | some d => exact h.modify d

theorem Uniform.shadowed {es es' : List Entry} (h : Uniform L es) (hs : Shadowed es es') :
    Uniform L es' := by
  intro x hx
  obtain ⟨i, hi, rfl⟩ := List.mem_iff_getElem.mp hx
  have hi' : i < es.length := by
    have := hs.length
    omega
  have hx := h es[i] (List.getElem_mem hi')
  rcases hs.entry i hi' hi with heq | ⟨-, hdrop, -⟩
  · rw [heq]
    exact hx
  · rw [hdrop]
    exact hx

theorem Uniform.survivors {es : List Entry} (h : Uniform L es) (single : Bool) (itemId : Byte) :
    Uniform L (survivors c single itemId es) := by
  intro x hx
  obtain ⟨e, he, -, rfl⟩ := mem_survivors c single itemId hx
  exact h e he

theorem WriteCut.uniform {single : Bool} {m m' : Contents} (h : WriteCut c single itemId buf m m')
    (hbuf : buf.length = L itemId) (hu : m.Uniform L) : m'.Uniform L := by
  cases h with
  | same => exact hu
  | cleaned h => exact hu.shadowed h
  | unfinished h =>
    refine hu.append ?_
    cases h with
    | opened resv => exact hbuf
    | closed => exact hbuf
  | added => exact hu.append hbuf
  | retired => exact (hu.retireAt _).append hbuf
  | first => exact Uniform.append (fun _ he => absurd he List.not_mem_nil) hbuf
  | changed h => exact (((hu.shadowed h).survivors single itemId).retireAt _).append hbuf

end WriteLookup

/-! ### Reading -/

section Read
variable {c : NvCfg} {id : Nat} {marked : Bool} {f : Flash} {itemId : Byte}

/-- A valid entry reads back, up to the registered length. -/
theorem nvFlashReadByIndex_entry (hid : id < dsMaxModuls) {s : Nat} (hs : s < 2) {es : List Entry}
    (h : SectorTable c id s marked f es) (g : NvItemLenCheck) {i len : Nat} (hi : i < es.length)
    (hfound : es[i].found itemId len = true) :
    nvFlashReadByIndex c g f id itemId s i len =
      (.succ, some (es[i].payload.take (nvItemLengthValidCheck g itemId es[i].payload.length))) := by
  simp only [Entry.found, Bool.and_eq_true, decide_eq_true_eq] at hfound
  obtain ⟨⟨hv, hitem⟩, hmatch⟩ := hfound
  have hh : es[i].stage.hasHdr = true := by
    rw [hv]
    rfl
  have hflag : itemValidFlagCheck es[i].state = true := by
    rw [Entry.state_validFlag, hv]
    rfl
  have hentry := (h.entry i hi).item hh
  have hhdr := h.readItemHdr_entry hi hh
  have hsize := es[i].size_eq
  generalize hoff : itemOff c id s (es.take i) = off at *
  have hpay : bytes f (off + 8) es[i].payload.length = es[i].payload := by
    have hb := bytes_sub hentry 8 es[i].payload.length (by omega)
    rwa [List.drop_left' (ItemHdr.encode_length _), List.take_length] at hb
  have hreal : nvItemLengthValidCheck g itemId es[i].payload.length ≤ es[i].payload.length := by
    unfold nvItemLengthValidCheck
    split
    · exact Nat.min_le_right _ _
    · exact Nat.le_refl _
  generalize hk : nvItemLengthValidCheck g itemId es[i].payload.length = k at *
  have hfirst : bytes f (off + 8) k = es[i].payload.take k := by
    simpa using bytes_sub hpay 0 k (by omega)
  have hrest : bytes f (off + 8 + k) (es[i].payload.length - k) = es[i].payload.drop k := by
    rw [bytes_sub hpay k _ (by omega)]
    exact List.take_of_length_le (Nat.le_of_eq List.length_drop)
  have hcrc : xcrc32 (es[i].hdr c off).tail (xcrc32 (bytes f (off + 8 + k) (es[i].payload.length - k))
      (xcrc32 (bytes f (off + 8) k) 0xffffffff)) = es[i].payloadCrc := by
    rw [hrest, hfirst, ← xcrc32_append (es[i].payload.take k), List.take_append_drop]
    rfl
  rw [nvFlashReadByIndex, h.readInfoIdx_entry hid hs hi, hoff]
  have hoffset : (es[i].idx off).offset = off := rfl
  have hstate : (es[i].idx off).usedState = es[i].state := rfl
  have hcond : (nvItemlenMatch (es[i].hdr c off).size len && itemHdrValidCheck (es[i].hdr c off).used &&
      decide ((es[i].hdr c off).itemId = itemId)) = true := by
    change (nvItemlenMatch es[i].payload.length len && itemHdrValidCheck itemHdrFieldValidCheckcrc &&
      decide (es[i].itemId = itemId)) = true
    rw [hmatch, decide_eq_true hitem]
    rfl
  have hlen : (es[i].hdr c off).size = es[i].payload.length := rfl
  have hused : ¬ (es[i].hdr c off).used = itemHdrFieldValidChecksum := by
    change ¬ itemHdrFieldValidCheckcrc = itemHdrFieldValidChecksum
    decide
  have hlow : ¬ es[i].payloadCrc &&& 0xffff#32 ≠ (es[i].hdr c off).checkSum &&& 0xffff#32 := by
    rw [Entry.hdr_checkSum, checkSum_low]
    exact fun h => h rfl
  dsimp only
  rw [hstate, hflag, hoffset, hhdr, hcond, hlen, hk, if_neg hused,
    flashCrcLoop_eq _ 32 (by decide) _ _ _ _ (Nat.le_refl _), flashRead_eq]
  change (if false = true then _ else if true = true then
    (if xcrc32 (es[i].hdr c off).tail (xcrc32 (bytes f (off + 8 + k) (es[i].payload.length - k))
      (xcrc32 (bytes f (off + 8) k) 0xffffffff)) &&& 0xffff#32 ≠ _ then _ else _,
      some (bytes f (off + 8) k)) else _) = _
  rw [hcrc, if_neg Bool.false_ne_true, if_pos rfl, if_neg hlow, hfirst]

/-- A read returns the payload of the last valid item and leaves the flash as it is. -/
theorem nvFlashReadNew_wp (hid : id < dsMaxModuls) (hfc : id ≠ dsNwkFramecountModule) {m : Contents}
    (h : ModuleRep c id marked f m) {L : Byte → Nat} (hu : m.Uniform L) (hne : itemId ≠ itemFieldIdle)
    {g : NvItemLenCheck} (hg : nvItemLengthValidCheck g itemId (L itemId) = L itemId) :
    wp (InModule c id) (nvFlashReadNew c g id itemId (L itemId))
      (fun r f' => r = readResult (m.lookup itemId) ∧ f' = f) (fun f' => f' = f) f := by
  have hid' : id < 256 := Nat.lt_trans hid (by decide)
  rw [nvFlashReadNew, if_neg hfc]
  apply wp_bind
  cases h with
  | fresh dead₀ dead₁ table₀ table₁ =>
    apply wp_mono (nvSectorRead_fresh dead₀ dead₁)
    · intro r f' hpost
      obtain ⟨rfl, rfl⟩ := hpost
      exact wp_pure ⟨rfl, rfl⟩ rfl
    · exact fun _ h => h
  | @active q es headers rep used table =>
    have hs := sectOf_lt q
    have htable := rep.toSectorTable
    -- with uniform lengths a valid entry of the id is found
    have hfound : ∀ e ∈ es, e.found itemId (L itemId) =
        (decide (e.stage = .valid) && decide (e.itemId = itemId)) := by
      intro e he
      have hlen := hu e he
      by_cases hitem : e.itemId = itemId
      · rw [hitem] at hlen
        simp [Entry.found, hitem, hlen, nvItemlenMatch]
      · simp [Entry.found, hitem]
    have hlast := nvIndexRead_item hid hs htable hne (L itemId)
    have hlookup : lookup itemId es = ((nvIndexRead c f id itemId (L itemId) (sectOf q)
        (moduleIdxNum c id)).bind fun i => es[i]?).map Entry.payload := by
      rw [lookup, ← List.filter_congr hfound, lastEntry_filter hlast]
    apply wp_mono (nvSectorRead_read hid' headers)
    swap
    · exact fun _ h => h
    intro r f' hpost
    obtain ⟨rfl, rfl⟩ := hpost
    dsimp only
    rw [mkSectInfo_sect headers.seq]
    refine wp_bind (wp_query ?_ rfl)
    change Contents.lookup itemId (.active q es) = _ at hlookup
    rw [hlookup]
    generalize hr : nvIndexRead c f' id itemId (L itemId) (sectOf q) (moduleIdxNum c id) = r at hlast
    cases r with
    | none => exact wp_pure ⟨rfl, rfl⟩ rfl
    | some i =>
      obtain ⟨hi, hfnd, -⟩ := hlast
      have hbyIndex := nvFlashReadByIndex_entry hid hs htable g hi hfnd
      have hlen : es[i].payload.length = L itemId := by
        have hitem : es[i].itemId = itemId := by
          simp only [Entry.found, Bool.and_eq_true, decide_eq_true_eq] at hfnd
          exact hfnd.1.2
        rw [hu _ (List.getElem_mem hi), hitem]
      rw [hlen, hg, List.take_of_length_le (Nat.le_of_eq hlen)] at hbyIndex
      refine wp_bind (wp_query ?_ rfl)
      rw [hbyIndex]
      simp only [reduceCtorEq, if_false]
      refine wp_pure ⟨?_, rfl⟩ rfl
      simp [List.getElem?_eq_getElem hi, readResult]

end Read

end Rf4ce.Nv

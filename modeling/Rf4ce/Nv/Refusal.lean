import Rf4ce.Nv.FiniteMap
import Mathlib.Data.List.Nodup

/-! When `nv_flashWriteNew` refuses an item that would fit. The handler tests the room behind the
last item without rounding its end up to a word, `nv_write_item` places the item behind the
rounded end. -/
namespace Rf4ce.Nv
open Crash Drv Common

/-! ### Logs written without interruption -/

/-- A log in which no id is valid twice and the last entry is valid. -/
structure Tidy (es : List Entry) : Prop where
  distinct : es.Pairwise fun a b => a.stage = .valid → b.stage = .valid → a.itemId ≠ b.itemId
  last : ∀ e, es.getLast? = some e → e.stage = .valid

def Contents.Tidy : Contents → Prop
  | .fresh => True
  | .active _ es => Nv.Tidy es

section Tidy
variable {c : NvCfg} {itemId : Byte} {buf : List Byte} {L : Byte → Nat} {es : List Entry}

/-- Without duplicates there is nothing to clean up. -/
theorem Tidy.shadowed_eq (h : Tidy es) {es' : List Entry} (hs : Shadowed es es') : es' = es := by
  have hlen := hs.length
  refine List.ext_getElem hlen fun i h₁ h₂ => ?_
  rcases hs.entry i h₂ h₁ with heq | ⟨hv, -, j, hj, hij, hvj, hid⟩
  · exact heq
  · have hj' : j < es.length := by omega
    have heq := hs.eq_of_valid hj' hj hvj
    rw [heq] at hvj hid
    have hne := List.pairwise_iff_getElem.mp h.distinct i j h₂ hj' hij hv hvj
    exact absurd hid.symm hne

theorem Tidy.chainOk (h : Tidy es) (id s : Nat) : chainOk c id s es = true := by
  unfold Nv.chainOk
  cases hlast : es.getLast? with
  | none => rfl
  | some e => exact Entry.crcOk_of_valid (h.last e hlast) c _

theorem found_uniform (hu : Uniform L es) (hbuf : buf.length = L itemId) {e : Entry} (he : e ∈ es) :
    e.found itemId buf.length = (decide (e.stage = .valid) && decide (e.itemId = itemId)) := by
  have hlen := hu e he
  by_cases hitem : e.itemId = itemId
  · rw [hitem, ← hbuf] at hlen
    simp [Entry.found, hitem, hlen, nvItemlenMatch]
  · simp [Entry.found, hitem]

/-- Behind the retired entry no valid one of the same id is left. -/
theorem retireAt_no_valid (h : es.Pairwise fun a b => a.stage = .valid → b.stage = .valid →
      a.itemId ≠ b.itemId) (hu : Uniform L es) (hbuf : buf.length = L itemId)
    (hne : itemId ≠ itemFieldIdle) {d : Option Nat} (hd : Retires true itemId buf.length es d) :
    ∀ a ∈ retireAt es d, a.stage = .valid → a.itemId ≠ itemId := by
  have hlast := hd.last rfl hne
  intro a ha hv hid
  cases d with
  | none =>
    have hno := hlast a ha
    rw [found_uniform hu hbuf ha, hv, hid] at hno
    simp at hno
  | some d =>
    obtain ⟨hdl, hfound, hafter⟩ := hlast
    obtain ⟨j, hj, rfl⟩ := List.mem_iff_getElem.mp ha
    have hj' : j < es.length := by simpa using hj
    rw [retireAt_getElem hj' hj] at hv hid
    by_cases hdj : d = j
    · rw [if_pos hdj] at hv
      exact absurd hv (by simp [Entry.drop])
    · rw [if_neg hdj] at hv hid
      have hfj := found_uniform hu hbuf (List.getElem_mem hj')
      rw [hv, hid, decide_eq_true rfl, decide_eq_true rfl] at hfj
      rw [found_uniform hu hbuf (List.getElem_mem hdl)] at hfound
      simp only [Bool.and_eq_true, decide_eq_true_eq] at hfound
      rcases Nat.lt_or_gt_of_ne hdj with hlt | hgt
      · rw [hafter j hj' hlt] at hfj
        exact Bool.false_ne_true hfj
      · have hdist := List.pairwise_iff_getElem.mp h j d hj' hdl hgt hv hfound.1
        exact hdist (hid.trans hfound.2.symm)

theorem distinct_retireAt (h : es.Pairwise fun a b => a.stage = .valid → b.stage = .valid →
      a.itemId ≠ b.itemId) (d : Option Nat) :
    (retireAt es d).Pairwise fun a b => a.stage = .valid → b.stage = .valid → a.itemId ≠ b.itemId := by
  cases d with
  | none => exact h
  | some d =>
    refine List.pairwise_iff_getElem.mpr fun i j hi hj hij hvi hvj => ?_
    have hlen : (retireAt es (some d)).length = es.length := List.length_modify ..
    have hkeep {k : Nat} (hk : k < (retireAt es (some d)).length)
        (hv : (retireAt es (some d))[k].stage = .valid) :
        ∃ hk' : k < es.length, (retireAt es (some d))[k] = es[k] := by
      have hk' : k < es.length := by omega
      refine ⟨hk', ?_⟩
      rw [retireAt_getElem hk' hk] at hv ⊢
      by_cases hdk : d = k
      · rw [if_pos hdk] at hv
        exact absurd hv (by simp [Entry.drop])
      · rw [if_neg hdk]
    obtain ⟨hi', heqi⟩ := hkeep hi hvi
    obtain ⟨hj', heqj⟩ := hkeep hj hvj
    rw [heqi] at hvi ⊢
    rw [heqj] at hvj ⊢
    exact List.pairwise_iff_getElem.mp h i j hi' hj' hij hvi hvj

/-- Adding the new item behind the log it is retired from. -/
theorem tidy_added (h : es.Pairwise fun a b => a.stage = .valid → b.stage = .valid →
      a.itemId ≠ b.itemId) (hu : Uniform L es) (hbuf : buf.length = L itemId)
    (hne : itemId ≠ itemFieldIdle) {d : Option Nat} (hd : Retires true itemId buf.length es d)
    (es' : List Entry) : Tidy (retireAt es d ++ [newEntry c true itemId buf es']) := by
  refine ⟨List.pairwise_append.mpr ⟨distinct_retireAt h d, List.pairwise_singleton _ _, ?_⟩, ?_⟩
  · intro a ha b hb hva hvb
    rw [List.mem_singleton.mp hb]
    exact retireAt_no_valid h hu hbuf hne hd a ha hva
  · intro e he
    rw [List.getLast?_concat] at he
    rw [← Option.some.inj he]
    rfl

theorem Tidy.survivors (h : Tidy es) : (survivors c true itemId es).Pairwise
    fun a b => a.stage = .valid → b.stage = .valid → a.itemId ≠ b.itemId := by
  refine List.pairwise_map.mpr ((h.distinct.filter _).imp fun hab hva hvb => ?_)
  exact hab hva hvb

theorem WriteEnd.tidy {id : Nat} {marked : Bool} {m m' : Contents} {r : NvSts}
    (h : WriteEnd c id marked true itemId buf m r m') (hu : m.Uniform L) (ht : m.Tidy)
    (hbuf : buf.length = L itemId) (hne : itemId ≠ itemFieldIdle) : m'.Tidy := by
  cases h with
  | tooLong => exact ht
  | refused => exact ht
  | first =>
    have hnil : Retires true itemId buf.length [] none :=
      ⟨fun d hd => (by cases hd), fun _ => rfl, fun _ _ e he => absurd he List.not_mem_nil⟩
    exact @tidy_added c itemId buf L [] .nil (fun e he => absurd he List.not_mem_nil) hbuf hne _ hnil _
  | added hroom hacc hd => exact tidy_added ht.distinct hu hbuf hne hd _
  | full hroom hs =>
    have heq := Nv.Tidy.shadowed_eq ht hs
    rw [heq]
    exact ht
  | changed hroom hs hfits hd =>
    have heq := Nv.Tidy.shadowed_eq ht hs
    subst heq
    exact tidy_added (Nv.Tidy.survivors ht) (Nv.Uniform.survivors hu true itemId) hbuf hne hd _

end Tidy

/-! ### What has to survive -/

/-- The ids stored besides `itemId`. -/
def Stored.others (m : Stored) (itemId : Byte) : List Byte :=
  ((List.range 256).map (BitVec.ofNat 8)).filter fun i => (m i).isSome && i ≠ itemId

/-- The items that must survive and the new one fit into one sector. -/
def FitsSector (c : NvCfg) (id : Nat) (L : Byte → Nat) (m : Stored) (itemId : Byte) : Prop :=
  ((m.others itemId).map fun i => roundUp4 (itemTotalLen (L i))).sum + itemTotalLen (L itemId) ≤
      nvSectorSize id - moduleInfoSize id ∧
    (m.others itemId).length + 1 ≤ moduleIdxNum c id

instance (c : NvCfg) (id : Nat) (L : Byte → Nat) (m : Stored) (itemId : Byte) :
    Decidable (FitsSector c id L m itemId) := inferInstanceAs (Decidable (_ ∧ _))

section Survive
variable {c : NvCfg} {id : Nat} {itemId : Byte} {L : Byte → Nat} {es : List Entry} {m : Stored}

theorem mem_others {i : Byte} : i ∈ m.others itemId ↔ (m i).isSome ∧ i ≠ itemId := by
  have hall : i ∈ (List.range 256).map (BitVec.ofNat 8) :=
    List.mem_map.mpr ⟨i.toNat, List.mem_range.mpr i.isLt, BitVec.ofNat_toNat ..⟩
  simp only [Stored.others, List.mem_filter, hall, true_and, Bool.and_eq_true, decide_eq_true_eq]

theorem nodup_others : (m.others itemId).Nodup := by
  have hall : ((List.range 256).map (BitVec.ofNat 8)).Nodup := by
    refine List.nodup_range.map_on fun a ha b hb hab => ?_
    have ha' := List.mem_range.mp ha
    have hb' := List.mem_range.mp hb
    have h := congrArg BitVec.toNat hab
    simp only [BitVec.toNat_ofNat] at h
    omega
  exact hall.filter _

theorem lookup_isSome {i : Byte} :
    (lookup i es).isSome ↔ ∃ e ∈ es, e.stage = .valid ∧ e.itemId = i := by
  constructor
  · intro h
    obtain ⟨p, hp⟩ := Option.isSome_iff_exists.mp h
    obtain ⟨e, he, -⟩ := Option.map_eq_some_iff.mp hp
    obtain ⟨hmem, hcond⟩ := List.mem_filter.mp (List.mem_of_getLast? he)
    exact ⟨e, hmem, by simpa using hcond⟩
  · intro h
    obtain ⟨e, hmem, hcond⟩ := h
    have hne : es.filter (fun e => e.stage = .valid && e.itemId = i) ≠ [] :=
      List.ne_nil_of_mem (List.mem_filter.mpr ⟨hmem, by simpa using hcond⟩)
    rw [lookup, List.getLast?_eq_some_getLast hne]
    rfl

/-- The copied entries are the items that must survive, each once. -/
theorem survivors_perm (h : Tidy es) (hlook : ∀ i, lookup i es = m i) :
    ((survivors c true itemId es).map Entry.itemId).Perm (m.others itemId) := by
  have hnodup : ((survivors c true itemId es).map Entry.itemId).Nodup := by
    refine List.pairwise_map.mpr (List.Pairwise.imp_of_mem ?_ h.survivors)
    intro a b ha hb hab
    exact hab (survivors_valid c true itemId ha) (survivors_valid c true itemId hb)
  refine (List.perm_ext_iff_of_nodup hnodup nodup_others).mpr fun i => ?_
  rw [mem_others, ← hlook, lookup_isSome]
  constructor
  · intro hi
    obtain ⟨e, he, rfl⟩ := List.mem_map.mp hi
    obtain ⟨e', hmem, hsurv, rfl⟩ := mem_survivors c true itemId he
    simp only [survives, Bool.and_eq_true, decide_eq_true_eq, Bool.not_true, Bool.or_false] at hsurv
    exact ⟨⟨e', hmem, hsurv.1, rfl⟩, hsurv.2⟩
  · intro hi
    obtain ⟨⟨e, hmem, hv, rfl⟩, hne⟩ := hi
    have hsurv : survives true itemId e = true := by simp [survives, hv, hne]
    exact List.mem_map.mpr ⟨e.copied c,
      List.mem_map.mpr ⟨e, List.mem_filter.mpr ⟨hmem, hsurv⟩, rfl⟩, rfl⟩

theorem moduleInfoSize_le (id : Nat) : moduleInfoSize id ≤ nvSectorSize id := by
  rcases moduleInfoSize_cases id with ⟨h, h'⟩ | ⟨h, h'⟩ <;> omega

/-- After a sector change there is room for an item that fits. -/
theorem survivors_fit (h : Tidy es) (hu : Uniform L es) (hlook : ∀ i, lookup i es = m i)
    (hfits : FitsSector c id L m itemId) (s : Nat) :
    (survivors c true itemId es).length < moduleIdxNum c id ∧
      itemOff c id s (survivors c true itemId es) + itemTotalLen (L itemId) ≤ moduleSectEnd c id s := by
  obtain ⟨hsum, hcount⟩ := hfits
  have hperm := @survivors_perm c itemId es m h hlook
  have hlen := hperm.length_eq
  rw [List.length_map] at hlen
  have hslots : (survivors c true itemId es).map Entry.slotLen =
      ((survivors c true itemId es).map Entry.itemId).map fun i => roundUp4 (itemTotalLen (L i)) := by
    rw [List.map_map]
    refine List.map_congr_left fun e he => ?_
    have hlen := hu.survivors (c := c) true itemId e he
    simp only [Function.comp_apply, ← hlen]
    rfl
  have hsum' := (hperm.map fun i => roundUp4 (itemTotalLen (L i))).sum_nat
  rw [← hslots] at hsum'
  refine ⟨by omega, ?_⟩
  have hinfo := moduleInfoSize_le id
  rw [itemOff, moduleContextStart_eq, moduleSectEnd_eq, hsum']
  omega

end Survive

/-! ### The refusal -/

/-- The new item fits behind the end of the last one in the current sector as it stands, but
not behind that end rounded up to a word. -/
def alignGap (c : NvCfg) (id : Nat) (f : Flash) (len : Nat) : Bool :=
  match ((nvSectorRead c false id).value f).2 with
  | none => false
  | some sectInfo =>
    let opSect := sectInfo.opSect.toNat % moduleSectorNum
    match nvIndexRead c f id itemFieldIdle len opSect (moduleIdxNum c id) with
    | none => false
    | some w =>
      let idxInfo := readInfoIdx c f (idxAddr c id opSect w)
      w + 1 < moduleIdxNum c id &&
        idxInfo.offset + idxInfo.size + itemTotalLen len ≤ moduleSectEnd c id opSect &&
        moduleSectEnd c id opSect < roundUp4 (idxInfo.offset + idxInfo.size) + itemTotalLen len

section Refusal
variable {c : NvCfg} {id : Nat} {L : Byte → Nat} {f : Flash}

theorem alignGap_fresh (h : ModuleRep c id false f .fresh) (len : Nat) : alignGap c id f len = false := by
  cases h with
  | fresh dead₀ dead₁ table₀ table₁ =>
    have hread := (wp_result (@nvSectorRead_fresh c id f false (fun _ => True) dead₀ dead₁)).1
    simp only [alignGap, hread]

variable (hid : id < dsMaxModuls)
include hid

theorem alignGap_active {q : Byte} {es : List Entry} (h : ModuleRep c id false f (.active q es))
    (len : Nat) : alignGap c id f len = true ↔ es.length < moduleIdxNum c id ∧
      lastEnd c id (sectOf q) es + itemTotalLen len ≤ moduleSectEnd c id (sectOf q) ∧
      moduleSectEnd c id (sectOf q) < itemOff c id (sectOf q) es + itemTotalLen len := by
  cases h with
  | active headers rep used table =>
    have hs := sectOf_lt q
    have hid' : id < 256 := Nat.lt_trans hid (by decide)
    have hpos := List.length_pos_iff.mpr used
    have hi : es.length - 1 < es.length := by omega
    have hread := (wp_result (@nvSectorRead_read c id hid' f q headers (fun _ => True))).1
    have hindex : nvIndexRead c f id itemFieldIdle len (sectOf q) (moduleIdxNum c id) =
        some (es.length - 1) := by
      rcases nvIndexRead_idle hid hs rep.toSectorTable len rfl with ⟨-, hr⟩ | ⟨hm, -⟩
      · rw [hr, if_neg used]
      · exact absurd hm (by decide)
    have hentry := rep.readInfoIdx_entry hid hs hi
    have hend := @lastEnd_getElem c id (sectOf q) es _ hi (by omega)
    have hoff : roundUp4 (lastEnd c id (sectOf q) es) = itemOff c id (sectOf q) es := by
      have htake : es.take (es.length - 1 + 1) = es := List.take_of_length_le (by omega)
      have hsucc := @itemOff_take_succ c id (sectOf q) es _ hi
      rw [htake] at hsucc
      rw [hsucc, hend, roundUp4_itemOff]
    simp only [alignGap, hread, mkSectInfo_sect headers.seq, hindex, hentry, Entry.idx, ← hend, hoff,
      Bool.and_eq_true, decide_eq_true_eq]
    omega

variable (hfc : id ≠ dsNwkFramecountModule)
include hfc

theorem runWrites_tidy {ws : List WriteCall} (hws : ∀ w ∈ ws, w.Ok L) {m : Stored} {k : Contents}
    (h : MapRep c id L f m k) (ht : k.Tidy) :
    ∃ k', MapRep c id L (runWrites c id ws (f, m)).1 (runWrites c id ws (f, m)).2 k' ∧ k'.Tidy := by
  induction ws generalizing f m k with
  | nil => exact ⟨k, h, ht⟩
  | cons w ws ih =>
    have hw := hws w List.mem_cons_self
    obtain ⟨k', hend, h'⟩ := h.write hid hfc hw
    have ht' := hend.tidy h.uniform ht hw.2 hw.1.ne_idle
    exact ih (fun w hw => hws w (List.mem_cons_of_mem _ hw)) h' ht'

/-- **When a fitting write is refused.** A call whose item fits beside the items that must survive
succeeds unless the two computations of its place differ across the end of the sector. -/
theorem nvFlashWriteNew_accepts_iff (hf : Erased c id f) {ws : List WriteCall}
    (hws : ∀ w ∈ ws, w.Ok L) {w : WriteCall} (hw : w.Ok L)
    (hfits : FitsSector c id L (runWrites c id ws (f, fun _ => none)).2 w.itemId) :
    (w.prog c id).value (runWrites c id ws (f, fun _ => none)).1 = .succ ↔
      alignGap c id (runWrites c id ws (f, fun _ => none)).1 w.buf.length = false := by
  obtain ⟨k, h, ht⟩ := runWrites_tidy hid hfc hws (mapRep_erased (L := L) hf) trivial
  generalize runWrites c id ws (f, fun _ => none) = st at h hfits ⊢
  obtain ⟨k', hend, -⟩ := h.write hid hfc hw
  have hrep := h.rep
  have hlook := h.look
  have hu := h.uniform
  have hbuf := hw.2
  generalize (w.prog c id).value st.1 = ret at hend ⊢
  cases hend with
  | tooLong hlong =>
    have hsum := hfits.1
    have hinfo := moduleInfoSize_le id
    rw [hbuf] at hlong
    omega
  | first => exact iff_of_true rfl (alignGap_fresh hrep _)
  | @refused q es hroom hacc =>
    have hnil : es ≠ [] := by
      cases hrep with
      | active headers rep used table => exact used
    have hplace : ¬ itemOff c id (sectOf q) es + itemTotalLen w.buf.length ≤ moduleSectEnd c id (sectOf q) :=
      fun hle => hacc ⟨Nv.Tidy.chainOk ht id _, hle⟩
    refine iff_of_false (by decide) ?_
    rw [Bool.not_eq_false, alignGap_active hid hrep]
    rcases hroom with hroom | ⟨hn, hend⟩
    · exact absurd hroom hnil
    · exact ⟨hn, hend, by omega⟩
  | @added q es d hroom hacc hd =>
    refine iff_of_true rfl ?_
    rw [← Bool.not_eq_true, alignGap_active hid hrep]
    have hplace := hacc.fits
    omega
  | @full q es es' hroom hs hfull =>
    obtain rfl := Nv.Tidy.shadowed_eq ht hs
    obtain ⟨hn, hfit⟩ := survivors_fit ht hu hlook hfits (1 - sectOf q)
    rw [hbuf] at hfull
    omega
  | @changed q es es' d hroom hs hfit hd =>
    refine iff_of_true rfl ?_
    rw [← Bool.not_eq_true, alignGap_active hid hrep]
    intro hgap
    exact hroom rfl (.inr ⟨hgap.1, hgap.2.1⟩)

end Refusal

/-- A second item of one byte behind a first one. -/
theorem nvFlashWriteNew_accepts_iff_two :
    FitsSector ⟨false, false⟩ 0 (fun _ => 1)
        (runWrites ⟨false, false⟩ 0 [⟨true, 1, [0x11]⟩] (fun _ => 0xff, fun _ => none)).2 2 ∧
      ((WriteCall.prog ⟨false, false⟩ 0 ⟨true, 2, [0x22]⟩).value
          (runWrites ⟨false, false⟩ 0 [⟨true, 1, [0x11]⟩] (fun _ => 0xff, fun _ => none)).1 = .succ ↔
        alignGap ⟨false, false⟩ 0
          (runWrites ⟨false, false⟩ 0 [⟨true, 1, [0x11]⟩] (fun _ => 0xff, fun _ => none)).1 1 = false) :=
  have hfits : FitsSector ⟨false, false⟩ 0 (fun _ => 1)
      (runWrites ⟨false, false⟩ 0 [⟨true, 1, [0x11]⟩] (fun _ => 0xff, fun _ => none)).2 2 := by
    decide +kernel
  ⟨hfits, @nvFlashWriteNew_accepts_iff ⟨false, false⟩ 0 (fun _ => 1) (fun _ => 0xff) (by decide)
    (by decide) (fun _ _ => rfl) [⟨true, 1, [0x11]⟩]
    (fun w hw => by rw [List.mem_singleton.mp hw]; exact ⟨⟨by decide, by decide⟩, rfl⟩)
    ⟨true, 2, [0x22]⟩ ⟨⟨by decide, by decide⟩, rfl⟩ hfits⟩

/-- Item 1 of one byte is written twice; an item of 3811 bytes then fits beside it in a sector of
module 0, and is refused. -/
theorem nvFlashWriteNew_refuses_fitting :
    FitsSector ⟨false, false⟩ 0 (fun i => if i = 1 then 1 else 3811)
        (runWrites ⟨false, false⟩ 0 [⟨true, 1, [0x11]⟩, ⟨true, 1, [0x11]⟩]
          (fun _ => 0xff, fun _ => none)).2 2 ∧
      (WriteCall.prog ⟨false, false⟩ 0 ⟨true, 2, List.replicate 3811 0⟩).value
        (runWrites ⟨false, false⟩ 0 [⟨true, 1, [0x11]⟩, ⟨true, 1, [0x11]⟩]
          (fun _ => 0xff, fun _ => none)).1 = .itemCheckError := by
  decide +kernel

end Rf4ce.Nv

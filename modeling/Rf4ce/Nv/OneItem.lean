import Rf4ce.Nv.Durable
import Rf4ce.Nv.Refusal

/-! A module for one small item. Its log never runs out of room, and nothing but an entry that a power
failure left unfinished stands in the way of the next write. -/
namespace Rf4ce.Nv
open Crash Drv Common

/-- The last entry of the log is finished. -/
def Contents.Whole : Contents → Prop
  | .fresh => True
  | .active _ es => ∀ e, es.getLast? = some e → e.stage = .valid

/-- A sector takes an item of `len` bytes for every entry of its index. -/
structure Roomy (c : NvCfg) (id len : Nat) : Prop where
  first : itemTotalLen len + moduleInfoSize id ≤ nvSectorSize id
  all : ∀ s, moduleContextStart c id s + moduleIdxNum c id * roundUp4 (itemTotalLen len) ≤ moduleSectEnd c id s

section Log
variable {c : NvCfg} {id n : Nat} {itemId : Byte} {buf : List Byte} {es : List Entry} {k k' : Contents}

theorem itemOff_uniform (s : Nat) (h : Uniform (fun _ => n) es) :
    itemOff c id s es = moduleContextStart c id s + es.length * roundUp4 (itemTotalLen n) := by
  rw [itemOff]
  have hslot : ∀ e ∈ es, e.slotLen = roundUp4 (itemTotalLen n) := by
    intro e he
    rw [Entry.slotLen, Entry.size, h e he]
  rw [List.map_congr_left hslot, List.map_const', List.sum_replicate_nat]

theorem Roomy.room (h : Roomy c id n) (s : Nat) (hu : Uniform (fun _ => n) es) (hlen : es.length < moduleIdxNum c id) :
    itemOff c id s es + itemTotalLen n ≤ moduleSectEnd c id s := by
  have hround : itemTotalLen n ≤ roundUp4 (itemTotalLen n) := by
    unfold roundUp4
    omega
  have hall := h.all s
  have hmul : (es.length + 1) * roundUp4 (itemTotalLen n) ≤ moduleIdxNum c id * roundUp4 (itemTotalLen n) :=
    Nat.mul_le_mul_right _ hlen
  rw [itemOff_uniform s hu]
  rw [Nat.succ_mul] at hmul
  omega

/-- A write that succeeds ends in a finished entry. -/
theorem WriteEnd.whole {marked single : Bool} (h : WriteEnd c id marked single itemId buf k .succ k') : k'.Whole := by
  have hnew {es es' : List Entry} : ∀ e, (es' ++ [newEntry c single itemId buf es]).getLast? = some e →
      e.stage = .valid := by
    intro e he
    rw [List.getLast?_concat] at he
    obtain rfl := Option.some.inj he
    rfl
  cases h with
  | first => exact @hnew [] []
  | added => exact hnew
  | changed => exact hnew

/-- Behind a finished entry there is always room for the only item. -/
theorem WriteEnd.succ_of_whole {r : NvSts} (h : WriteEnd c id false true itemId buf k r k') (hroomy : Roomy c id n)
    (hu : k.Uniform fun _ => n) (honly : ∀ i ≠ itemId, k.lookup i = none) (hwhole : k.Whole)
    (hbuf : buf.length = n) : r = .succ := by
  subst hbuf
  cases h with
  | tooLong hlong => exact absurd hroomy.first (by omega)
  | first => rfl
  | @refused q es hroom hacc =>
    refine absurd ⟨?_, ?_⟩ hacc
    · unfold chainOk
      cases hlast : es.getLast? with
      | none => rfl
      | some e => exact Entry.crcOk_of_valid (hwhole e hlast) c _
    · rcases hroom with rfl | ⟨hlen, -⟩
      · exact hroomy.room _ hu (moduleIdxNum_pos c id)
      · exact hroomy.room _ hu hlen
  | added => rfl
  | @full q es es' _ hshadow hfull =>
    have hnil : survivors c true itemId es' = [] := by
      refine List.eq_nil_iff_forall_not_mem.mpr fun e he => ?_
      obtain ⟨e', hmem, hsurv, -⟩ := mem_survivors c true itemId he
      simp only [survives, Bool.and_eq_true, decide_eq_true_eq, Bool.not_true, Bool.or_false] at hsurv
      have hsome : (lookup e'.itemId es').isSome := lookup_isSome.mpr ⟨e', hmem, hsurv.1, rfl⟩
      have hnone : lookup e'.itemId es = none := honly _ hsurv.2
      rw [hshadow.lookup_eq, hnone] at hsome
      cases hsome
    have hpos := moduleIdxNum_pos c id
    have hfits := @Roomy.room c id buf.length [] hroomy (1 - sectOf q) (fun e he => absurd he List.not_mem_nil) hpos
    rw [hnil] at hfull
    rcases hfull with hlen | hlong
    · rw [← hlen] at hpos
      exact absurd hpos (Nat.lt_irrefl 0)
    · omega
  | changed => rfl

end Log

/-! ### Writes, reads and resets of the item -/

/-- The flash of a module with nothing but the item `itemId`, of `n` bytes. -/
def ItemRep (c : NvCfg) (id : Nat) (itemId : Byte) (n : Nat) (f : Flash) (v : Option (List Byte)) (k : Contents) : Prop :=
  MapRep c id (fun _ => n) f (fun i => if i = itemId then v else none) k

/-- The item module, in order and ready for the next write. -/
def ItemHolds (c : NvCfg) (id : Nat) (itemId : Byte) (n : Nat) (f : Flash) (v : Option (List Byte)) : Prop :=
  ∃ k, ItemRep c id itemId n f v k ∧ k.Whole

/-- The item module after a write that was cut. -/
def ItemTorn (c : NvCfg) (id : Nat) (itemId : Byte) (n : Nat) (f : Flash) (v : Option (List Byte)) : Prop :=
  ∃ k, ItemRep c id itemId n f v k

section Item
variable {c : NvCfg} {id n : Nat} {itemId : Byte} {f g : Flash} {v : Option (List Byte)} {buf : List Byte}

theorem ItemHolds.torn (h : ItemHolds c id itemId n f v) : ItemTorn c id itemId n f v := by
  obtain ⟨k, hk, -⟩ := h
  exact ⟨k, hk⟩

theorem ItemTorn.congr (h : ItemTorn c id itemId n f v) (hg : ∀ x, InModule c id x → g x = f x) :
    ItemTorn c id itemId n g v := by
  obtain ⟨k, hk⟩ := h
  exact ⟨k, MapRep.congr hk hg⟩

theorem ItemHolds.congr (h : ItemHolds c id itemId n f v) (hg : ∀ x, InModule c id x → g x = f x) :
    ItemHolds c id itemId n g v := by
  obtain ⟨k, hk, hwhole⟩ := h
  exact ⟨k, MapRep.congr hk hg, hwhole⟩

theorem itemHolds_erased (h : Erased c id f) : ItemHolds c id itemId n f none := by
  refine ⟨.fresh, ⟨moduleRep_erased h false, trivial, fun i => ?_⟩, trivial⟩
  rw [ite_self]
  rfl

variable (hid : id < dsMaxModuls) (hfc : id ≠ dsNwkFramecountModule) (hitem : ItemIdOk itemId)
include hid hfc hitem

/-- A read finds what the item holds and leaves the flash alone. -/
theorem ItemTorn.read (h : ItemTorn c id itemId n f v) {t : NvItemLenCheck} (ht : NotShorter t fun _ => n) :
    wp (InModule c id) (nvFlashReadNew c t id itemId n) (fun r g => r = readResult v ∧ g = f) (fun g => g = f) f := by
  obtain ⟨k, hk⟩ := h
  have hwp := nvFlashReadNew_wp hid hfc hk.rep hk.uniform hitem.ne_idle (ht itemId hitem)
  rw [hk.look, if_pos rfl] at hwp
  exact hwp

/-- A write of the item, cut or not: it is the old item or the new one. Only a write that succeeds
leaves a log that the next one certainly goes behind. -/
theorem ItemTorn.write (h : ItemTorn c id itemId n f v) (hbuf : buf.length = n) (alloc : Bool) :
    wp (InModule c id) (nvFlashWriteNew c alloc true id itemId buf)
      (fun r g => if r = .succ then ItemHolds c id itemId n g (some buf) else ItemTorn c id itemId n g v)
      (fun g => ItemTorn c id itemId n g v ∨ ItemTorn c id itemId n g (some buf)) f := by
  obtain ⟨k, hk⟩ := h
  have hput {k' : Contents} {u : Option (List Byte)} (hothers : ∀ i ≠ itemId, k'.lookup i = k.lookup i)
      (hu : k'.lookup itemId = u) (i : Byte) : k'.lookup i = if i = itemId then u else none := by
    by_cases hi : i = itemId
    · rw [if_pos hi, hi, hu]
    · rw [hothers i hi, hk.look, if_neg hi, if_neg hi]
  have hold : k.lookup itemId = v := by rw [hk.look, if_pos rfl]
  apply wp_mono (nvFlashWriteNew_wp hid hk.rep hfc alloc)
  · intro r g hpost
    obtain ⟨k', hend, hrep⟩ := hpost
    have huniform : k'.Uniform fun _ => n := hend.cut.uniform hbuf hk.uniform
    have hothers := (hend.cut.lookup_eq hitem.ne_idle).1
    obtain ⟨hsucc, hfail⟩ := hend.lookup_eq
    split_ifs with hr
    · subst hr
      exact ⟨k', ⟨hrep, huniform, hput hothers (hsucc rfl)⟩, hend.whole⟩
    · exact ⟨k', hrep, huniform, hput hothers ((hfail hr itemId).trans hold)⟩
  · intro g hpost
    obtain ⟨k', hcut, hrep⟩ := hpost
    have huniform : k'.Uniform fun _ => n := hcut.uniform hbuf hk.uniform
    obtain ⟨hothers, hitem'⟩ := hcut.lookup_eq hitem.ne_idle
    rcases hitem' with hsame | hnew
    · exact .inl ⟨k', hrep, huniform, hput hothers (hsame.trans hold)⟩
    · exact .inr ⟨k', hrep, huniform, hput hothers hnew⟩

omit hitem in
/-- A write behind a finished entry succeeds. -/
theorem ItemHolds.write_succ (h : ItemHolds c id itemId n f v) (hroomy : Roomy c id n) (hbuf : buf.length = n)
    (alloc : Bool) : (nvFlashWriteNew c alloc true id itemId buf).value f = .succ := by
  obtain ⟨k, hk, hwhole⟩ := h
  obtain ⟨k', hend, -⟩ := wp_result (@nvFlashWriteNew_wp c id false true itemId buf f hid k hk.rep hfc alloc)
  refine hend.succ_of_whole hroomy hk.uniform (fun i hi => ?_) hwhole hbuf
  rw [hk.look, if_neg hi]

theorem ItemHolds.write (h : ItemHolds c id itemId n f v) (hroomy : Roomy c id n) (hbuf : buf.length = n)
    (alloc : Bool) : wp (InModule c id) (nvFlashWriteNew c alloc true id itemId buf)
      (fun r g => r = .succ ∧ ItemHolds c id itemId n g (some buf))
      (fun g => ItemTorn c id itemId n g v ∨ ItemTorn c id itemId n g (some buf)) f := by
  have hsucc := h.write_succ hid hfc hroomy hbuf alloc
  obtain ⟨hregion, hpost, hcut⟩ := h.torn.write hid hfc hitem hbuf alloc
  rw [if_pos hsucc] at hpost
  exact ⟨hregion, ⟨hsucc, hpost⟩, hcut⟩

end Item

end Rf4ce.Nv

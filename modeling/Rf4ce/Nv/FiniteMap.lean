import Rf4ce.Nv.CrashSafety

/-! With reliable power the item store is a finite map. -/
namespace Rf4ce.Nv
open Crash Drv Common

/-- A completed `nv_flashWriteNew` with `single = 1`. -/
structure WriteCall where
  alloc : Bool
  itemId : Byte
  buf : List Byte

def WriteCall.prog (c : NvCfg) (id : Nat) (w : WriteCall) : FlashM NvSts :=
  nvFlashWriteNew c w.alloc true id w.itemId w.buf

/-- The payloads that a client may count on. -/
abbrev Stored := Byte → Option (List Byte)

/-- The client's view of a write: it counts when the status was `NV_SUCC`. -/
def Stored.write (m : Stored) (w : WriteCall) (ret : NvSts) : Stored := fun i =>
  if ret = .succ ∧ i = w.itemId then some w.buf else m i

/-- Completed writes one after the other, with the payloads that count. -/
def runWrites (c : NvCfg) (id : Nat) : List WriteCall → Flash × Stored → Flash × Stored
  | [], st => st
  | w :: ws, (f, m) =>
    runWrites c id ws ((w.prog c id).final f, m.write w ((w.prog c id).value f))

def WriteCall.Ok (L : Byte → Nat) (w : WriteCall) : Prop := ItemIdOk w.itemId ∧ w.buf.length = L w.itemId

section Run
variable {c : NvCfg} {id : Nat} {L : Byte → Nat}
variable (hid : id < dsMaxModuls) (hfc : id ≠ dsNwkFramecountModule)

/-- The flash holds the log of a module that looks like the map `m`. -/
structure MapRep (c : NvCfg) (id : Nat) (L : Byte → Nat) (f : Flash) (m : Stored) (k : Contents) :
    Prop where
  rep : ModuleRep c id false f k
  uniform : k.Uniform L
  look : ∀ i, k.lookup i = m i

theorem mapRep_erased {f : Flash} (h : Erased c id f) : MapRep c id L f (fun _ => none) .fresh :=
  ⟨moduleRep_erased h false, trivial, fun _ => rfl⟩

include hid hfc in
/-- One completed write on both levels. -/
theorem MapRep.write {f : Flash} {m : Stored} {k : Contents} (h : MapRep c id L f m k) {w : WriteCall}
    (hw : w.Ok L) : ∃ k', WriteEnd c id false true w.itemId w.buf k ((w.prog c id).value f) k' ∧
      MapRep c id L ((w.prog c id).final f) (m.write w ((w.prog c id).value f)) k' := by
  obtain ⟨hitem, hbuf⟩ := hw
  obtain ⟨k', hend, hrep⟩ := wp_result (@nvFlashWriteNew_wp c id false true w.itemId w.buf f hid k h.rep
    hfc w.alloc)
  change WriteEnd c id false true w.itemId w.buf k ((w.prog c id).value f) k' at hend
  generalize (w.prog c id).value f = ret at hend ⊢
  refine ⟨k', hend, hrep, hend.cut.uniform hbuf h.uniform, fun i => ?_⟩
  obtain ⟨hsucc, hfail⟩ := hend.lookup_eq
  unfold Stored.write
  by_cases hret : ret = .succ
  · by_cases hi : i = w.itemId
    · rw [if_pos ⟨hret, hi⟩, hi]
      exact hsucc hret
    · rw [if_neg fun h => hi h.2, (hend.cut.lookup_eq hitem.ne_idle).1 i hi]
      exact h.look i
  · rw [if_neg fun h => hret h.1, hfail hret i]
    exact h.look i

include hid hfc in
theorem runWrites_rep {ws : List WriteCall} (hws : ∀ w ∈ ws, w.Ok L) {f : Flash} {m : Stored}
    {k : Contents} (h : MapRep c id L f m k) :
    ∃ k', MapRep c id L (runWrites c id ws (f, m)).1 (runWrites c id ws (f, m)).2 k' := by
  induction ws generalizing f m k with
  | nil => exact ⟨k, h⟩
  | cons w ws ih =>
    obtain ⟨k', -, h'⟩ := h.write hid hfc (hws w List.mem_cons_self)
    exact ih (fun w hw => hws w (List.mem_cons_of_mem _ hw)) h'

include hid hfc in
/-- **Refinement of a finite map.** After any writes from erased flash a read returns the payload
of the last successful write of its item, and `NV_ITEM_NOT_FOUND` when there was none. -/
theorem nvFlashReadNew_refines_map {f : Flash} (hf : Erased c id f) {ws : List WriteCall}
    (hws : ∀ w ∈ ws, w.Ok L) {g : NvItemLenCheck} (hg : NotShorter g L) {itemId : Byte}
    (hitem : ItemIdOk itemId) :
    (nvFlashReadNew c g id itemId (L itemId)).value (runWrites c id ws (f, fun _ => none)).1 =
      match (runWrites c id ws (f, fun _ => none)).2 itemId with
      | some p => (.succ, some p)
      | none => (.itemNotFound, none) := by
  obtain ⟨k, hrep, hu, hlook⟩ := runWrites_rep hid hfc hws (mapRep_erased (L := L) hf)
  have hread := (wp_result (nvFlashReadNew_wp hid hfc hrep hu hitem.ne_idle (hg itemId hitem))).1
  rw [hread, hlook]
  cases (runWrites c id ws (f, fun _ => none)).2 itemId with
  | none => rfl
  | some p => rfl

end Run

/-- Item 1 of module 6 is written twice, item 2 in between. -/
def rewritten : List WriteCall := [⟨true, 1, [0x41]⟩, ⟨true, 2, [0x51]⟩, ⟨true, 1, [0x42]⟩]

/-- Item 1 is registered with a length of four. -/
theorem nvFlashReadNew_refines_map_rewritten :
    (nvFlashReadNew ⟨true, true⟩ (nvItemLengthCheckAdd .initial 1 4) 6 1 1).value
      (runWrites ⟨true, true⟩ 6 rewritten (fun _ => 0xff, fun _ => none)).1 = (.succ, some [0x42]) := by
  have hws : ∀ w ∈ rewritten, w.Ok fun _ => 1 := by
    simp [rewritten, WriteCall.Ok, ItemIdOk]
  have hlen : Registered (nvItemLengthCheckAdd .initial 1 4) fun _ => 1 := (Registered.initial _).add (by decide)
  have hstored : (runWrites ⟨true, true⟩ 6 rewritten (fun _ => 0xff, fun _ => none)).2 1 = some [0x42] := by
    decide +kernel
  rw [@nvFlashReadNew_refines_map ⟨true, true⟩ 6 (fun _ => 1) (by decide) (by decide) (fun _ => 0xff)
    (fun _ _ => rfl) rewritten hws _ hlen.notShorter 1 ⟨by decide, by decide⟩, hstored]

end Rf4ce.Nv

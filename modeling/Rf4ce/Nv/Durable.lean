import Rf4ce.Nv.FiniteMap
import Rf4ce.Nv.Isolation
import Rf4ce.Refine.Run

/-! The whole store in runs with power failures: a durable map with a durable counter. -/
namespace Rf4ce.Nv
open Crash Drv Common

/-! ### The store -/

/-- A call, and the number of flash operations after which the power fails in it. -/
structure StoreCall where
  call : NvCall
  power : Option Nat

inductive NvAns where
  | status (ret : NvSts)
  | item (r : NvSts × Option (List Byte))
  | count (r : NvSts × Option Nat)
deriving DecidableEq, Repr

def NvCall.answer (c : NvCfg) (f : Flash) : NvCall → NvAns
  | .flashWriteNew alloc single id itemId buf => .status ((nvFlashWriteNew c alloc single id itemId buf).value f)
  | .flashReadNew g id itemId len => .item ((nvFlashReadNew c g id itemId len).value f)
  | .nwkFrameCountSaveToFlash frameCount => .status ((nvNwkFrameCountSaveToFlash c frameCount).value f)
  | .nwkFrameCountFromFlash => .count ((nvNwkFrameCountFromFlash c).value f)
  | .resetModule modules => .status ((nvResetModule c modules).value f)

/-- A call that the power fails in answers nothing. -/
def storeStep (c : NvCfg) (f : Flash) (k : StoreCall) : Flash × Option NvAns :=
  match k.power with
  | none => (Crash.run f (k.call.ops c f), some (k.call.answer c f))
  | some n => (Crash.run f ((k.call.ops c f).take n), none)

/-- Single items with the length that goes with module and id, and counters that a load
precedes. -/
def StoreCall.Ok (c : NvCfg) (L : Nat → Byte → Nat) (f : Flash) (k : StoreCall) : Prop :=
  k.call.module < dsMaxModuls ∧
    match k.call with
    | .flashWriteNew _ single id itemId buf => single = true ∧ WriteCall.Ok (L id) ⟨true, itemId, buf⟩
    | .flashReadNew g id itemId len => NotShorter g (L id) ∧ ItemIdOk itemId ∧ len = L id itemId
    | .nwkFrameCountSaveToFlash n => Saveable c f ((nvNwkFrameCountFromFlash c).value f).2.toList n
    | .nwkFrameCountFromFlash => True
    | .resetModule _ => True

/-! ### The map -/

/-- What clients may count on. Nothing is known of a module after a reset was cut, and the frame
counter module has no items. -/
structure StoreMap where
  items : Nat → Option Stored
  counter : Option (Option Nat)

namespace StoreMap

def empty : StoreMap where
  items := fun id => if id = dsNwkFramecountModule then none else some fun _ => none
  counter := some none

def setItems (m : StoreMap) (id : Nat) (s : Option Stored) : StoreMap :=
  { m with items := fun j => if j = id then s else m.items j }

def put (m : StoreMap) (id : Nat) (itemId : Byte) (buf : List Byte) : StoreMap :=
  m.setItems id ((m.items id).map fun s i => if i = itemId then some buf else s i)

def save (m : StoreMap) (n : Nat) : StoreMap := { m with counter := m.counter.map fun _ => some n }

def reset (m : StoreMap) (id : Nat) : StoreMap :=
  if id = dsNwkFramecountModule then { m with counter := some none } else m.setItems id (some fun _ => none)

def forget (m : StoreMap) (id : Nat) : StoreMap :=
  if id = dsNwkFramecountModule then { m with counter := none } else m.setItems id none

/-- What a call that the power fails in may have done. -/
def cut (m : StoreMap) : NvCall → StoreMap
  | .flashWriteNew _ _ id itemId buf => m.put id itemId buf
  | .nwkFrameCountSaveToFlash n => m.save n
  | .resetModule modules => m.forget modules
  | _ => m

end StoreMap

/-- What the save of a counter returns, given the counter before it: the first one of an erased module
is stored, and yet it returns what the search for a sector did. -/
def saveStatus : Option Nat → NvSts
  | none => .itemNotFound
  | some _ => .succ

/-- The answers of a durable map. A call that the power fails in did all it was to do, or nothing. -/
inductive Serves (m : StoreMap) : StoreCall → Option NvAns → StoreMap → Prop where
  | written {alloc single : Bool} {id : Nat} {itemId : Byte} {buf : List Byte} :
      Serves m ⟨.flashWriteNew alloc single id itemId buf, none⟩ (some (.status .succ)) (m.put id itemId buf)
  | refused {alloc single : Bool} {id : Nat} {itemId : Byte} {buf : List Byte} {ret : NvSts} (h : ret ≠ .succ) :
      Serves m ⟨.flashWriteNew alloc single id itemId buf, none⟩ (some (.status ret)) m
  | read {g : NvItemLenCheck} {id : Nat} {itemId : Byte} {len : Nat} {r : NvSts × Option (List Byte)}
      (h : ∀ s, m.items id = some s → r = readResult (s itemId)) :
      Serves m ⟨.flashReadNew g id itemId len, none⟩ (some (.item r)) m
  | saved {n : Nat} {ret : NvSts} (h : ∀ v, m.counter = some v → ret = saveStatus v) :
      Serves m ⟨.nwkFrameCountSaveToFlash n, none⟩ (some (.status ret)) (m.save n)
  | loaded {r : NvSts × Option Nat} (h : ∀ v, m.counter = some v → r = readResult v) :
      Serves m ⟨.nwkFrameCountFromFlash, none⟩ (some (.count r)) m
  | reset {modules : Nat} : Serves m ⟨.resetModule modules, none⟩ (some (.status .succ)) (m.reset modules)
  | lost {call : NvCall} {n : Nat} : Serves m ⟨call, some n⟩ none m
  | kept {call : NvCall} {n : Nat} : Serves m ⟨call, some n⟩ none (m.cut call)

/-! ### One module at a time -/

/-- The flash of every module that the map knows holds what the map says. -/
structure StoreRep (c : NvCfg) (L : Nat → Byte → Nat) (f : Flash) (m : StoreMap) : Prop where
  reach : NvReach c f
  items : ∀ id < dsMaxModuls, ∀ s, m.items id = some s →
    id ≠ dsNwkFramecountModule ∧ ∃ t, MapRep c id (L id) f s t
  counter : ∀ v, m.counter = some v → ∃ l, FrameRep c f l ∧ l.Steps ∧ l.last = v

section Frame
variable {c : NvCfg} {f g : Flash}

theorem MapRep.congr {id : Nat} {L : Byte → Nat} {s : Stored} {t : Contents} (h : MapRep c id L f s t)
    (hg : ∀ x, InModule c id x → g x = f x) : MapRep c id L g s t := by
  constructor
  · exact h.rep.congr hg
  · exact h.uniform
  · exact h.look

theorem FrameRep.congr {l : FrameLog} (h : FrameRep c f l)
    (hg : ∀ x, InModule c dsNwkFramecountModule x → g x = f x) : FrameRep c g l := by
  have hhead {s : Nat} (hs : s < 2) : ∀ x, moduleSectStart c dsNwkFramecountModule s ≤ x →
      x < moduleSectStart c dsNwkFramecountModule s + 4 → g x = f x := by
    have hin := sect_inner c dsNwkFramecountModule s
    exact fun x h₁ h₂ => hg x (inModule_of_sect hs h₁ (by omega))
  cases h with
  | fresh dead₀ dead₁ => exact .fresh (dead₀.congr (hhead (by decide))) (dead₁.congr (hhead (by decide)))
  | @active q l headers slots used =>
    have hslots := slots.congr fun x h₁ h₂ => hg x (inModule_frame (sectOf_lt q) (by omega) h₂)
    exact .active (headers.congr fun s hs => hhead hs) hslots used

theorem FrameRep.saveStatus_eq {l : FrameLog} (h : FrameRep c f l) : l.saveStatus = saveStatus l.last := by
  cases h with
  | fresh dead₀ dead₁ => rfl
  | @active q l headers slots used =>
    change NvSts.succ = saveStatus l.getLast?
    rw [List.getLast?_eq_some_getLast used]
    rfl

theorem frameRep_erased (h : Erased c dsNwkFramecountModule f) : FrameRep c f .fresh := by
  cases moduleRep_erased h false with
  | fresh dead₀ dead₁ table₀ table₁ => exact .fresh dead₀ dead₁

/-- The part of a call on one module. -/
theorem StoreRep.next {L : Nat → Byte → Nat} {m m' : StoreMap} {k : NvCall} {ops : List FlashOp}
    (h : StoreRep c L f m) (hk : k.module < dsMaxModuls) (hops : ops <+: k.ops c f)
    (hothers : ∀ id ≠ k.module, m'.items id = m.items id)
    (hcounter : k.module ≠ dsNwkFramecountModule → m'.counter = m.counter)
    (hitems : ∀ s, m'.items k.module = some s → k.module ≠ dsNwkFramecountModule ∧
      ∃ t, MapRep c k.module (L k.module) (Crash.run f ops) s t)
    (hcount : k.module = dsNwkFramecountModule → ∀ v, m'.counter = some v →
      ∃ l, FrameRep c (Crash.run f ops) l ∧ l.Steps ∧ l.last = v) : StoreRep c L (Crash.run f ops) m' := by
  obtain ⟨hin, -⟩ := NvCall.keeps hk fun hne => h.reach.moduleOk hk hne
  constructor
  · exact .call h.reach hk hops
  · intro id hid s hs
    by_cases hmod : id = k.module
    · subst hmod
      exact hitems s hs
    · rw [hothers id hmod] at hs
      obtain ⟨hfc, t, ht⟩ := h.items id hid s hs
      exact ⟨hfc, t, ht.congr (NvCall.outside hin hops hk hid hmod)⟩
  · intro v hv
    by_cases hmod : k.module = dsNwkFramecountModule
    · exact hcount hmod v hv
    · rw [hcounter hmod] at hv
      obtain ⟨l, hl, hrest⟩ := h.counter v hv
      exact ⟨l, hl.congr (NvCall.outside hin hops hk (by decide) (Ne.symm hmod)), hrest⟩

end Frame

/-! ### Items -/

section Items
variable {c : NvCfg} {id : Nat} {L : Byte → Nat} {f : Flash} {s : Stored} {t : Contents}

theorem Stored.write_succ (s : Stored) (w : WriteCall) :
    s.write w .succ = fun i => if i = w.itemId then some w.buf else s i := by
  funext i
  simp [Stored.write]

theorem Stored.write_refused (s : Stored) (w : WriteCall) {ret : NvSts} (h : ret ≠ .succ) : s.write w ret = s := by
  funext i
  exact if_neg fun hret => h hret.1

/-- A write that is cut leaves the old payload or the new one. -/
theorem MapRep.cut (h : MapRep c id L f s t) (hid : id < dsMaxModuls) (hfc : id ≠ dsNwkFramecountModule)
    {w : WriteCall} (hw : w.Ok L) {g : Flash} (hg : (w.prog c id).Cut f g) :
    (∃ t', MapRep c id L g s t') ∨ ∃ t', MapRep c id L g (s.write w .succ) t' := by
  obtain ⟨hitem, hbuf⟩ := hw
  obtain ⟨t', hcut, hrep⟩ := wp_cut (nvFlashWriteNew_wp hid h.rep hfc w.alloc) hg
  have huniform := hcut.uniform hbuf h.uniform
  obtain ⟨hothers, hitem'⟩ := hcut.lookup_eq hitem.ne_idle
  rcases hitem' with hold | hnew
  · refine .inl ⟨t', hrep, huniform, fun i => ?_⟩
    rw [← h.look i]
    by_cases hi : i = w.itemId
    · rw [hi, hold]
    · exact hothers i hi
  · refine .inr ⟨t', hrep, huniform, fun i => ?_⟩
    rw [congrFun (s.write_succ w) i]
    by_cases hi : i = w.itemId
    · rw [if_pos hi, hi, hnew]
    · rw [if_neg hi, hothers i hi, h.look i]

end Items

/-! ### Calls -/

section Calls
variable {c : NvCfg} {L : Nat → Byte → Nat} {f : Flash} {m : StoreMap}

@[simp] theorem StoreMap.setItems_same (m : StoreMap) (id : Nat) (s : Option Stored) :
    (m.setItems id s).items id = s := if_pos rfl

theorem StoreMap.setItems_other (m : StoreMap) (s : Option Stored) {id j : Nat} (h : j ≠ id) :
    (m.setItems id s).items j = m.items j := if_neg h

/-- Between two calls that leave what the module holds, the store is as before. -/
theorem StoreRep.same (h : StoreRep c L f m) {k : NvCall} (hk : k.module < dsMaxModuls) {ops : List FlashOp}
    (hops : ops <+: k.ops c f)
    (hitems : ∀ s, m.items k.module = some s → k.module ≠ dsNwkFramecountModule →
      ∃ t, MapRep c k.module (L k.module) (Crash.run f ops) s t)
    (hcount : k.module = dsNwkFramecountModule → ∀ l : FrameLog, FrameRep c f l → l.Steps →
      FrameRep c (Crash.run f ops) l) : StoreRep c L (Crash.run f ops) m := by
  refine h.next hk hops (fun _ _ => rfl) (fun _ => rfl) ?_ ?_
  · intro s hs
    obtain ⟨hfc, -⟩ := h.items _ hk s hs
    exact ⟨hfc, hitems s hs hfc⟩
  · intro hfc v hv
    obtain ⟨l, hl, hsteps, hlast⟩ := h.counter v hv
    exact ⟨l, hcount hfc l hl hsteps, hsteps, hlast⟩

/-- A new payload in a module that the map knows. -/
theorem StoreRep.put (h : StoreRep c L f m) {alloc single : Bool} {id : Nat} {itemId : Byte} {buf : List Byte}
    (hid : id < dsMaxModuls) {ops : List FlashOp}
    {k : NvCall} (hk : k = .flashWriteNew alloc single id itemId buf) (hops : ops <+: k.ops c f)
    (hitems : ∀ s, m.items id = some s →
      ∃ t, MapRep c id (L id) (Crash.run f ops) (fun i => if i = itemId then some buf else s i) t) :
    StoreRep c L (Crash.run f ops) (m.put id itemId buf) := by
  have hput : (m.put id itemId buf).items id = (m.items id).map fun s i => if i = itemId then some buf else s i :=
    m.setItems_same id _
  subst hk
  refine h.next (k := .flashWriteNew alloc single id itemId buf) hid hops ?_ (fun _ => rfl) ?_ ?_
  · exact fun j hj => m.setItems_other _ hj
  · intro s hs
    obtain ⟨s₀, hs₀, rfl⟩ := Option.map_eq_some_iff.mp (hput.symm.trans hs)
    obtain ⟨hfc, -⟩ := h.items id hid s₀ hs₀
    exact ⟨hfc, hitems s₀ hs₀⟩
  · intro hfc v hv
    change id = dsNwkFramecountModule at hfc
    obtain ⟨l, hl, hsteps, hlast⟩ := h.counter v hv
    refine ⟨l, ?_, hsteps, hlast⟩
    change ops <+: (nvFlashWriteNew c alloc single id itemId buf).ops f at hops
    rw [nvFlashWriteNew, if_pos hfc] at hops
    obtain rfl := List.prefix_nil.mp hops
    exact hl

/-- A call on both levels: what it does to the map, and what it may have done when it is cut. -/
structure Served (c : NvCfg) (L : Nat → Byte → Nat) (f : Flash) (m : StoreMap) (k : NvCall) : Prop where
  whole : ∃ m', Serves m ⟨k, none⟩ (some (k.answer c f)) m' ∧ StoreRep c L (Crash.run f (k.ops c f)) m'
  cut : ∀ ops, ops <+: k.ops c f → StoreRep c L (Crash.run f ops) m ∨ StoreRep c L (Crash.run f ops) (m.cut k)

theorem StoreRep.write (h : StoreRep c L f m) {alloc : Bool} {id : Nat} {itemId : Byte} {buf : List Byte}
    (hid : id < dsMaxModuls) (hw : WriteCall.Ok (L id) ⟨alloc, itemId, buf⟩) :
    Served c L f m (.flashWriteNew alloc true id itemId buf) := by
  by_cases hfc : id = dsNwkFramecountModule
  · have hnil : (NvCall.flashWriteNew alloc true id itemId buf).ops c f = [] := by
      change (nvFlashWriteNew c alloc true id itemId buf).ops f = []
      rw [nvFlashWriteNew, if_pos hfc]
      rfl
    have hret : (NvCall.flashWriteNew alloc true id itemId buf).answer c f = .status .invalidModuls := by
      change NvAns.status ((nvFlashWriteNew c alloc true id itemId buf).value f) = _
      rw [nvFlashWriteNew, if_pos hfc]
      rfl
    constructor
    · rw [hnil, hret]
      exact ⟨m, .refused (by decide), h⟩
    · intro ops hops
      rw [hnil] at hops
      obtain rfl := List.prefix_nil.mp hops
      exact .inl h
  constructor
  · let w : WriteCall := ⟨alloc, itemId, buf⟩
    have hwrite {s : Stored} (hs : m.items id = some s) : ∃ t, MapRep c id (L id) ((w.prog c id).final f)
        (s.write w ((w.prog c id).value f)) t := by
      obtain ⟨-, t, ht⟩ := h.items id hid s hs
      obtain ⟨t', -, ht'⟩ := ht.write hid hfc hw
      exact ⟨t', ht'⟩
    change ∃ m', Serves m _ (some (.status ((w.prog c id).value f))) m' ∧ StoreRep c L ((w.prog c id).final f) m'
    by_cases hret : (w.prog c id).value f = .succ
    · refine ⟨m.put id itemId buf, by rw [hret]; exact .written, ?_⟩
      refine h.put (k := .flashWriteNew alloc true id itemId buf) hid rfl List.prefix_rfl fun s hs => ?_
      obtain ⟨t, ht⟩ := hwrite hs
      rw [hret, s.write_succ w] at ht
      exact ⟨t, ht⟩
    · refine ⟨m, .refused hret, ?_⟩
      refine h.same (k := .flashWriteNew alloc true id itemId buf) hid List.prefix_rfl (fun s hs _ => ?_)
        fun hmod => absurd hmod hfc
      obtain ⟨t, ht⟩ := hwrite hs
      rw [s.write_refused w hret] at ht
      exact ⟨t, ht⟩
  · intro ops hops
    have hcut : (WriteCall.prog c id ⟨alloc, itemId, buf⟩).Cut f (Crash.run f ops) := ⟨ops, hops, rfl⟩
    have hsame (hold : ∀ s, m.items id = some s → ∃ t, MapRep c id (L id) (Crash.run f ops) s t) :
        StoreRep c L (Crash.run f ops) m :=
      h.same (k := .flashWriteNew alloc true id itemId buf) hid hops (fun s hs _ => hold s hs)
        fun hmod => absurd hmod hfc
    cases hs : m.items id with
    | none =>
      refine .inl (hsame fun s hs' => ?_)
      rw [hs] at hs'
      cases hs'
    | some s =>
      obtain ⟨-, t, ht⟩ := h.items id hid s hs
      rcases ht.cut hid hfc hw hcut with hold | hnew
      · refine .inl (hsame fun s' hs' => ?_)
        rw [hs] at hs'
        rw [← Option.some.inj hs']
        exact hold
      · refine .inr (h.put hid rfl hops fun s' hs' => ?_)
        rw [hs] at hs'
        rw [← Option.some.inj hs', ← s.write_succ ⟨alloc, itemId, buf⟩]
        exact hnew

/-- A read returns the payload and leaves the flash alone. -/
theorem StoreRep.read (h : StoreRep c L f m) {g : NvItemLenCheck} {id : Nat} {itemId : Byte}
    (hid : id < dsMaxModuls) (hg : NotShorter g (L id)) (hitem : ItemIdOk itemId) :
    Served c L f m (.flashReadNew g id itemId (L id itemId)) := by
  have hread {s : Stored} (hs : m.items id = some s) :
      wp (InModule c id) (nvFlashReadNew c g id itemId (L id itemId))
        (fun r g' => r = readResult (s itemId) ∧ g' = f) (fun g' => g' = f) f := by
    obtain ⟨hfc, t, ht⟩ := h.items id hid s hs
    have hwp := nvFlashReadNew_wp hid hfc ht.rep ht.uniform hitem.ne_idle (hg itemId hitem)
    rw [ht.look] at hwp
    exact hwp
  have hsame {ops : List FlashOp} (hops : ops <+: (nvFlashReadNew c g id itemId (L id itemId)).ops f) :
      StoreRep c L (Crash.run f ops) m := by
    refine h.same (k := .flashReadNew g id itemId (L id itemId)) hid hops (fun s hs _ => ?_) fun hfc l hl _ => ?_
    · rw [wp_cut (hread hs) ⟨ops, hops, rfl⟩]
      obtain ⟨-, ht⟩ := h.items id hid s hs
      exact ht
    · change id = dsNwkFramecountModule at hfc
      rw [nvFlashReadNew, if_pos hfc] at hops
      obtain rfl := List.prefix_nil.mp hops
      exact hl
  constructor
  · exact ⟨m, .read fun s hs => (wp_result (hread hs)).1, hsame List.prefix_rfl⟩
  · exact fun ops hops => .inl (hsame hops)

/-- The counter cell after a call on its module. -/
theorem StoreRep.count (h : StoreRep c L f m) {k : NvCall} (hk : k.module = dsNwkFramecountModule)
    {ops : List FlashOp} (hops : ops <+: k.ops c f) {m' : StoreMap} (hsame : m'.items = m.items)
    (hcount : ∀ v, m'.counter = some v → ∃ l, FrameRep c (Crash.run f ops) l ∧ l.Steps ∧ l.last = v) :
    StoreRep c L (Crash.run f ops) m' := by
  have hmod : k.module < dsMaxModuls := by
    rw [hk]
    decide
  refine h.next hmod hops (fun id _ => congrFun hsame id) (fun hne => absurd hk hne) (fun s hs => ?_) fun _ => hcount
  rw [hsame] at hs
  exact absurd hk (h.items _ hmod s hs).1

theorem StoreRep.save (h : StoreRep c L f m) {n : Nat}
    (hn : Saveable c f ((nvNwkFrameCountFromFlash c).value f).2.toList n) :
    Served c L f m (.nwkFrameCountSaveToFlash n) := by
  have hlt : n < 0xffffffff := Nat.lt_of_lt_of_le hn.bound (by decide)
  have hpush {l : FrameLog} (hl : FrameRep c f l) (hsteps : l.Steps) : (l.push n).Steps := by
    rw [(wp_result (nvNwkFrameCountFromFlash_wp hl hsteps)).1] at hn
    have hsnd : (readResult l.last).2 = l.last := by
      cases l.last with
      | none => rfl
      | some v => rfl
    rw [hsnd] at hn
    have hinv : SaveInv l none l.last.toList := by
      constructor
      · exact hsteps
      · intro k hk
        cases hk
      · intro v hv
        rw [hv]
        exact List.mem_singleton_self v
    exact (hinv.push hl hn).1
  have hsaved {v : Option Nat} (hv : (m.save n).counter = some v) : v = some n ∧ ∃ u, m.counter = some u := by
    obtain ⟨u, hu, hu'⟩ := Option.map_eq_some_iff.mp hv
    exact ⟨hu'.symm, u, hu⟩
  constructor
  · refine ⟨m.save n, .saved fun v hv => ?_, h.count rfl List.prefix_rfl rfl fun v hv => ?_⟩
    · obtain ⟨l, hl, -, rfl⟩ := h.counter v hv
      rw [← hl.saveStatus_eq]
      exact (wp_result (nvNwkFrameCountSaveToFlash_wp hl hlt)).1
    · obtain ⟨rfl, u, hu⟩ := hsaved hv
      obtain ⟨l, hl, hsteps, -⟩ := h.counter u hu
      exact ⟨l.push n, (wp_result (nvNwkFrameCountSaveToFlash_wp hl hlt)).2, hpush hl hsteps, l.last_push n⟩
  · intro ops hops
    cases hcounter : m.counter with
    | none =>
      refine .inl (h.count rfl hops rfl fun v hv => ?_)
      rw [hcounter] at hv
      cases hv
    | some u =>
      obtain ⟨l, hl, hsteps, hlast⟩ := h.counter u hcounter
      rcases wp_cut (nvNwkFrameCountSaveToFlash_wp hl hlt) ⟨ops, hops, rfl⟩ with hold | hnew
      · refine .inl (h.count rfl hops rfl fun v hv => ⟨l, hold, hsteps, ?_⟩)
        rw [hcounter] at hv
        rw [← Option.some.inj hv]
        exact hlast
      · refine .inr (h.count rfl hops rfl fun v hv => ?_)
        obtain ⟨rfl, -⟩ := hsaved hv
        exact ⟨l.push n, hnew, hpush hl hsteps, l.last_push n⟩

/-- A load returns the counter and leaves the flash alone. -/
theorem StoreRep.load (h : StoreRep c L f m) : Served c L f m .nwkFrameCountFromFlash := by
  have hsame {ops : List FlashOp} (hops : ops <+: NvCall.nwkFrameCountFromFlash.ops c f) :
      StoreRep c L (Crash.run f ops) m := by
    refine h.count rfl hops rfl fun v hv => ?_
    obtain ⟨l, hl, hsteps, hlast⟩ := h.counter v hv
    rw [wp_cut (nvNwkFrameCountFromFlash_wp hl hsteps) ⟨ops, hops, rfl⟩]
    exact ⟨l, hl, hsteps, hlast⟩
  constructor
  · refine ⟨m, .loaded fun v hv => ?_, hsame List.prefix_rfl⟩
    obtain ⟨l, hl, hsteps, rfl⟩ := h.counter v hv
    exact (wp_result (nvNwkFrameCountFromFlash_wp hl hsteps)).1
  · exact fun ops hops => .inl (hsame hops)

/-- A reset that is not cut erases the module. -/
theorem nvResetModule_erased (c : NvCfg) (id : Nat) (f : Flash) : Erased c id ((nvResetModule c id).final f) := by
  have hnum : 4096 * (moduleSectorNum * (nvSectorSize id / flashSectorSize)) = 2 * nvSectorSize id := by
    unfold moduleSectorNum flashSectorSize
    rcases moduleInfoSize_cases id with ⟨-, h⟩ | ⟨-, h⟩ <;> rw [h]
  intro x hx
  rw [inModule_iff] at hx
  rw [wp_result (nvResetModule_in c id f)]
  exact eraseRange_in (by omega) (by omega)

theorem StoreRep.resetModule (h : StoreRep c L f m) {id : Nat} (hid : id < dsMaxModuls) :
    Served c L f m (.resetModule id) := by
  have herased : Erased c id (Crash.run f ((NvCall.resetModule id).ops c f)) := nvResetModule_erased c id f
  by_cases hfc : id = dsNwkFramecountModule
  · subst hfc
    constructor
    · refine ⟨m.reset dsNwkFramecountModule, .reset, h.count rfl List.prefix_rfl rfl fun v hv => ?_⟩
      exact ⟨.fresh, frameRep_erased herased, trivial, Option.some.inj hv⟩
    · refine fun ops hops => .inr (h.count rfl hops rfl fun v hv => ?_)
      cases hv
  · constructor
    · refine ⟨m.reset id, .reset, h.next (k := .resetModule id) hid List.prefix_rfl (fun j hj => ?_) (fun _ => ?_)
        (fun s hs => ?_) ?_⟩
      · rw [StoreMap.reset, if_neg hfc]
        exact m.setItems_other _ hj
      · rw [StoreMap.reset, if_neg hfc]
        rfl
      · rw [StoreMap.reset, if_neg hfc] at hs
        obtain rfl := Option.some.inj ((m.setItems_same id _).symm.trans hs)
        exact ⟨hfc, .fresh, mapRep_erased herased⟩
      · exact fun hmod => absurd hmod hfc
    · refine fun ops hops => .inr (h.next (k := .resetModule id) hid hops (fun j hj => ?_) (fun _ => ?_) (fun s hs => ?_) ?_)
      · rw [StoreMap.cut, StoreMap.forget, if_neg hfc]
        exact m.setItems_other _ hj
      · rw [StoreMap.cut, StoreMap.forget, if_neg hfc]
        rfl
      · rw [StoreMap.cut, StoreMap.forget, if_neg hfc] at hs
        cases (m.setItems_same id none).symm.trans hs
      · exact fun hmod => absurd hmod hfc

theorem StoreRep.served (h : StoreRep c L f m) {k : StoreCall} (hk : k.Ok c L f) : Served c L f m k.call := by
  obtain ⟨hid, hcall⟩ := hk
  cases hcase : k.call with
  | flashWriteNew alloc single id itemId buf =>
    rw [hcase] at hid hcall
    obtain ⟨rfl, hw⟩ := hcall
    exact h.write hid hw
  | flashReadNew g id itemId len =>
    rw [hcase] at hid hcall
    obtain ⟨hg, hitem, rfl⟩ := hcall
    exact h.read hid hg hitem
  | nwkFrameCountSaveToFlash n =>
    rw [hcase] at hcall
    exact h.save hcall
  | nwkFrameCountFromFlash => exact h.load
  | resetModule modules =>
    rw [hcase] at hid
    exact h.resetModule hid

/-- One call, cut or not, on both levels. -/
theorem storeStep_serves (h : StoreRep c L f m) {k : StoreCall} (hk : k.Ok c L f) :
    ∃ m', Serves m k (storeStep c f k).2 m' ∧ StoreRep c L (storeStep c f k).1 m' := by
  have hserved := h.served hk
  obtain ⟨call, power⟩ := k
  cases power with
  | none => exact hserved.whole
  | some n =>
    rcases hserved.cut _ (List.take_prefix n _) with hlost | hkept
    · exact ⟨m, .lost, hlost⟩
    · exact ⟨m.cut call, .kept, hkept⟩

theorem storeRep_erased (hf : ∀ id < dsMaxModuls, Erased c id f) : StoreRep c L f .empty := by
  constructor
  · exact .erased hf
  · intro id hid s hs
    change (if id = dsNwkFramecountModule then none else some fun _ => none) = some s at hs
    split_ifs at hs with hfc
    obtain rfl := Option.some.inj hs
    exact ⟨hfc, .fresh, mapRep_erased (hf id hid)⟩
  · intro v hv
    exact ⟨.fresh, frameRep_erased (hf _ (by decide)), trivial, Option.some.inj hv⟩

/-- **Durability.** From erased flash the store answers all calls as a durable map does, however
calls on the modules are mixed and wherever the power fails in them. -/
theorem nv_store_durable (hf : ∀ id < dsMaxModuls, Erased c id f) {ks : List StoreCall}
    (hks : Refine.Legal (storeStep c) (StoreCall.Ok c L) f ks) :
    ∃ m, Refine.Allows Serves .empty ks (Refine.run (storeStep c) f ks).2 m := by
  have hstep (f : Flash) (m : StoreMap) (k : StoreCall) (h : StoreRep c L f m) (hk : k.Ok c L f) :=
    storeStep_serves h hk
  obtain ⟨m, hallows, -⟩ := Refine.run_allowed hstep (storeRep_erased hf) hks
  exact ⟨m, hallows⟩

end Calls

/-- A first counter, and a second one whose save the power fails in; then it fails in the second write of
an item, after it was read back. -/
def storeRestart : List StoreCall :=
  [⟨.nwkFrameCountSaveToFlash 5, none⟩, ⟨.nwkFrameCountSaveToFlash 9, some 1⟩, ⟨.nwkFrameCountFromFlash, none⟩,
    ⟨.flashWriteNew true true 6 1 [0x42], none⟩, ⟨.flashReadNew .initial 6 1 1, none⟩,
    ⟨.flashWriteNew true true 6 1 [0x43], some 2⟩, ⟨.flashReadNew .initial 6 1 1, none⟩]

theorem nv_store_durable_restart :
    ∃ m, Refine.Allows Serves .empty storeRestart
      (Refine.run (storeStep ⟨true, true⟩) (fun _ => 0xff) storeRestart).2 m := by
  have hok : WriteCall.Ok (fun _ => 1) ⟨true, 1, [0x42]⟩ := ⟨⟨by decide, by decide⟩, rfl⟩
  have hok' : WriteCall.Ok (fun _ => 1) ⟨true, 1, [0x43]⟩ := ⟨⟨by decide, by decide⟩, rfl⟩
  have hread : NotShorter .initial (fun _ => 1) ∧ ItemIdOk 1 ∧ 1 = 1 :=
    ⟨notShorter_initial _, ⟨by decide, by decide⟩, rfl⟩
  -- the counters, as loads find them before the two saves
  have hfresh : FrameRep ⟨true, true⟩ (fun _ => 0xff) .fresh := frameRep_erased fun _ _ => rfl
  have hfirst := (wp_result (nvNwkFrameCountSaveToFlash_wp hfresh (show 5 < 0xffffffff by decide))).2
  have hload := (wp_result (nvNwkFrameCountFromFlash_wp hfresh trivial)).1
  have hsteps : (FrameLog.push 5 .fresh).Steps := fun k hk => absurd hk (by simp)
  have hload' := (wp_result (nvNwkFrameCountFromFlash_wp hfirst hsteps)).1
  have hsave : Saveable ⟨true, true⟩ (fun _ => 0xff)
      ((nvNwkFrameCountFromFlash ⟨true, true⟩).value fun _ => 0xff).2.toList 5 := by
    rw [hload]
    refine ⟨by decide, fun v hv => absurd hv List.not_mem_nil, fun v hv => ?_⟩
    rw [hload] at hv
    cases hv
  have hsave' : Saveable ⟨true, true⟩ ((nvNwkFrameCountSaveToFlash ⟨true, true⟩ 5).final fun _ => 0xff)
      ((nvNwkFrameCountFromFlash ⟨true, true⟩).value
        ((nvNwkFrameCountSaveToFlash ⟨true, true⟩ 5).final fun _ => 0xff)).2.toList 9 := by
    rw [hload']
    refine ⟨by decide, fun v hv => ?_, fun v hv => ?_⟩
    · rw [List.mem_singleton.mp hv]
      decide
    · rw [hload'] at hv
      cases hv
      decide
  have hstate (f : Flash) : (storeStep ⟨true, true⟩ f ⟨.nwkFrameCountSaveToFlash 5, none⟩).1 =
      (nvNwkFrameCountSaveToFlash ⟨true, true⟩ 5).final f := rfl
  have hcut : StoreCall.Ok ⟨true, true⟩ (fun _ _ => 1)
      (storeStep ⟨true, true⟩ (fun _ => 0xff) ⟨.nwkFrameCountSaveToFlash 5, none⟩).1
      ⟨.nwkFrameCountSaveToFlash 9, some 1⟩ := by
    rw [hstate]
    exact ⟨by decide, hsave'⟩
  refine nv_store_durable (L := fun _ _ => 1) (fun _ _ _ _ => rfl) ?_
  exact ⟨⟨by decide, hsave⟩, hcut, ⟨by decide, trivial⟩, ⟨by decide, rfl, hok⟩, ⟨by decide, hread⟩,
    ⟨by decide, rfl, hok'⟩, ⟨by decide, hread⟩, trivial⟩

end Rf4ce.Nv

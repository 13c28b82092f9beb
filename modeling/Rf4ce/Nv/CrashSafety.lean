import Rf4ce.Nv.Read

/-! Runs of the item store with power failures, and crash safety of `nv_flashWriteNew`. -/
namespace Rf4ce.Nv
open Crash Drv Common

/-- A call of the item store. -/
inductive Call where
  | write (alloc single : Bool) (itemId : Byte) (buf : List Byte)
  | read (g : NvItemLenCheck) (itemId : Byte) (len : Nat)
  | delete (opSect opIdx : Nat)

/-- The flash left when a call is cut after some prefix of its operations, the whole call
included. -/
def Call.Cut (c : NvCfg) (id : Nat) (f t : Flash) : Call → Prop
  | .write alloc single itemId buf => (nvFlashWriteNew c alloc single id itemId buf).Cut f t
  | .read g itemId len => (nvFlashReadNew c g id itemId len).Cut f t
  | .delete opSect opIdx => (nvItemDeleteByIndex c id opSect opIdx).Cut f t

def Erased (c : NvCfg) (id : Nat) (f : Flash) : Prop := ∀ x, InModule c id x → f x = 0xff

/-- The flash contents that calls with `legal` lead to, interrupted ones included. -/
inductive Reach (c : NvCfg) (id : Nat) (legal : Call → Prop) : Flash → Prop where
  | erased {f : Flash} (h : Erased c id f) : Reach c id legal f
  | call {f t : Flash} {k : Call} (hf : Reach c id legal f) (hk : legal k) (ht : k.Cut c id f t) :
      Reach c id legal t

/-- An erased module holds nothing. -/
theorem moduleRep_erased {c : NvCfg} {id : Nat} {f : Flash} (h : Erased c id f) (marked : Bool) :
    ModuleRep c id marked f .fresh := by
  have hsect {s x : Nat} (hs : s < 2) (h₁ : moduleSectStart c id s ≤ x)
      (h₂ : x < moduleSectEnd c id s) : f x = 0xff := h x (inModule_of_sect hs h₁ h₂)
  have hdead {s : Nat} (hs : s < 2) : SectDead c id f s := by
    have hin := sect_inner c id s
    exact .of_erased fun x h₁ h₂ => hsect hs h₁ (by omega)
  have htable {s : Nat} (hs : s < 2) : HasTable c id s f := by
    have hend := contextStart_le_sectEnd c id s
    exact ⟨false, [], .of_erased fun x h₁ h₂ => hsect hs (by omega) (by omega)⟩
  exact .fresh (hdead (by decide)) (hdead (by decide)) (htable (by decide)) (htable (by decide))

def ItemIdOk (itemId : Byte) : Prop := 1 ≤ itemId.toNat ∧ itemId.toNat ≤ 254

theorem ItemIdOk.ne_idle {itemId : Byte} (h : ItemIdOk itemId) : itemId ≠ itemFieldIdle := by
  rintro rfl
  exact absurd h.2 (by decide)

/-- No item is registered with a length shorter than the one it is used with. -/
def NotShorter (g : NvItemLenCheck) (L : Byte → Nat) : Prop :=
  ∀ itemId, ItemIdOk itemId → nvItemLengthValidCheck g itemId (L itemId) = L itemId

theorem notShorter_initial (L : Byte → Nat) : NotShorter .initial L := by
  intro itemId h
  have hne : ¬ itemFieldIdle = itemId := Ne.symm h.ne_idle
  simp [nvItemLengthValidCheck, NvItemLenCheck.initial, nvItemLenChkTabbleNum, hne]

/-- Every item in the table is registered with at least the length it is used with. -/
def Registered (g : NvItemLenCheck) (L : Byte → Nat) : Prop := ∀ p ∈ g.tbl, ItemIdOk p.1 → L p.1 ≤ p.2

theorem Registered.initial (L : Byte → Nat) : Registered .initial L := by
  intro p hp hitem
  rw [List.eq_of_mem_replicate hp] at hitem
  exact absurd rfl hitem.ne_idle

/-- An entry that is changed or added comes with its own length. -/
theorem Registered.add {g : NvItemLenCheck} {L : Byte → Nat} (h : Registered g L) {itemId : Byte} {len : Nat}
    (hlen : L itemId ≤ len) : Registered (nvItemLengthCheckAdd g itemId len) L := by
  have hset (i : Nat) : ∀ p ∈ g.tbl.set i (itemId, len), ItemIdOk p.1 → L p.1 ≤ p.2 := by
    intro p hp hitem
    rcases List.mem_or_eq_of_mem_set hp with hp | rfl
    · exact h p hp hitem
    · exact hlen
  unfold nvItemLengthCheckAdd
  split
  · exact hset _
  · split
    · exact h
    · exact hset _

theorem Registered.notShorter {g : NvItemLenCheck} {L : Byte → Nat} (h : Registered g L) : NotShorter g L := by
  intro itemId hitem
  unfold nvItemLengthValidCheck
  split
  · rename_i p hp
    have hid : p.1 = itemId := by simpa using List.find?_some hp
    have hle := h p (List.mem_of_find?_eq_some hp) (hid ▸ hitem)
    rw [hid] at hle
    exact Nat.min_eq_right hle
  · rfl

/-- Single-item writes and reads in which the id `i` is always used with the length `L i`. -/
def FixedLen (L : Byte → Nat) : Call → Prop
  | .write _ single itemId buf => single = true ∧ ItemIdOk itemId ∧ buf.length = L itemId
  | .read g itemId len => ItemIdOk itemId ∧ len = L itemId ∧ NotShorter g L
  | .delete _ _ => False

section Run
variable {c : NvCfg} {id : Nat} {L : Byte → Nat} {f : Flash}
variable (hid : id < dsMaxModuls) (hfc : id ≠ dsNwkFramecountModule)
include hid hfc

/-- Every run with fixed lengths keeps the log of the module in order. -/
theorem Reach.moduleRep (hf : Reach c id (FixedLen L) f) :
    ∃ m : Contents, ModuleRep c id false f m ∧ m.Uniform L := by
  induction hf with
  | erased h => exact ⟨.fresh, moduleRep_erased h false, trivial⟩
  | @call f t k _ hk ht ih =>
    obtain ⟨m, hrep, hu⟩ := ih
    cases k with
    | write alloc single itemId buf =>
      obtain ⟨rfl, -, hbuf⟩ := hk
      obtain ⟨m', hcut, hrep'⟩ := wp_cut (nvFlashWriteNew_wp hid hrep hfc alloc) ht
      exact ⟨m', hrep', hcut.uniform hbuf hu⟩
    | read g itemId len =>
      obtain ⟨hitem, rfl, hg⟩ := hk
      obtain rfl := wp_cut (nvFlashReadNew_wp hid hfc hrep hu hitem.ne_idle (hg itemId hitem)) ht
      exact ⟨m, hrep, hu⟩
    | delete opSect opIdx => exact hk.elim

/-- **Crash safety.** Cut a write of `itemId` anywhere: every other item reads as before, and
`itemId` reads as before or as the complete new payload. What was read before is a complete
payload or nothing. -/
theorem nvFlashWriteNew_crash_safe (hf : Reach c id (FixedLen L) f) {itemId : Byte}
    (hitem : ItemIdOk itemId) {buf : List Byte} (hbuf : buf.length = L itemId) (alloc : Bool)
    {t : Flash} (ht : (nvFlashWriteNew c alloc true id itemId buf).Cut f t)
    {g : NvItemLenCheck} (hg : NotShorter g L) :
    (∀ other, ItemIdOk other → other ≠ itemId →
      (nvFlashReadNew c g id other (L other)).value t = (nvFlashReadNew c g id other (L other)).value f) ∧
    ((nvFlashReadNew c g id itemId (L itemId)).value t =
        (nvFlashReadNew c g id itemId (L itemId)).value f ∨
      (nvFlashReadNew c g id itemId (L itemId)).value t = (.succ, some buf)) ∧
    ((nvFlashReadNew c g id itemId (L itemId)).value f = (.itemNotFound, none) ∨
      ∃ old, old.length = L itemId ∧
        (nvFlashReadNew c g id itemId (L itemId)).value f = (.succ, some old)) := by
  obtain ⟨m, hrep, hu⟩ := hf.moduleRep hid hfc
  obtain ⟨m', hcut, hrep'⟩ := wp_cut (nvFlashWriteNew_wp hid hrep hfc alloc) ht
  obtain ⟨hother, hself⟩ := hcut.lookup_eq hitem.ne_idle
  have hread {m : Contents} {f : Flash} (hrep : ModuleRep c id false f m) (hu : m.Uniform L) {i : Byte}
      (hi : ItemIdOk i) : (nvFlashReadNew c g id i (L i)).value f = readResult (m.lookup i) :=
    (wp_result (nvFlashReadNew_wp hid hfc hrep hu hi.ne_idle (hg i hi))).1
  have hu' := hcut.uniform hbuf hu
  refine ⟨fun other hok hne => ?_, ?_, ?_⟩
  · rw [hread hrep' hu' hok, hread hrep hu hok, hother other hne]
  · rw [hread hrep' hu' hitem, hread hrep hu hitem]
    rcases hself with h | h
    · exact .inl (by rw [h])
    · exact .inr (by rw [h]; rfl)
  · rw [hread hrep hu hitem]
    cases hold : m.lookup itemId with
    | none => exact .inl rfl
    | some old => exact .inr ⟨old, hu.lookup_length hold, rfl⟩

end Run

/-- Items 1 and 2 of module 0. -/
def twoItems : Flash :=
  (nvFlashWriteNew ⟨false, false⟩ true true 0 2 [0x51]).final
    ((nvFlashWriteNew ⟨false, false⟩ true true 0 1 [0x41]).final fun _ => 0xff)

/-- A new payload of item 1, of which the first three operations are done. -/
def cutItem : Flash := Crash.run twoItems (((nvFlashWriteNew ⟨false, false⟩ true true 0 1 [0x42]).ops twoItems).take 3)

theorem nvFlashWriteNew_crash_safe_two :
    (nvFlashReadNew ⟨false, false⟩ .initial 0 2 1).value cutItem =
        (nvFlashReadNew ⟨false, false⟩ .initial 0 2 1).value twoItems ∧
      ((nvFlashReadNew ⟨false, false⟩ .initial 0 1 1).value cutItem =
          (nvFlashReadNew ⟨false, false⟩ .initial 0 1 1).value twoItems ∨
        (nvFlashReadNew ⟨false, false⟩ .initial 0 1 1).value cutItem = (.succ, some [0x42])) := by
  have hok : ItemIdOk 1 ∧ ItemIdOk 2 := ⟨⟨by decide, by decide⟩, ⟨by decide, by decide⟩⟩
  have hfirst : FixedLen (fun _ => 1) (.write true true 1 [0x41]) := ⟨rfl, hok.1, rfl⟩
  have hsecond : FixedLen (fun _ => 1) (.write true true 2 [0x51]) := ⟨rfl, hok.2, rfl⟩
  have hreach : Reach ⟨false, false⟩ 0 (FixedLen fun _ => 1) twoItems :=
    .call (.call (.erased (f := fun _ => 0xff) fun _ _ => rfl) hfirst (Prog.cut_final _ _)) hsecond
      (Prog.cut_final _ _)
  obtain ⟨hother, hself, -⟩ := @nvFlashWriteNew_crash_safe ⟨false, false⟩ 0 (fun _ => 1) twoItems (by decide)
    (by decide) hreach 1 hok.1 [0x42] rfl true cutItem ⟨_, List.take_prefix 3 _, rfl⟩ .initial (notShorter_initial _)
  exact ⟨hother 2 hok.2 (by decide), hself⟩

end Rf4ce.Nv

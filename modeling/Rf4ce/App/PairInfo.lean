import Rf4ce.App.FrameCounter
import Rf4ce.Nv.OneItem

/-! The pairing of the remote in `app_common.c` and `callback_zrc.c`: `rcu_appInfo` in RAM, its copy in
the item store, and restarts. -/
namespace Rf4ce.App
open Crash Drv Nv Common

def dsUserModuls : Nat := 3
def appInfoNvItem : Byte := 1
def batThresholdPair : Nat := 2
def invalidPairRef : Byte := 0xff
def zrcRestore : Byte := 0x14

/-- The states of the application that the callbacks of the pairing set or test. -/
inductive AppState where
  | unconnect | ready | pairing | verifyPair | checkValidation
deriving DecidableEq, Repr

def AppState.toByte : AppState → Byte
  | .unconnect => 0x02
  | .ready => 0x03
  | .pairing => 0x11
  | .verifyPair => 0x12
  | .checkValidation => 0x13

/-- `app_Info_t` -/
structure AppInfo where
  pairingRef : Byte
  state : Byte
deriving DecidableEq, Repr

def AppInfo.bytes (i : AppInfo) : List Byte := [i.pairingRef, i.state]

def AppInfo.ofBytes (l : List Byte) : AppInfo := ⟨l.getD 0 0, l.getD 1 0⟩

@[simp] theorem AppInfo.ofBytes_bytes (i : AppInfo) : AppInfo.ofBytes i.bytes = i := rfl

def AppInfo.unpaired : AppInfo := ⟨invalidPairRef, AppState.unconnect.toByte⟩

/-- `rcu_appInfo`, and of `rcu_appVars` what the pairing reads or writes. -/
structure Rcu where
  info : AppInfo
  state : Byte
  battSta : Nat
  appInPair : Bool
deriving DecidableEq, Repr

def Rcu.savesFlash (s : Rcu) (volThreshold : Nat) : Bool := s.battSta ≤ volThreshold

section Code
variable (c : NvCfg) (g : NvItemLenCheck) (stack : FlashM Unit)

/-- The two work buffers are those of the two writes. -/
def saveAppInfo (alloc : Bool × Bool) (i : AppInfo) : FlashM Unit := do
  let ret ← nvFlashWriteNew c alloc.1 true dsUserModuls appInfoNvItem i.bytes
  if ret = .succ then pure ()
  else do
    let _ ← nvResetModule c dsUserModuls
    let _ ← nvFlashWriteNew c alloc.2 true dsUserModuls appInfoNvItem i.bytes
    pure ()

/-- The start of RAM, `app_batteryDetect` and `init_rcuState`. -/
def initRcuState (alloc : Bool × Bool) (battSta : Nat) : FlashM Rcu := do
  match ← nvFlashReadNew c g dsUserModuls appInfoNvItem 2 with
  | (.succ, some l) => pure ⟨.ofBytes l, (AppInfo.ofBytes l).state, battSta, false⟩
  | _ =>
    saveAppInfo c alloc .unpaired
    pure ⟨.unpaired, AppInfo.unpaired.state, battSta, false⟩

/-- `started` is whether `profile_startPair` accepts. -/
def zrcDoPair (started : Bool) (s : Rcu) : Rcu :=
  if s.savesFlash batThresholdPair = false then { s with state := s.info.state }
  else if s.appInPair = false ∧ started = true then
    { s with state := AppState.pairing.toByte, appInPair := true }
  else s

def zrcPairCnfCb (pairingRef status : Byte) (s : Rcu) : Rcu :=
  if status = 0 then { s with info := { s.info with pairingRef }, state := AppState.verifyPair.toByte } else s

def zrcCheckValidationCb (s : Rcu) : Rcu :=
  if s.state = AppState.verifyPair.toByte then { s with state := AppState.checkValidation.toByte } else s

/-- The saving end of the callbacks: `zrc_saveStackInfo` and `save_appInfo`. -/
def savePairing (alloc : Bool × Bool) (s : Rcu) : FlashM Rcu :=
  if s.savesFlash batThresholdFlash then do
    stack
    saveAppInfo c alloc s.info
    pure s
  else pure s

def zrcBondCnfCb (alloc : Bool × Bool) (pairingRef status : Byte) (s : Rcu) : FlashM Rcu :=
  let s := { s with appInPair := false }
  if status = 0 then
    let info := ⟨pairingRef, AppState.ready.toByte⟩
    savePairing c stack alloc { s with info, state := AppState.ready.toByte }
  else if status = zrcRestore then do
    let s := { s with info := ⟨pairingRef, AppState.ready.toByte⟩, state := AppState.ready.toByte }
    match ← nvFlashReadNew c g dsUserModuls appInfoNvItem 2 with
    | (.succ, some l) => pure { s with info := .ofBytes l }
    | _ => pure s
  else savePairing c stack alloc { s with info := .unpaired, state := AppState.unconnect.toByte }

def zrcUnPairCnfCb (alloc : Bool × Bool) (s : Rcu) : FlashM Rcu :=
  savePairing c stack alloc { s with info := .unpaired, state := AppState.unconnect.toByte }

/-! ### Runs -/

/-- What happens to the remote: a power-on, a new battery level, the callbacks, a new state of the
application, and flash operations of other code. -/
inductive RcuEv where
  | powerOn (alloc : Bool × Bool) (battSta : Nat)
  | battery (battSta : Nat)
  | doPair (started : Bool)
  | pairCnf (pairingRef status : Byte)
  | checkValidation
  | bondCnf (alloc : Bool × Bool) (pairingRef status : Byte)
  | unPairCnf (alloc : Bool × Bool)
  | setState (state : Byte)
  | flash (ops : List FlashOp)

def RcuEv.prog (s : Rcu) : RcuEv → FlashM Rcu
  | .powerOn alloc battSta => initRcuState c g alloc battSta
  | .battery battSta => pure { s with battSta }
  | .doPair started => pure (zrcDoPair started s)
  | .pairCnf pairingRef status => pure (zrcPairCnfCb pairingRef status s)
  | .checkValidation => pure (zrcCheckValidationCb s)
  | .bondCnf alloc pairingRef status => zrcBondCnfCb c g stack alloc pairingRef status s
  | .unPairCnf alloc => zrcUnPairCnfCb c stack alloc s
  | .setState state => pure { s with state }
  | .flash ops => do
    ops.forM fun op => issue op
    pure s

/-- An event, and the number of flash operations after which the power fails in it. -/
structure RcuCall where
  ev : RcuEv
  power : Option Nat

structure PairedRemote where
  flash : Flash
  ram : Rcu
  on : Bool

/-- When the power fails the remote is off until the next power-on. -/
def pairStep (s : PairedRemote) (k : RcuCall) : PairedRemote × Option Rcu :=
  let m := k.ev.prog c g stack s.ram
  match k.power with
  | none => (⟨m.final s.flash, m.value s.flash, true⟩, some (m.value s.flash))
  | some n => (⟨Crash.run s.flash ((m.ops s.flash).take n), s.ram, false⟩, none)

/-- A remote that is off starts with a power-on, and other code keeps out of the module. -/
def RcuCall.Ok (s : PairedRemote) (k : RcuCall) : Prop :=
  match k.ev with
  | .powerOn _ _ => True
  | .flash ops => s.on = true ∧ ∀ op ∈ ops, ∀ x, Device.foot op x → ¬ InModule c dsUserModuls x
  | _ => s.on = true

end Code

/-! ### A durable variable -/

/-- The pairing kept in a variable that survives power failures. With `torn` the last save was cut. -/
structure PairMemory where
  cell : Option AppInfo
  torn : Bool
  ram : Rcu

/-- RAM after the pairing was found, or set, to be `info`. -/
def Rcu.paired (s : Rcu) (info : AppInfo) : Rcu := { s with info, state := info.state, appInPair := false }

/-- What an event does to RAM, and what it saves. -/
def RcuEv.effect (cell : Option AppInfo) (s : Rcu) : RcuEv → Rcu × Option AppInfo
  | .powerOn _ battSta =>
    let boot (i : AppInfo) : Rcu := ⟨i, i.state, battSta, false⟩
    match cell with
    | some i => (boot i, none)
    | none => (boot .unpaired, some .unpaired)
  | .battery battSta => ({ s with battSta }, none)
  | .doPair started => (zrcDoPair started s, none)
  | .pairCnf pairingRef status => (zrcPairCnfCb pairingRef status s, none)
  | .checkValidation => (zrcCheckValidationCb s, none)
  | .bondCnf _ pairingRef status =>
    let ready : AppInfo := ⟨pairingRef, AppState.ready.toByte⟩
    let store (s : Rcu) := (s, if s.savesFlash batThresholdFlash then some s.info else none)
    if status = 0 then store (s.paired ready)
    else if status = zrcRestore then ({ s.paired ready with info := cell.getD ready }, none)
    else store (s.paired .unpaired)
  | .unPairCnf _ =>
    let s : Rcu := { s with info := .unpaired, state := AppState.unconnect.toByte }
    (s, if s.savesFlash batThresholdFlash then some s.info else none)
  | .setState state => ({ s with state }, none)
  | .flash _ => (s, none)

/-- The answers of a remote with a durable variable. A save that is cut counted or did not; nothing is
promised any more once two saves in a row were cut. -/
inductive Remembers : Option PairMemory → RcuCall → Option Rcu → Option PairMemory → Prop where
  | same {p : PairMemory} {ev : RcuEv} {ram : Rcu} (h : ev.effect p.cell p.ram = (ram, none)) :
      Remembers (some p) ⟨ev, none⟩ (some ram) (some { p with ram })
  | saved {p : PairMemory} {ev : RcuEv} {ram : Rcu} {i : AppInfo} (h : ev.effect p.cell p.ram = (ram, some i)) :
      Remembers (some p) ⟨ev, none⟩ (some ram) (some ⟨some i, false, ram⟩)
  | off {p : PairMemory} {ev : RcuEv} {n : Nat} (h : (ev.effect p.cell p.ram).2 = none) :
      Remembers (some p) ⟨ev, some n⟩ none (some p)
  | lost {p : PairMemory} {ev : RcuEv} {n : Nat} {i : AppInfo} (h : p.torn = false)
      (hsave : (ev.effect p.cell p.ram).2 = some i) :
      Remembers (some p) ⟨ev, some n⟩ none (some { p with torn := true })
  | kept {p : PairMemory} {ev : RcuEv} {n : Nat} {i : AppInfo} (h : p.torn = false)
      (hsave : (ev.effect p.cell p.ram).2 = some i) :
      Remembers (some p) ⟨ev, some n⟩ none (some ⟨some i, true, p.ram⟩)
  | forgot {p : PairMemory} {ev : RcuEv} {n : Nat} {i : AppInfo} (h : p.torn = true)
      (hsave : (ev.effect p.cell p.ram).2 = some i) : Remembers (some p) ⟨ev, some n⟩ none none
  | unknown {k : RcuCall} {a : Option Rcu} : Remembers none k a none

/-! ### The module of the application -/

/-- The item module behind a pairing memory. -/
def PairRep (c : NvCfg) (s : PairedRemote) : Option PairMemory → Prop
  | none => True
  | some p => s.ram = p.ram ∧
      if p.torn then ItemTorn c dsUserModuls appInfoNvItem 2 s.flash (p.cell.map AppInfo.bytes)
      else ItemHolds c dsUserModuls appInfoNvItem 2 s.flash (p.cell.map AppInfo.bytes)

theorem userModuls_roomy (c : NvCfg) : Roomy c dsUserModuls 2 := by
  obtain ⟨flashCap1M, idxResv⟩ := c
  constructor
  · decide
  · intro s
    unfold moduleContextStart moduleSectEnd moduleSectStart
    have hsize : nvSectorSize dsUserModuls = 4096 := rfl
    have hinfo : moduleInfoSize dsUserModuls = 256 := rfl
    have hnum : moduleIdxNum ⟨flashCap1M, idxResv⟩ dsUserModuls * roundUp4 (itemTotalLen 2) ≤ 3840 := by
      cases flashCap1M <;> cases idxResv <;> decide
    rw [hsize, hinfo, Nat.succ_mul]
    omega

section Save
variable {c : NvCfg} {f : Flash} {v : Option (List Byte)}

theorem userModuls_item : dsUserModuls < dsMaxModuls ∧ dsUserModuls ≠ dsNwkFramecountModule ∧ ItemIdOk appInfoNvItem :=
  ⟨by decide, by decide, by decide, by decide⟩

/-- A save heals a log that was left unfinished: when it completes the pairing is stored. -/
theorem saveAppInfo_heals (h : ItemTorn c dsUserModuls appInfoNvItem 2 f v) (alloc : Bool × Bool) (i : AppInfo) :
    wp (fun _ => True) (saveAppInfo c alloc i)
      (fun _ t => ItemHolds c dsUserModuls appInfoNvItem 2 t (some i.bytes)) (fun _ => True) f := by
  obtain ⟨hid, hfc, hitem⟩ := userModuls_item
  apply wp_bind
  apply wp_region (wp_mono (h.write hid hfc hitem rfl alloc.1) _ _)
  · exact fun _ _ => trivial
  · intro r t hpost
    split_ifs at hpost ⊢ with hr
    · exact wp_pure hpost trivial
    have herased := nvResetModule_erased c dsUserModuls t
    apply wp_bind
    refine ⟨fun _ _ _ _ => trivial, ?_, fun _ _ => trivial⟩
    apply wp_bind
    apply wp_region (wp_mono ((itemHolds_erased herased).write hid hfc hitem (userModuls_roomy c) rfl alloc.2) _ _)
    · exact fun _ _ => trivial
    · exact fun r' t' hpost' => wp_pure hpost'.2 trivial
    · exact fun _ _ => trivial
  · exact fun _ _ => trivial

/-- Behind a finished log a save that is cut leaves the old pairing or the new one. -/
theorem saveAppInfo_wp (h : ItemHolds c dsUserModuls appInfoNvItem 2 f v) (alloc : Bool × Bool) (i : AppInfo) :
    wp (fun _ => True) (saveAppInfo c alloc i)
      (fun _ t => ItemHolds c dsUserModuls appInfoNvItem 2 t (some i.bytes))
      (fun t => ItemTorn c dsUserModuls appInfoNvItem 2 t v ∨
        ItemTorn c dsUserModuls appInfoNvItem 2 t (some i.bytes)) f := by
  obtain ⟨hid, hfc, hitem⟩ := userModuls_item
  apply wp_bind
  apply wp_region (wp_mono (h.write hid hfc hitem (userModuls_roomy c) rfl alloc.1) _ _)
  · exact fun _ _ => trivial
  · intro r t hpost
    obtain ⟨rfl, hholds⟩ := hpost
    rw [if_pos rfl]
    exact wp_pure hholds (.inr hholds.torn)
  · exact fun _ hcut => hcut

end Save

/-! ### Events -/

/-- A program that leaves the module of the application alone. -/
def Quiet (c : NvCfg) (m : FlashM Rcu) (f : Flash) (ram : Rcu) : Prop :=
  wp (fun _ => True) m (fun r _ => r = ram) (fun t => ∀ x, InModule c dsUserModuls x → t x = f x) f

/-- A program that saves the pairing `i` where `v` was stored. -/
structure Saves (c : NvCfg) (m : FlashM Rcu) (f : Flash) (v : Option (List Byte)) (ram : Rcu) (i : AppInfo) : Prop where
  heals : wp (fun _ => True) m (fun r t => r = ram ∧ ItemHolds c dsUserModuls appInfoNvItem 2 t (some i.bytes))
    (fun _ => True) f
  cut : ItemHolds c dsUserModuls appInfoNvItem 2 f v →
    wp (fun _ => True) m (fun _ _ => True) (fun t => ItemTorn c dsUserModuls appInfoNvItem 2 t v ∨
      ItemTorn c dsUserModuls appInfoNvItem 2 t (some i.bytes)) f

section Events
variable {c : NvCfg} {g : NvItemLenCheck} {stack : FlashM Unit} {f : Flash} {cell : Option AppInfo} {s : Rcu}

theorem quiet_pure (s : Rcu) : Quiet c (pure s) f s := wp_pure rfl fun _ _ => rfl

/-- The stack saves to its own modules. -/
def KeepsOut (c : NvCfg) (stack : FlashM Unit) : Prop :=
  ∀ f, ∀ op ∈ stack.ops f, ∀ x, Device.foot op x → ¬ InModule c dsUserModuls x

theorem KeepsOut.wp (h : KeepsOut c stack) (f : Flash) : wp (fun x => ¬ InModule c dsUserModuls x) stack
    (fun _ _ => True) (fun _ => True) f := ⟨h f, trivial, fun _ _ => trivial⟩

theorem savePairing_wp (hstack : KeepsOut c stack) {alloc : Bool × Bool} {Q C : Flash → Prop}
    (hbatt : s.savesFlash batThresholdFlash = true)
    (hC : ∀ t, (∀ x, InModule c dsUserModuls x → t x = f x) → C t) (hQC : ∀ t, Q t → C t)
    (hsave : ∀ t, (∀ x, InModule c dsUserModuls x → t x = f x) →
      wp (fun _ => True) (saveAppInfo c alloc s.info) (fun _ => Q) C t) :
    wp (fun _ => True) (savePairing c stack alloc s) (fun r t => r = s ∧ Q t) C f := by
  rw [savePairing, if_pos hbatt]
  have hframe {t : Flash} (ht : ∀ x, ¬ ¬ InModule c dsUserModuls x → t x = f x) :
      ∀ x, InModule c dsUserModuls x → t x = f x := fun x hx => ht x (not_not_intro hx)
  apply wp_seq (hstack.wp f)
  · exact fun _ _ => trivial
  · exact fun t _ ht => hC t (hframe ht)
  intro _ t _ ht
  apply wp_bind
  apply wp_mono (hsave t (hframe ht))
  · exact fun _ t' hQ => wp_pure ⟨rfl, hQ⟩ (hQC t' hQ)
  · exact fun _ hcut => hcut

theorem savePairing_saves (hstack : KeepsOut c stack)
    (h : ItemTorn c dsUserModuls appInfoNvItem 2 f (cell.map AppInfo.bytes)) (alloc : Bool × Bool)
    (hbatt : s.savesFlash batThresholdFlash = true) :
    Saves c (savePairing c stack alloc s) f (cell.map AppInfo.bytes) s s.info := by
  constructor
  · exact savePairing_wp hstack hbatt (fun _ _ => trivial) (fun _ _ => trivial)
      fun t ht => saveAppInfo_heals (h.congr ht) alloc s.info
  · intro hholds
    apply wp_mono (savePairing_wp hstack hbatt (fun t ht => .inl (hholds.congr ht).torn) (fun t hQ => .inr hQ.torn)
      fun t ht => saveAppInfo_wp (hholds.congr ht) alloc s.info)
    · exact fun _ _ _ => trivial
    · exact fun _ hcut => hcut

theorem savePairing_quiet (alloc : Bool × Bool) (hbatt : s.savesFlash batThresholdFlash = false) :
    Quiet c (savePairing c stack alloc s) f s := by
  rw [savePairing, hbatt, if_neg Bool.false_ne_true]
  exact quiet_pure s

theorem flash_quiet {ops : List FlashOp} (hops : ∀ op ∈ ops, ∀ x, Device.foot op x → ¬ InModule c dsUserModuls x) :
    Quiet c (do ops.forM fun op => issue op; pure s) f s := by
  have hissue : ∀ t, wp (fun x => ¬ InModule c dsUserModuls x) (ops.forM fun op => issue op : FlashM Unit)
      (fun _ _ => True) (fun _ => True) t := by
    induction ops with
    | nil => exact fun t => wp_pure trivial trivial
    | cons op ops ih =>
      intro t
      obtain ⟨hop, hops⟩ := List.forall_mem_cons.mp hops
      apply wp_bind
      apply wp_issue hop trivial trivial
      exact ih hops _
  apply wp_seq (hissue f)
  · exact fun _ _ => trivial
  · exact fun t _ ht x hx => ht x (not_not_intro hx)
  · exact fun _ t _ ht => wp_pure rfl fun x hx => ht x (not_not_intro hx)

/-- An event over the flash does what it does over a durable variable. -/
def Does (c : NvCfg) (m : FlashM Rcu) (f : Flash) (cell : Option AppInfo) (r : Rcu × Option AppInfo) : Prop :=
  match r.2 with
  | none => Quiet c m f r.1
  | some i => Saves c m f (cell.map AppInfo.bytes) r.1 i

theorem savePairing_does (hstack : KeepsOut c stack)
    (h : ItemTorn c dsUserModuls appInfoNvItem 2 f (cell.map AppInfo.bytes)) (alloc : Bool × Bool) (s : Rcu) :
    Does c (savePairing c stack alloc s) f cell (s, if s.savesFlash batThresholdFlash then some s.info else none) := by
  cases hbatt : s.savesFlash batThresholdFlash with
  | true => exact savePairing_saves hstack h alloc hbatt
  | false => exact savePairing_quiet alloc hbatt

variable (hg : NotShorter g fun _ => 2)
include hg

/-- The application reads its pairing first. -/
theorem read_wp (cell : Option AppInfo) (h : ItemTorn c dsUserModuls appInfoNvItem 2 f (cell.map AppInfo.bytes))
    {k : NvSts × Option (List Byte) → FlashM Rcu} {Q : Rcu → Flash → Prop} {C : Flash → Prop} (hC : C f)
    (hk : wp (fun _ => True) (k (readResult (cell.map AppInfo.bytes))) Q C f) :
    wp (fun _ => True) (nvFlashReadNew c g dsUserModuls appInfoNvItem 2 >>= k) Q C f := by
  obtain ⟨hid, hfc, hitem⟩ := userModuls_item
  apply wp_bind
  apply wp_region (wp_mono (h.read hid hfc hitem hg) _ _)
  · exact fun _ _ => trivial
  · intro r t hpost
    obtain ⟨rfl, rfl⟩ := hpost
    exact hk
  · intro t ht
    rw [ht]
    exact hC

theorem initRcuState_known (i : AppInfo)
    (h : ItemTorn c dsUserModuls appInfoNvItem 2 f (some i.bytes)) (alloc : Bool × Bool) (battSta : Nat) :
    Quiet c (initRcuState c g alloc battSta) f ⟨i, i.state, battSta, false⟩ := by
  apply read_wp hg (some i) h (fun _ _ => rfl)
  exact wp_pure rfl fun _ _ => rfl

theorem initRcuState_blank (h : ItemTorn c dsUserModuls appInfoNvItem 2 f none) (alloc : Bool × Bool) (battSta : Nat) :
    Saves c (initRcuState c g alloc battSta) f none ⟨.unpaired, AppInfo.unpaired.state, battSta, false⟩
      .unpaired := by
  constructor
  · apply read_wp hg none h trivial
    apply wp_bind
    apply wp_mono (saveAppInfo_heals h alloc .unpaired)
    · exact fun _ t ht => wp_pure ⟨rfl, ht⟩ trivial
    · exact fun _ _ => trivial
  · intro hholds
    apply read_wp hg none h (.inl h)
    apply wp_bind
    apply wp_mono (saveAppInfo_wp hholds alloc .unpaired)
    · exact fun _ t ht => wp_pure trivial (.inr ht.torn)
    · exact fun _ hcut => hcut

theorem RcuEv.does (hstack : KeepsOut c stack)
    (h : ItemTorn c dsUserModuls appInfoNvItem 2 f (cell.map AppInfo.bytes)) (s : Rcu) (ev : RcuEv)
    (hev : ∀ ops, ev = .flash ops → ∀ op ∈ ops, ∀ x, Device.foot op x → ¬ InModule c dsUserModuls x) :
    Does c (ev.prog c g stack s) f cell (ev.effect cell s) := by
  cases ev with
  | powerOn alloc battSta =>
    cases cell with
    | some i => exact initRcuState_known hg i h alloc battSta
    | none => exact initRcuState_blank hg h alloc battSta
  | battery battSta => exact quiet_pure _
  | doPair started => exact quiet_pure _
  | pairCnf pairingRef status => exact quiet_pure _
  | checkValidation => exact quiet_pure _
  | setState state => exact quiet_pure _
  | flash ops => exact flash_quiet (hev ops rfl)
  | unPairCnf alloc => exact savePairing_does hstack h alloc _
  | bondCnf alloc pairingRef status =>
    simp only [RcuEv.prog, zrcBondCnfCb, RcuEv.effect]
    by_cases hbond : status = 0
    · rw [if_pos hbond, if_pos hbond]
      exact savePairing_does hstack h alloc _
    rw [if_neg hbond, if_neg hbond]
    by_cases hrestore : status = zrcRestore
    · rw [if_pos hrestore, if_pos hrestore]
      change Quiet c _ f _
      apply read_wp hg cell h (fun _ _ => rfl)
      cases cell with
      | some i => exact quiet_pure _
      | none => exact quiet_pure _
    · rw [if_neg hrestore, if_neg hrestore]
      exact savePairing_does hstack h alloc _

end Events

/-! ### The remote remembers -/

section Remember
variable {c : NvCfg} {g : NvItemLenCheck} {stack : FlashM Unit}
variable (hg : NotShorter g fun _ => 2) (hstack : KeepsOut c stack)
include hg hstack

theorem pairStep_remembers {s : PairedRemote} {m : Option PairMemory} {k : RcuCall} (h : PairRep c s m) (hk : k.Ok c s) :
    ∃ m', Remembers m k (pairStep c g stack s k).2 m' ∧ PairRep c (pairStep c g stack s k).1 m' := by
  cases m with
  | none => exact ⟨none, .unknown, trivial⟩
  | some p =>
  obtain ⟨hram, hflash⟩ := h
  have htorn : ItemTorn c dsUserModuls appInfoNvItem 2 s.flash (p.cell.map AppInfo.bytes) := by
    split_ifs at hflash
    · exact hflash
    · exact hflash.torn
  obtain ⟨ev, power⟩ := k
  have hev (ops : List FlashOp) (heq : ev = .flash ops) :
      ∀ op ∈ ops, ∀ x, Device.foot op x → ¬ InModule c dsUserModuls x := by
    subst heq
    exact hk.2
  have hdoes := RcuEv.does hg hstack htorn s.ram ev hev
  rw [Does] at hdoes
  -- the module is the old one where nothing was saved
  have hkeep {t : Flash} (ht : ∀ x, InModule c dsUserModuls x → t x = s.flash x) :
      if p.torn then ItemTorn c dsUserModuls appInfoNvItem 2 t (p.cell.map AppInfo.bytes)
      else ItemHolds c dsUserModuls appInfoNvItem 2 t (p.cell.map AppInfo.bytes) := by
    split_ifs at hflash ⊢
    · exact hflash.congr ht
    · exact hflash.congr ht
  rw [hram] at hdoes
  simp only [pairStep]
  rw [hram]
  cases hsave : (ev.effect p.cell p.ram).2 with
  | none =>
    rw [hsave] at hdoes
    cases power with
    | none =>
      have hvalue := wp_result hdoes
      refine ⟨some { p with ram := (ev.effect p.cell p.ram).1 }, ?_, hvalue, hkeep (wp_cut hdoes (Prog.cut_final _ _))⟩
      rw [hvalue]
      exact .same (Prod.ext rfl hsave)
    | some n => exact ⟨some p, .off hsave, rfl, hkeep (wp_cut hdoes ⟨_, List.take_prefix n _, rfl⟩)⟩
  | some i =>
    rw [hsave] at hdoes
    cases power with
    | none =>
      obtain ⟨hvalue, hholds⟩ := wp_result hdoes.heals
      refine ⟨some ⟨some i, false, (ev.effect p.cell p.ram).1⟩, ?_, hvalue, hholds⟩
      rw [hvalue]
      exact .saved (Prod.ext rfl hsave)
    | some n =>
      cases hpt : p.torn with
      | true => exact ⟨none, .forgot hpt hsave, trivial⟩
      | false =>
        rw [hpt, if_neg Bool.false_ne_true] at hflash
        rcases wp_cut (hdoes.cut hflash) ⟨_, List.take_prefix n _, rfl⟩ with hold | hnew
        · exact ⟨some { p with torn := true }, .lost hpt hsave, rfl, hold⟩
        · exact ⟨some ⟨some i, true, p.ram⟩, .kept hpt hsave, rfl, hnew⟩

/-- **The remote remembers its pairing.** From erased flash the remote goes through power-ons, pairings
and their ends, with the power failing anywhere, as one that keeps its pairing in a durable variable. -/
theorem pairing_durable {f : Flash} (hf : Erased c dsUserModuls f) (s : Rcu) {ks : List RcuCall}
    (hks : Refine.Legal (pairStep c g stack) (RcuCall.Ok c) ⟨f, s, false⟩ ks) :
    ∃ m, Refine.Allows Remembers (some ⟨none, false, s⟩) ks
      (Refine.run (pairStep c g stack) ⟨f, s, false⟩ ks).2 m := by
  have hstart : PairRep c ⟨f, s, false⟩ (some ⟨none, false, s⟩) := ⟨rfl, itemHolds_erased hf⟩
  obtain ⟨m, hallows, -⟩ := Refine.run_allowed (fun _ _ _ => pairStep_remembers hg hstack) hstart hks
  exact ⟨m, hallows⟩

end Remember

/-- A bond, a power failure in the save of the end of the pairing, and the next power-on. -/
def pairedOnce : List RcuCall :=
  [⟨.powerOn (true, true) 0, none⟩, ⟨.bondCnf (true, true) 0 0, none⟩, ⟨.unPairCnf (true, true), some 3⟩,
    ⟨.powerOn (true, true) 0, none⟩]

theorem pairing_durable_once :
    ∃ m, Refine.Allows Remembers (some ⟨none, false, ⟨.unpaired, 0, 0, false⟩⟩) pairedOnce
      (Refine.run (pairStep ⟨true, false⟩ .initial (pure ())) ⟨fun _ => 0xff, ⟨.unpaired, 0, 0, false⟩, false⟩
        pairedOnce).2 m := by
  have hout : KeepsOut ⟨true, false⟩ (pure ()) := fun _ _ hop => absurd hop List.not_mem_nil
  refine pairing_durable (notShorter_initial _) hout (fun _ _ => rfl) _ ?_
  exact ⟨trivial, rfl, rfl, trivial, trivial⟩

end Rf4ce.App

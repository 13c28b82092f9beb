import Rf4ce.Crash.Bytes
import Rf4ce.Refine.Run
import Mathlib.Data.List.Nodup
import Mathlib.Logic.Function.Basic

/-! The counter of secured frames in `app_common.c` and `sys.c`: the network layer counts in RAM,
a deep sleep carries the counter in analog registers, and flash holds it for a power loss. -/
namespace Rf4ce.App
open Crash

def regMacChannel : Nat := 0x36
def regNwkSeqNo : Nat := 0x37
def batThresholdFlash : Nat := 3
def batLevelCutoff : Nat := 4
def rf4ceInvalidPairRef : Nat := 0xff
def appReadyState : Nat := 0x03
def appOtaState : Nat := 0x30
def appAudioState : Nat := 0x40

/-- `NWK_ADD_FRAME_COUNTER` of `profile_config.h`. -/
def nwkAddFrameCounter : Nat := 0x400

/-- `pmFlag_t`, with the bit fields `ch : 3`, `pmDeep : 1` and `battSta : 4`. -/
structure PmFlag where
  ch : Nat
  pmDeep : Bool
  battSta : Nat

def PmFlag.ofByte (b : Byte) : PmFlag := ⟨b.toNat % 8, b.toNat / 8 % 2 = 1, b.toNat / 16⟩

def PmFlag.toByte (f : PmFlag) : Byte := BitVec.ofNat 8 (f.ch % 8 + 8 * f.pmDeep.toNat + 16 * (f.battSta % 16))

/-- The analog registers, the counter in flash, and in RAM the counter of the network layer, the
static variable of `app_idle_handler`, the entry of the pairing table and the battery state. -/
structure FrameCount where
  analog : Nat → Byte
  frameCountInFlash : Nat
  frameCounter : Nat
  nwkFrameCntInFlash : Nat
  pairingRef : Nat
  destChannel : Option Nat
  battSta : Nat
  battStaUpload : Bool

section Code
variable (nwkAdd : Nat) (channel2Idx idx2Channel : Nat → Nat)

def nwkSavePibFrameCountToFlash (c : FrameCount) : FrameCount := { c with frameCountInFlash := c.frameCounter }

def checkBatteryBeforeSaveFlash (c : FrameCount) (volThreshold : Nat) : Bool := c.battSta ≤ volThreshold

def appSaveInfoPm (c : FrameCount) : FrameCount × Nat :=
  let pmInfo := PmFlag.ofByte (c.analog regMacChannel)
  let battStaUpload := c.battStaUpload || c.battSta != pmInfo.battSta
  let ch := match c.destChannel with
    | some chn => channel2Idx chn
    | none => pmInfo.ch
  let analog := Function.update c.analog regMacChannel (PmFlag.toByte ⟨ch, true, c.battSta⟩)
  let analog := storeBytes analog regNwkSeqNo (le32 c.frameCounter)
  if c.battSta > batLevelCutoff then ({ c with analog, battStaUpload }, 0)
  else if battStaUpload then ({ c with analog, battStaUpload := false }, 2)
  else ({ c with analog, battStaUpload }, 1)

/-- The flag is whether `platform_lowpower_enter` is reached; `pinActive` when a wake-up pin is at
its wake-up level. -/
def sysEnterDeepsleepMode (c : FrameCount) (pinActive : Bool) : FrameCount × Bool :=
  let r := appSaveInfoPm channel2Idx c
  (r.1, r.2 = 0 || r.2 = 1 && !pinActive)

def nwkFrameCountUpdate (c : FrameCount) : FrameCount × Nat :=
  if c.pairingRef ≠ rf4ceInvalidPairRef then
    let nwkFrameCnt := (c.frameCounter + nwkAdd) % 4294967296
    let c := { c with frameCounter := nwkFrameCnt }
    if checkBatteryBeforeSaveFlash c batThresholdFlash then (nwkSavePibFrameCountToFlash c, nwkFrameCnt)
    else (c, nwkFrameCnt)
  else (c, c.frameCounter)

/-- `battSta` is what `app_batteryDetect` finds. -/
def appLoadInfo (c : FrameCount) (battSta : Nat) : FrameCount :=
  let pmInfo := PmFlag.ofByte (c.analog regMacChannel)
  if pmInfo.pmDeep then
    { c with
      destChannel := c.destChannel.map fun chn => if pmInfo.ch ≠ 0 then idx2Channel pmInfo.ch else chn
      battSta := pmInfo.battSta
      analog := Function.update c.analog regMacChannel { pmInfo with pmDeep := false }.toByte
      frameCounter := ofLe (bytes c.analog regNwkSeqNo 4) }
  else
    let r := nwkFrameCountUpdate nwkAdd { c with battSta, battStaUpload := true }
    let analog := storeBytes r.1.analog regNwkSeqNo (le32 0)
    { r.1 with
      analog := Function.update analog regMacChannel { pmInfo with pmDeep := false }.toByte
      frameCounter := r.2 }

def appIdleHandler (c : FrameCount) (state : Nat) : FrameCount :=
  if state = appReadyState ∨ state = appOtaState ∨ state = appAudioState then
    let inFlash := if c.nwkFrameCntInFlash = 0 then c.frameCountInFlash else c.nwkFrameCntInFlash
    if (inFlash + nwkAdd) % 4294967296 < c.frameCounter then
      { c with frameCountInFlash := c.frameCounter, nwkFrameCntInFlash := c.frameCounter }
    else { c with nwkFrameCntInFlash := inFlash }
  else c

/-! ### Restarts -/

/-- What a restart finds: the entry of the pairing table and the battery. -/
structure Boot where
  destChannel : Option Nat
  battSta : Nat

/-- RAM starts anew, the library from the counter in flash, up to the end of `app_loadInfo`. -/
def boot (c : FrameCount) (b : Boot) : FrameCount :=
  appLoadInfo nwkAdd idx2Channel
    { c with
      frameCounter := c.frameCountInFlash
      nwkFrameCntInFlash := 0
      destChannel := b.destChannel
      battSta := b.battSta
      battStaUpload := false } b.battSta

inductive RemoteEv where
  | frame
  | idle (state : Nat)
  | deepSleep (pinActive : Bool) (b : Boot)
  | reset (b : Boot)
  | powerLoss (analog : Nat → Byte) (b : Boot)

/-- With whether a frame was sent since the last idle pass; the answer is the counter of a frame
that is sent. -/
def remoteEvStep (s : FrameCount × Bool) : RemoteEv → (FrameCount × Bool) × Option Nat
  | .frame => (({ s.1 with frameCounter := (s.1.frameCounter + 1) % 4294967296 }, true), some s.1.frameCounter)
  | .idle state => ((appIdleHandler nwkAdd s.1 state, false), none)
  | .deepSleep pinActive b =>
    let r := sysEnterDeepsleepMode channel2Idx s.1 pinActive
    if r.2 then ((boot nwkAdd idx2Channel r.1 b, s.2), none) else ((r.1, s.2), none)
  | .reset b => ((boot nwkAdd idx2Channel s.1 b, s.2), none)
  | .powerLoss analog b => ((boot nwkAdd idx2Channel { s.1 with analog } b, s.2), none)

end Code

/-- `pmDeep` as `app_loadInfo` reads it. -/
def PmDeep (analog : Nat → Byte) : Prop := (PmFlag.ofByte (analog regMacChannel)).pmDeep = true

/-- At most one frame between two idle passes; the battery lasts, and a power loss clears the
flag. -/
def RemoteEnv (s : FrameCount × Bool) : RemoteEv → Prop
  | .frame => s.2 = false
  | .idle state => state = appReadyState ∨ state = appOtaState ∨ state = appAudioState
  | .deepSleep _ b => b.battSta ≤ batThresholdFlash
  | .reset b => b.battSta ≤ batThresholdFlash
  | .powerLoss analog b => b.battSta ≤ batThresholdFlash ∧ ¬ PmDeep analog

/-- The last frame did not take the last counter that the one in flash allows, and the sum with
that counter does not wrap. -/
def FlashCovers (nwkAdd : Nat) (c : FrameCount) : Prop :=
  c.frameCountInFlash + nwkAdd < 4294967296 ∧ c.frameCounter ≠ c.frameCountInFlash + nwkAdd + 1

/-- A reset with `pmDeep` finds the current counter in the registers, other restarts are covered
by flash, and the counter does not wrap. -/
def CountKept (nwkAdd : Nat) (s : FrameCount × Bool) : RemoteEv → Prop
  | .frame => s.1.frameCounter + 1 < 4294967296
  | .idle _ => True
  | .deepSleep _ _ => True
  | .reset _ => (PmDeep s.1.analog → ofLe (bytes s.1.analog regNwkSeqNo 4) = s.1.frameCounter) ∧
      (¬ PmDeep s.1.analog → FlashCovers nwkAdd s.1)
  | .powerLoss _ _ => FlashCovers nwkAdd s.1

section Restarts
variable {nwkAdd : Nat} {channel2Idx idx2Channel : Nat → Nat}

theorem PmFlag.toByte_pmDeep (ch battSta : Nat) : (PmFlag.ofByte (PmFlag.toByte ⟨ch, true, battSta⟩)).pmDeep = true := by
  unfold PmFlag.ofByte PmFlag.toByte
  simp only [BitVec.toNat_ofNat, Bool.toNat_true, decide_eq_true_eq]
  omega

/-- `app_saveInfoPm` leaves the counter in the registers, under the flag. -/
theorem appSaveInfoPm_saved (channel2Idx : Nat → Nat) (c : FrameCount) (hlt : c.frameCounter < 4294967296) :
    PmDeep (appSaveInfoPm channel2Idx c).1.analog ∧
      ofLe (bytes (appSaveInfoPm channel2Idx c).1.analog regNwkSeqNo 4) = c.frameCounter := by
  have hanalog : ∃ ch, (appSaveInfoPm channel2Idx c).1.analog =
      storeBytes (Function.update c.analog regMacChannel (PmFlag.toByte ⟨ch, true, c.battSta⟩)) regNwkSeqNo
        (le32 c.frameCounter) := by
    unfold appSaveInfoPm
    dsimp only
    split_ifs <;> exact ⟨_, rfl⟩
  obtain ⟨ch, hanalog⟩ := hanalog
  rw [hanalog]
  constructor
  · unfold PmDeep
    rw [storeBytes_outside (.inl (by decide)), Function.update_self]
    exact PmFlag.toByte_pmDeep _ _
  · rw [show 4 = (le32 c.frameCounter).length from rfl, bytes_storeBytes, ofLe_le32 hlt]

/-- It changes nothing else that the counter depends on. -/
theorem appSaveInfoPm_counts (channel2Idx : Nat → Nat) (c : FrameCount) :
    (appSaveInfoPm channel2Idx c).1.frameCounter = c.frameCounter ∧
      (appSaveInfoPm channel2Idx c).1.frameCountInFlash = c.frameCountInFlash ∧
      (appSaveInfoPm channel2Idx c).1.nwkFrameCntInFlash = c.nwkFrameCntInFlash ∧
      (appSaveInfoPm channel2Idx c).1.pairingRef = c.pairingRef := by
  unfold appSaveInfoPm
  dsimp only
  split_ifs <;> exact ⟨rfl, rfl, rfl, rfl⟩

/-- The state that the runs start from and come back to. -/
structure Counted (nwkAdd : Nat) (s : FrameCount × Bool) : Prop where
  paired : s.1.pairingRef ≠ rf4ceInvalidPairRef
  lt : s.1.frameCounter < 4294967296
  covered : s.1.frameCounter ≤ s.1.frameCountInFlash + nwkAdd + s.2.toNat
  inFlash : s.1.nwkFrameCntInFlash = 0 ∨ s.1.nwkFrameCntInFlash = s.1.frameCountInFlash

/-- A restart from deep sleep goes on with the counter in the registers. -/
theorem boot_pmDeep (idx2Channel : Nat → Nat) (b : Boot) {c : FrameCount} {sent : Bool}
    (h : Counted nwkAdd (c, sent)) (hdeep : PmDeep c.analog)
    (hregs : ofLe (bytes c.analog regNwkSeqNo 4) = c.frameCounter) :
    (boot nwkAdd idx2Channel c b).frameCounter = c.frameCounter ∧ Counted nwkAdd (boot nwkAdd idx2Channel c b, sent) := by
  have hboot : (boot nwkAdd idx2Channel c b).frameCounter = c.frameCounter ∧
      (boot nwkAdd idx2Channel c b).frameCountInFlash = c.frameCountInFlash ∧
      (boot nwkAdd idx2Channel c b).nwkFrameCntInFlash = 0 ∧
      (boot nwkAdd idx2Channel c b).pairingRef = c.pairingRef := by
    unfold boot appLoadInfo
    dsimp only
    unfold PmDeep at hdeep
    rw [if_pos hdeep]
    exact ⟨hregs, rfl, rfl, rfl⟩
  obtain ⟨hcount, hflash, hin, hpair⟩ := hboot
  refine ⟨hcount, ?_, ?_, ?_, .inl hin⟩
  · rw [hpair]
    exact h.paired
  · rw [hcount]
    exact h.lt
  · rw [hcount, hflash]
    exact h.covered

/-- A restart without the flag skips ahead of the counter in flash, and saves. -/
theorem boot_power (nwkAdd : Nat) (idx2Channel : Nat → Nat) {c : FrameCount} {b : Boot}
    (hpair : c.pairingRef ≠ rf4ceInvalidPairRef) (hdeep : ¬ PmDeep c.analog)
    (hbatt : b.battSta ≤ batThresholdFlash) (sent : Bool) :
    (boot nwkAdd idx2Channel c b).frameCounter = (c.frameCountInFlash + nwkAdd) % 4294967296 ∧
      Counted nwkAdd (boot nwkAdd idx2Channel c b, sent) := by
  have hboot : (boot nwkAdd idx2Channel c b).frameCounter = (c.frameCountInFlash + nwkAdd) % 4294967296 ∧
      (boot nwkAdd idx2Channel c b).frameCountInFlash = (c.frameCountInFlash + nwkAdd) % 4294967296 ∧
      (boot nwkAdd idx2Channel c b).nwkFrameCntInFlash = 0 ∧
      (boot nwkAdd idx2Channel c b).pairingRef = c.pairingRef := by
    unfold boot appLoadInfo nwkFrameCountUpdate checkBatteryBeforeSaveFlash nwkSavePibFrameCountToFlash
    dsimp only
    unfold PmDeep at hdeep
    rw [if_neg hdeep, if_pos hpair, if_pos (decide_eq_true hbatt)]
    exact ⟨rfl, rfl, rfl, rfl⟩
  obtain ⟨hcount, hflash, hin, hpair'⟩ := hboot
  refine ⟨hcount, ?_, ?_, ?_, .inl hin⟩
  · rw [hpair']
    exact hpair
  · rw [hcount]
    exact Nat.mod_lt _ (by decide)
  · rw [hcount, hflash]
    omega

theorem FlashCovers.le {c : FrameCount} {sent : Bool} (hcov : FlashCovers nwkAdd c) (h : Counted nwkAdd (c, sent)) :
    c.frameCounter ≤ (c.frameCountInFlash + nwkAdd) % 4294967296 := by
  obtain ⟨hwrap, hne⟩ := hcov
  have hle : c.frameCounter ≤ c.frameCountInFlash + nwkAdd + 1 :=
    h.covered.trans (Nat.add_le_add_left (Bool.toNat_le sent) _)
  rw [Nat.mod_eq_of_lt hwrap]
  omega

/-- After an idle pass flash covers the counter. -/
theorem appIdleHandler_counted {c : FrameCount} {sent : Bool} {state : Nat} (h : Counted nwkAdd (c, sent))
    (hstate : state = appReadyState ∨ state = appOtaState ∨ state = appAudioState) :
    (appIdleHandler nwkAdd c state).frameCounter = c.frameCounter ∧ Counted nwkAdd (appIdleHandler nwkAdd c state, false) := by
  have hin : (if c.nwkFrameCntInFlash = 0 then c.frameCountInFlash else c.nwkFrameCntInFlash) = c.frameCountInFlash := by
    split_ifs with hzero
    · rfl
    · exact h.inFlash.resolve_left hzero
  unfold appIdleHandler
  rw [if_pos hstate]
  dsimp only
  rw [hin]
  by_cases hsave : (c.frameCountInFlash + nwkAdd) % 4294967296 < c.frameCounter
  · rw [if_pos hsave]
    exact ⟨rfl, h.paired, h.lt, Nat.le_add_right c.frameCounter nwkAdd, .inr rfl⟩
  · rw [if_neg hsave]
    exact ⟨rfl, h.paired, h.lt, (Nat.le_of_not_lt hsave).trans (Nat.mod_le _ _), .inr rfl⟩

/-- No step goes back, and a frame goes ahead. -/
theorem Counted.step {s : FrameCount × Bool} {k : RemoteEv} (h : Counted nwkAdd s) (henv : RemoteEnv s k)
    (hk : CountKept nwkAdd s k) :
    Counted nwkAdd (remoteEvStep nwkAdd channel2Idx idx2Channel s k).1 ∧
      s.1.frameCounter ≤ (remoteEvStep nwkAdd channel2Idx idx2Channel s k).1.1.frameCounter ∧
      ∀ v ∈ (remoteEvStep nwkAdd channel2Idx idx2Channel s k).2,
        v = s.1.frameCounter ∧ s.1.frameCounter < (remoteEvStep nwkAdd channel2Idx idx2Channel s k).1.1.frameCounter := by
  obtain ⟨c, sent⟩ := s
  cases k with
  | frame =>
    have hnext : (c.frameCounter + 1) % 4294967296 = c.frameCounter + 1 := Nat.mod_eq_of_lt hk
    have hcov := h.covered
    change sent = false at henv
    subst henv
    change c.frameCounter ≤ c.frameCountInFlash + nwkAdd + 0 at hcov
    unfold remoteEvStep
    dsimp only
    rw [hnext]
    refine ⟨⟨h.paired, hk, ?_, h.inFlash⟩, Nat.le_succ _, ?_⟩
    · exact Nat.add_le_add_right hcov 1
    · intro v hv
      cases hv
      exact ⟨rfl, Nat.lt_succ_self _⟩
  | idle state =>
    obtain ⟨hcount, hinv⟩ := appIdleHandler_counted h henv
    refine ⟨hinv, hcount.ge, ?_⟩
    intro v hv
    cases hv
  | deepSleep pinActive b =>
    obtain ⟨hdeep, hregs⟩ := appSaveInfoPm_saved channel2Idx c h.lt
    obtain ⟨hcount, hflash, hin, hpair⟩ := appSaveInfoPm_counts channel2Idx c
    have hsaved : Counted nwkAdd ((appSaveInfoPm channel2Idx c).1, sent) := by
      refine ⟨?_, ?_, ?_, ?_⟩
      · rw [hpair]
        exact h.paired
      · rw [hcount]
        exact h.lt
      · rw [hcount, hflash]
        exact h.covered
      · rw [hin, hflash]
        exact h.inFlash
    unfold remoteEvStep sysEnterDeepsleepMode
    dsimp only
    split
    · obtain ⟨hboot, hinv⟩ := boot_pmDeep idx2Channel b hsaved hdeep (hregs.trans hcount.symm)
      refine ⟨hinv, (hboot.trans hcount).ge, ?_⟩
      intro v hv
      cases hv
    · refine ⟨hsaved, hcount.ge, ?_⟩
      intro v hv
      cases hv
  | reset b =>
    obtain ⟨hregs, hcov⟩ := hk
    by_cases hdeep : PmDeep c.analog
    · obtain ⟨hboot, hinv⟩ := boot_pmDeep idx2Channel b h hdeep (hregs hdeep)
      refine ⟨hinv, hboot.ge, ?_⟩
      intro v hv
      cases hv
    · obtain ⟨hboot, hinv⟩ := boot_power nwkAdd idx2Channel h.paired hdeep henv sent
      refine ⟨hinv, ((hcov hdeep).le h).trans hboot.ge, ?_⟩
      intro v hv
      cases hv
  | powerLoss analog b =>
    obtain ⟨hboot, hinv⟩ := @boot_power nwkAdd idx2Channel { c with analog } b h.paired henv.2 henv.1 sent
    refine ⟨hinv, (FlashCovers.le hk h).trans hboot.ge, ?_⟩
    intro v hv
    cases hv

/-! ### Runs -/

/-- The counters of the frames, in the order in which they are sent. -/
def framesSent (answers : List (Option Nat)) : List Nat := answers.filterMap id

/-- No counter below the bound is sent twice. -/
def FreshFrames (nwkAdd : Nat) (answers : List (Option Nat)) : Prop :=
  ∀ v < 4294967296 - 2 * nwkAdd, (framesSent answers).count v ≤ 1

theorem framesSent_increasing {s : FrameCount × Bool} {ks : List RemoteEv} (h : Counted nwkAdd s)
    (henv : Refine.Legal (remoteEvStep nwkAdd channel2Idx idx2Channel) RemoteEnv s ks)
    (hks : Refine.Legal (remoteEvStep nwkAdd channel2Idx idx2Channel) (CountKept nwkAdd) s ks) :
    (framesSent (Refine.run (remoteEvStep nwkAdd channel2Idx idx2Channel) s ks).2).Pairwise (· < ·) ∧
      ∀ v ∈ framesSent (Refine.run (remoteEvStep nwkAdd channel2Idx idx2Channel) s ks).2, s.1.frameCounter ≤ v := by
  induction ks generalizing s with
  | nil =>
    constructor
    · exact .nil
    · intro v hv
      cases hv
  | cons k ks ih =>
    obtain ⟨hinv, hle, hsent⟩ := h.step henv.1 hks.1
    obtain ⟨hrest, hfrom⟩ := ih hinv henv.2 hks.2
    have hcons : framesSent (Refine.run (remoteEvStep nwkAdd channel2Idx idx2Channel) s (k :: ks)).2 =
        framesSent ((remoteEvStep nwkAdd channel2Idx idx2Channel s k).2 ::
          (Refine.run (remoteEvStep nwkAdd channel2Idx idx2Channel) (remoteEvStep nwkAdd channel2Idx idx2Channel s k).1 ks).2) :=
      rfl
    rw [hcons]
    cases ha : (remoteEvStep nwkAdd channel2Idx idx2Channel s k).2 with
    | none =>
      constructor
      · exact hrest
      · exact fun v hv => hle.trans (hfrom v hv)
    | some v =>
      obtain ⟨hv, hlt⟩ := hsent v (Option.mem_def.mpr ha)
      constructor
      · refine List.Pairwise.cons ?_ hrest
        intro w hw
        rw [hv]
        exact hlt.trans_le (hfrom w hw)
      · intro w hw
        cases List.mem_cons.mp hw with
        | inl heq => exact (heq.trans hv).ge
        | inr hw => exact hle.trans (hfrom w hw)

/-- From a power-up on no counter is sent twice, while flash covers the counter at every power
loss, resets under the flag find it in the registers, and it does not wrap. -/
theorem frames_fresh {c : FrameCount} {b : Boot} (hpair : c.pairingRef ≠ rf4ceInvalidPairRef)
    (hdeep : ¬ PmDeep c.analog) (hbatt : b.battSta ≤ batThresholdFlash) {ks : List RemoteEv}
    (henv : Refine.Legal (remoteEvStep nwkAdd channel2Idx idx2Channel) RemoteEnv (boot nwkAdd idx2Channel c b, false) ks)
    (hks : Refine.Legal (remoteEvStep nwkAdd channel2Idx idx2Channel) (CountKept nwkAdd)
      (boot nwkAdd idx2Channel c b, false) ks) :
    FreshFrames nwkAdd
      (Refine.run (remoteEvStep nwkAdd channel2Idx idx2Channel) (boot nwkAdd idx2Channel c b, false) ks).2 := by
  obtain ⟨-, hinv⟩ := boot_power nwkAdd idx2Channel hpair hdeep hbatt false
  obtain ⟨hincreasing, -⟩ := framesSent_increasing hinv henv hks
  have hnodup : (framesSent
      (Refine.run (remoteEvStep nwkAdd channel2Idx idx2Channel) (boot nwkAdd idx2Channel c b, false) ks).2).Nodup :=
    hincreasing.imp fun hlt => hlt.ne
  exact fun v _ => List.nodup_iff_count_le_one.mp hnodup v

instance (analog : Nat → Byte) : Decidable (PmDeep analog) := by
  unfold PmDeep
  infer_instance

instance (s : FrameCount × Bool) (k : RemoteEv) : Decidable (RemoteEnv s k) := by
  cases k <;> (unfold RemoteEnv; infer_instance)

instance (c : FrameCount) : Decidable (FlashCovers nwkAdd c) := by
  unfold FlashCovers
  infer_instance

instance (s : FrameCount × Bool) (k : RemoteEv) : Decidable (CountKept nwkAdd s k) := by
  cases k <;> (unfold CountKept; infer_instance)

/-- A remote out of the factory. -/
def newRemote : FrameCount where
  analog := fun _ => 0
  frameCountInFlash := 1
  frameCounter := 0
  nwkFrameCntInFlash := 0
  pairingRef := 0
  destChannel := some 15
  battSta := 0
  battStaUpload := false

def goodBoot : Boot := ⟨some 15, 0⟩

/-- Frames, an abandoned and two entered deep sleeps, and a power loss. -/
theorem frames_fresh_sleeps : FreshFrames nwkAddFrameCounter
    (Refine.run (remoteEvStep nwkAddFrameCounter id id) (boot nwkAddFrameCounter id newRemote goodBoot, false)
      [.frame, .idle 3, .deepSleep true goodBoot, .frame, .deepSleep false goodBoot, .idle 3, .deepSleep false goodBoot,
        .frame, .powerLoss (fun _ => 0) goodBoot, .idle 3, .frame]).2 :=
  frames_fresh (by decide) (by decide +kernel) (by decide) (by decide +kernel) (by decide +kernel)

/-- `NWK_ADD_FRAME_COUNTER` frames, each with an idle pass, and one more before the power fails. -/
def frameBeforePowerLoss : List RemoteEv :=
  (List.replicate 1024 [.frame, .idle 3]).flatten ++ [.frame, .powerLoss (fun _ => 0) goodBoot, .idle 3, .frame]

/-- A deep sleep that a pressed key stops, a frame, and a reset. -/
def frameAfterStoppedSleep : List RemoteEv :=
  [.frame, .idle 3, .deepSleep true goodBoot, .frame, .reset goodBoot, .idle 3, .frame]

/-- In both runs the last frame repeats a counter. -/
theorem frames_repeated :
    let c := boot nwkAddFrameCounter id newRemote goodBoot
    (Refine.Legal (remoteEvStep nwkAddFrameCounter id id) RemoteEnv (c, false) frameBeforePowerLoss ∧
      ¬ FreshFrames nwkAddFrameCounter
        (Refine.run (remoteEvStep nwkAddFrameCounter id id) (c, false) frameBeforePowerLoss).2) ∧
    (Refine.Legal (remoteEvStep nwkAddFrameCounter id id) RemoteEnv (c, false) frameAfterStoppedSleep ∧
      ¬ FreshFrames nwkAddFrameCounter
        (Refine.run (remoteEvStep nwkAddFrameCounter id id) (c, false) frameAfterStoppedSleep).2) := by
  have hlegal : ∀ ks ∈ [frameBeforePowerLoss, frameAfterStoppedSleep],
      Refine.Legal (remoteEvStep nwkAddFrameCounter id id) RemoteEnv
        (boot nwkAddFrameCounter id newRemote goodBoot, false) ks := by
    decide +kernel
  have hcount : ∀ ks ∈ [frameBeforePowerLoss, frameAfterStoppedSleep], ∃ v ∈ [0x402, 0x801],
      1 < (framesSent (Refine.run (remoteEvStep nwkAddFrameCounter id id)
        (boot nwkAddFrameCounter id newRemote goodBoot, false) ks).2).count v := by
    decide +kernel
  have hrepeated : ∀ ks ∈ [frameBeforePowerLoss, frameAfterStoppedSleep],
      ¬ FreshFrames nwkAddFrameCounter
        (Refine.run (remoteEvStep nwkAddFrameCounter id id) (boot nwkAddFrameCounter id newRemote goodBoot, false) ks).2 := by
    intro ks hks hfresh
    obtain ⟨v, hv, hlt⟩ := hcount ks hks
    have hbound : v < 4294967296 - 2 * nwkAddFrameCounter := by
      rcases List.mem_pair.mp hv with rfl | rfl <;> decide
    exact absurd (hfresh v hbound) (Nat.not_le_of_lt hlt)
  have hfirst : frameBeforePowerLoss ∈ [frameBeforePowerLoss, frameAfterStoppedSleep] := List.mem_cons_self
  have hsecond : frameAfterStoppedSleep ∈ [frameBeforePowerLoss, frameAfterStoppedSleep] :=
    List.mem_cons_of_mem _ (List.mem_singleton_self _)
  constructor
  · exact ⟨hlegal _ hfirst, hrepeated _ hfirst⟩
  · exact ⟨hlegal _ hsecond, hrepeated _ hsecond⟩

end Restarts

end Rf4ce.App

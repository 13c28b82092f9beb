import Rf4ce.Drv.UsbCtrl

/-! The control endpoint as the host sees it: settings that it writes and reads back, with
descriptors read and the bus reset in between. -/
namespace Rf4ce.Drv.Usb
open Crash Refine

/-! ### Words on the bus -/

def word (hi lo : Byte) : BitVec 16 := hi.setWidth 16 <<< 8 ||| lo.setWidth 16

theorem word_low (hi lo : Byte) : (word hi lo).setWidth 8 = lo := by
  apply BitVec.eq_of_getLsbD_eq
  intro i h
  simp [word, h]

theorem word_high (hi lo : Byte) : (word hi lo >>> 8).setWidth 8 = hi := by
  apply BitVec.eq_of_getLsbD_eq
  intro i h
  have hlong : 8 + i < 16 := by omega
  have hshort : i < 16 := by omega
  simp [word, h, hlong, hshort]

theorem word_bytes (v : BitVec 16) : word ((v >>> 8).setWidth 8) (v.setWidth 8) = v := by
  apply BitVec.eq_of_getLsbD_eq
  intro i h
  by_cases hlow : i < 8
  · simp [word, hlow, h]
  · have hsum : 8 + (i - 8) = i := by omega
    simp [word, hlow, h, hsum]
    omega

theorem word_mod (lo : Byte) : (word 0 lo).toNat % 8 = lo.toNat % 8 := by
  have hlow := congrArg BitVec.toNat (word_low 0 lo)
  rw [BitVec.toNat_setWidth] at hlow
  omega

/-- The bytes of a packet in the endpoint. -/
def endpoint (bytes : List Byte) (i : Nat) : Byte := bytes.getD i 0

theorem readU16_u16Bytes (v : BitVec 16) : readU16 (endpoint (u16Bytes v)) 0 = v := word_bytes v

/-- The byte of a word that a bit is in. -/
theorem usbcdcRead32_write32 (v : BitVec 32) (post : List Byte) :
    usbcdcRead32 (endpoint (usbcdcWrite32 v ++ post)) = v := by
  unfold usbcdcRead32 usbcdcWrite32 endpoint
  apply BitVec.eq_of_getLsbD_eq
  intro i h
  rcases Nat.lt_or_ge i 8 with h₁ | h₁
  · simp [h, h₁, show i < 24 by omega, show i < 16 by omega]
  rcases Nat.lt_or_ge i 16 with h₂ | h₂
  · simp [h, h₂, Nat.not_lt.mpr h₁, show i < 24 by omega, show i - 8 < 8 by omega, show i - 8 < 32 by omega,
      show 8 + (i - 8) = i by omega]
  rcases Nat.lt_or_ge i 24 with h₃ | h₃
  · simp [h, h₃, Nat.not_lt.mpr h₁, Nat.not_lt.mpr h₂, show ¬i - 8 < 8 by omega, show i - 16 < 8 by omega,
      show i - 16 < 32 by omega, show 16 + (i - 16) = i by omega]
  · simp [h, Nat.not_lt.mpr h₁, Nat.not_lt.mpr h₂, Nat.not_lt.mpr h₃, show ¬i - 8 < 8 by omega,
      show ¬i - 16 < 8 by omega, show i - 24 < 8 by omega, show i - 24 < 32 by omega, show 24 + (i - 24) = i by omega]

def setupBytes (r : UsbRequestHeader) : List Byte :=
  [r.bmRequestType, r.bRequest] ++ (u16Bytes r.wValue ++ (u16Bytes r.wIndex ++ u16Bytes r.wLength))

theorem requestOf_setupBytes (r : UsbRequestHeader) : requestOf (endpoint (setupBytes r)) = r := by
  obtain ⟨type, request, value, index, length⟩ := r
  have hvalue : readU16 (endpoint (setupBytes ⟨type, request, value, index, length⟩)) 2 = value := word_bytes value
  have hindex : readU16 (endpoint (setupBytes ⟨type, request, value, index, length⟩)) 4 = index := word_bytes index
  have hlength : readU16 (endpoint (setupBytes ⟨type, request, value, index, length⟩)) 6 = length :=
    word_bytes length
  unfold requestOf
  rw [hvalue, hindex, hlength]
  rfl

/-! ### The host's side -/

/-- `USB_SPEAKER_FEATURE_UNIT_ID`, `USB_MIC_FEATURE_UNIT_ID` -/
inductive AudioUnit where
  | speaker | mic
deriving DecidableEq, Repr

def AudioUnit.id : AudioUnit → Byte
  | .speaker => 2
  | .mic => 5

/-- What the host does on the control endpoint; an interface or a report that the device does not look at
is any byte. -/
inductive Control where
  | setLineEncoding (l : LineEncoding)
  | getLineEncoding
  | setControlLineState (v : BitVec 16)
  | setMute (u : AudioUnit) (intf v : Byte)
  | getMute (u : AudioUnit) (intf : Byte)
  | setVolume (u : AudioUnit) (intf : Byte) (v : BitVec 16)
  | getVolume (u : AudioUnit) (intf : Byte)
  | setInterface (intf v : Byte)
  | getInterface (intf : Byte)
  | setConfiguration (v : Byte)
  | getConfiguration
  | setIdle (v report intf : Byte)
  | getIdle (report intf : Byte)
  | setProtocol (v intf : Byte)
  | getProtocol (intf : Byte)
  | getDescriptor (r : UsbRequestHeader) (bytes : List Byte) (n : Nat)
  | busReset

def lineBytes (l : LineEncoding) : List Byte := usbcdcWrite32 l.baudRateBPS ++ [l.charFormat, l.parityType, l.dataBits]

/-- The setup packet. -/
def Control.header : Control → UsbRequestHeader
  | .setLineEncoding _ => ⟨0x21, 0x20, 0, 0, 7⟩
  | .getLineEncoding => ⟨0xa1, 0x21, 0, 0, 7⟩
  | .setControlLineState v => ⟨0x21, 0x22, v, 0, 0⟩
  | .setMute u intf _ => ⟨0x21, 0x01, word 0x01 0, word u.id intf, 1⟩
  | .getMute u intf => ⟨0xa1, 0x81, word 0x01 0, word u.id intf, 1⟩
  | .setVolume u intf _ => ⟨0x21, 0x01, word 0x02 0, word u.id intf, 2⟩
  | .getVolume u intf => ⟨0xa1, 0x81, word 0x02 0, word u.id intf, 2⟩
  | .setInterface intf v => ⟨0x01, 11, word 0 v, word 0 intf, 0⟩
  | .getInterface intf => ⟨0x81, 10, 0, word 0 intf, 1⟩
  | .setConfiguration v => ⟨0x00, 9, word 0 v, 0, 0⟩
  | .getConfiguration => ⟨0x80, 8, 0, 0, 1⟩
  | .setIdle v report intf => ⟨0x21, 0x0a, word v report, word 0 intf, 0⟩
  | .getIdle report intf => ⟨0xa1, 0x02, word 0 report, word 0 intf, 1⟩
  | .setProtocol v intf => ⟨0x21, 0x0b, word 0 v, word 0 intf, 0⟩
  | .getProtocol intf => ⟨0xa1, 0x03, 0, word 0 intf, 1⟩
  | .getDescriptor r _ _ => r
  | .busReset => ⟨0, 0, 0, 0, 0⟩

/-- The interrupts of a transfer, from the setup packet to the status stage. -/
def Control.irqs (c : Control) : List UsbIrq :=
  let setup := setupIrq (endpoint (setupBytes c.header))
  let status : UsbIrq := ⟨none, none, true, false⟩
  match c with
  | .setLineEncoding l => [setup, dataIrq (endpoint (lineBytes l)), status]
  | .setMute _ _ v => [setup, dataIrq (endpoint [v]), status]
  | .setVolume _ _ v => [setup, dataIrq (endpoint (u16Bytes v)), status]
  | .getDescriptor _ _ n => setup :: (List.replicate n (endpoint [])).map dataIrq ++ [status]
  | .busReset => [⟨none, none, false, true⟩]
  | _ => [setup, status]

/-- A device of settings. -/
@[ext]
structure Settings where
  lineEncoding : LineEncoding
  lineState : BitVec 16
  mute : AudioUnit → Byte
  volume : AudioUnit → BitVec 16
  altIntf : Nat → Byte
  configValue : Byte
  rate : Byte
  proto : Byte

/-- The bytes that the host reads. -/
def Settings.step (t : Settings) : Control → Settings × List Byte
  | .setLineEncoding l => ({ t with lineEncoding := l }, [])
  | .getLineEncoding => (t, lineBytes t.lineEncoding)
  | .setControlLineState v => ({ t with lineState := v }, [])
  | .setMute u _ v => ({ t with mute := Function.update t.mute u v }, [])
  | .getMute u _ => (t, [t.mute u])
  | .setVolume u _ v => ({ t with volume := Function.update t.volume u v }, [])
  | .getVolume u _ => (t, u16Bytes (t.volume u))
  | .setInterface intf v => ({ t with altIntf := Function.update t.altIntf (intf.toNat % 8) v }, [])
  | .getInterface intf => (t, [t.altIntf (intf.toNat % 8)])
  | .setConfiguration v => ({ t with configValue := v }, [])
  | .getConfiguration => (t, [t.configValue])
  | .setIdle v _ _ => ({ t with rate := v }, [])
  | .getIdle _ _ => (t, [t.rate])
  | .setProtocol v _ => ({ t with proto := v }, [])
  | .getProtocol _ => (t, [t.proto])
  | .getDescriptor r bytes n => (t, (bytes.take r.wLength.toNat).take (8 * (n + 1)))
  | .busReset => ({ t with proto := 1 }, [])

/-- Requests of the CDC class need a CDC interface, and an alternate setting one of the interfaces that
there are. -/
def Control.Legal (d : Descriptors) (hidKeyboard : Bool) : Control → Prop
  | .setLineEncoding _ | .getLineEncoding | .setControlLineState _ => hidKeyboard = false
  | .setInterface intf _ | .getInterface intf => intf.toNat % 8 < usbIntfMax hidKeyboard
  | .getDescriptor r bytes _ => Asks d hidKeyboard r bytes
  | _ => True

def CtrlEp.settings (s : CtrlEp) : Settings where
  lineEncoding := s.lineEncoding
  lineState := s.hostToDevice
  mute
    | .speaker => s.speakerSetting.mute
    | .mic => s.micSetting.mute
  volume
    | .speaker => s.speakerSetting.volCur
    | .mic => s.micSetting.volCur
  altIntf := s.usbAltIntf
  configValue := s.gUsbConfigValue
  rate := s.gRate
  proto := s.usbMouseReportProto

/-- A whole transfer: the bytes sent to the host, and whether a stage was stalled. -/
def transfer (d : Descriptors) (hidKeyboard : Bool) (s : CtrlEp) (c : Control) : CtrlEp × List (Option Byte) × Bool :=
  let r := Refine.run (usbHandleIrq d hidKeyboard) s c.irqs
  (r.1, r.2.flatten.flatMap Reply.bytes, r.2.flatten.any Reply.stall)

section Transfers
variable {d : Descriptors} {hidKeyboard : Bool} {s s' s'' : CtrlEp} {c : Control}

def statusIrq : UsbIrq := ⟨none, none, true, false⟩

/-- The end of `usb_handle_irq`. -/
def CtrlEp.finish (hidKeyboard : Bool) (s : CtrlEp) : CtrlEp :=
  { s with gStall := if hidKeyboard = true then s.gStall else false }

theorem CtrlEp.finish_stall (hidKeyboard : Bool) (h : s.gStall = false) : (s.finish hidKeyboard).gStall = false := by
  show (if hidKeyboard = true then s.gStall else false) = false
  rw [h, ite_self]

/-- The state in which a setup packet is handled. -/
def CtrlEp.received (s : CtrlEp) (r : UsbRequestHeader) : CtrlEp := { s with controlRequest := r, gStall := false }

theorem usbHandleIrq_setup {r : UsbRequestHeader} {bytes : List (Option Byte)}
    (hreq : usbHandleRequest d hidKeyboard .setup (endpoint (setupBytes r)) (s.received r) = (s', bytes))
    (hgo : s'.gStall = false) :
    usbHandleIrq d hidKeyboard s (setupIrq (endpoint (setupBytes r))) = (s'.finish hidKeyboard, [⟨bytes, false⟩]) := by
  have hsetup : usbHandleCtlEpSetup d hidKeyboard (endpoint (setupBytes r)) s = (s', ⟨bytes, false⟩) := by
    unfold usbHandleCtlEpSetup
    rw [requestOf_setupBytes]
    change (let q := usbHandleRequest d hidKeyboard .setup _ (s.received r); (q.1, Reply.mk q.2 q.1.gStall)) = _
    rw [hreq]
    dsimp only
    rw [hgo]
  unfold usbHandleIrq setupIrq flagged
  dsimp only
  rw [hsetup]
  rfl

theorem usbHandleIrq_data {buf : Nat → Byte} {bytes : List (Option Byte)}
    (hreq : usbHandleRequest d hidKeyboard .data buf { s with gStall := false } = (s', bytes))
    (hgo : s'.gStall = false) :
    usbHandleIrq d hidKeyboard s (dataIrq buf) = (s'.finish hidKeyboard, [⟨bytes, false⟩]) := by
  have hdata : usbHandleCtlEpData d hidKeyboard buf s = (s', ⟨bytes, false⟩) := by
    unfold usbHandleCtlEpData
    rw [hreq]
    dsimp only
    rw [hgo]
  unfold usbHandleIrq dataIrq flagged
  dsimp only
  rw [hdata]
  rfl

theorem usbHandleIrq_status (d : Descriptors) (hidKeyboard : Bool) (hgo : s.gStall = false) :
    usbHandleIrq d hidKeyboard s statusIrq = (s.finish hidKeyboard, [⟨[], false⟩]) := by
  rw [← hgo]
  rfl

/-- A transfer is done as the settings have it. -/
structure Done (s : CtrlEp) (c : Control) (r : CtrlEp × List (Option Byte) × Bool) : Prop where
  settings : r.1.settings = (s.settings.step c).1
  behind : r.1.altIntfBehind = s.altIntfBehind
  reply : r.2 = ((s.settings.step c).2.map some, false)

/-- Without a data stage from the host. -/
theorem transfer_setup (bytes : List Byte) (hirqs : c.irqs = [setupIrq (endpoint (setupBytes c.header)), statusIrq])
    (hreq : usbHandleRequest d hidKeyboard .setup (endpoint (setupBytes c.header)) (s.received c.header) =
      (s', bytes.map some)) (hgo : s'.gStall = false) (hstep : s.settings.step c = (s'.settings, bytes))
    (hbehind : s'.altIntfBehind = s.altIntfBehind) : Done s c (transfer d hidKeyboard s c) := by
  have hsetup := usbHandleIrq_setup hreq hgo
  have hstatus := usbHandleIrq_status d hidKeyboard (CtrlEp.finish_stall hidKeyboard hgo)
  have hrun : transfer d hidKeyboard s c =
      ((s'.finish hidKeyboard).finish hidKeyboard, bytes.map some, false) := by
    unfold transfer
    rw [hirqs]
    dsimp only [Refine.run]
    rw [hsetup]
    dsimp only
    rw [hstatus]
    simp
  rw [hrun]
  constructor
  · rw [hstep]
    rfl
  · exact hbehind
  · rw [hstep]

/-- With one packet from the host, which the setup stage does not wait for. -/
theorem transfer_data (out : List Byte)
    (hirqs : c.irqs = [setupIrq (endpoint (setupBytes c.header)), dataIrq (endpoint out), statusIrq])
    (hreq : usbHandleRequest d hidKeyboard .setup (endpoint (setupBytes c.header)) (s.received c.header) = (s', []))
    (hgo : s'.gStall = false)
    (hreq' : usbHandleRequest d hidKeyboard .data (endpoint out) { s'.finish hidKeyboard with gStall := false } =
      (s'', []))
    (hgo' : s''.gStall = false) (hstep : s.settings.step c = (s''.settings, []))
    (hbehind : s''.altIntfBehind = s.altIntfBehind) : Done s c (transfer d hidKeyboard s c) := by
  have hsetup := usbHandleIrq_setup hreq hgo
  have hdata := usbHandleIrq_data hreq' hgo'
  have hstatus := usbHandleIrq_status d hidKeyboard (CtrlEp.finish_stall hidKeyboard hgo')
  have hrun : transfer d hidKeyboard s c = ((s''.finish hidKeyboard).finish hidKeyboard, [], false) := by
    unfold transfer
    rw [hirqs]
    dsimp only [Refine.run]
    rw [hsetup]
    dsimp only
    rw [hdata]
    dsimp only
    rw [hstatus]
    rfl
  rw [hrun]
  constructor
  · rw [hstep]
    rfl
  · exact hbehind
  · rw [hstep]
    rfl

theorem transfer_getLineEncoding (s : CtrlEp) : Done s .getLineEncoding (transfer d false s .getLineEncoding) :=
  transfer_setup (lineBytes s.lineEncoding) rfl rfl rfl rfl rfl

theorem transfer_setControlLineState (s : CtrlEp) (v : BitVec 16) :
    Done s (.setControlLineState v) (transfer d false s (.setControlLineState v)) :=
  transfer_setup [] rfl rfl rfl rfl rfl

theorem transfer_setLineEncoding (s : CtrlEp) (l : LineEncoding) :
    Done s (.setLineEncoding l) (transfer d false s (.setLineEncoding l)) := by
  refine transfer_data (lineBytes l) rfl rfl rfl rfl rfl ?_ rfl
  have hbaud : usbcdcRead32 (endpoint (lineBytes l)) = l.baudRateBPS := usbcdcRead32_write32 _ _
  exact congrArg (fun x => (({ s.settings with
    lineEncoding := ⟨x, l.charFormat, l.parityType, l.dataBits⟩ } : Settings), ([] : List Byte))) hbaud.symm

theorem transfer_getConfiguration (s : CtrlEp) : Done s .getConfiguration (transfer d hidKeyboard s .getConfiguration) :=
  transfer_setup [s.gUsbConfigValue] rfl rfl rfl rfl rfl

theorem transfer_setConfiguration (s : CtrlEp) (v : Byte) :
    Done s (.setConfiguration v) (transfer d hidKeyboard s (.setConfiguration v)) := by
  refine transfer_setup [] rfl rfl rfl ?_ rfl
  have hv : (word 0 v).setWidth 8 = v := word_low 0 v
  exact congrArg (fun x => (({ s.settings with configValue := x } : Settings), ([] : List Byte))) hv.symm

theorem transfer_getInterface (s : CtrlEp) (intf : Byte) (h : intf.toNat % 8 < usbIntfMax hidKeyboard) :
    Done s (.getInterface intf) (transfer d hidKeyboard s (.getInterface intf)) := by
  rw [← word_mod] at h
  have hget : usbHandleGetIntf hidKeyboard (s.received (Control.getInterface intf).header) =
      some (s.usbAltIntf ((word 0 intf).toNat % 8)) := if_pos h
  refine transfer_setup [s.usbAltIntf ((word 0 intf).toNat % 8)] rfl
    (congrArg (fun x => (s.received (Control.getInterface intf).header, [x])) hget) rfl ?_ rfl
  rw [word_mod]
  rfl

theorem transfer_setInterface (s : CtrlEp) (intf v : Byte) (h : intf.toNat % 8 < usbIntfMax hidKeyboard) :
    Done s (.setInterface intf v) (transfer d hidKeyboard s (.setInterface intf v)) := by
  rw [← word_mod] at h
  have hset : usbHandleSetIntf hidKeyboard (s.received (Control.setInterface intf v).header) =
      { s.received (Control.setInterface intf v).header with
        usbAltIntf := Function.update s.usbAltIntf ((word 0 intf).toNat % 8) ((word 0 v).setWidth 8) } := by
    rw [usbHandleSetIntf]
    exact if_pos h
  refine transfer_setup [] rfl (congrArg (fun s' => (s', [])) hset) rfl ?_ rfl
  have hv : (word 0 v).setWidth 8 = v := word_low 0 v
  exact congrArg₂ (fun i x => (({ s.settings with altIntf := Function.update s.settings.altIntf i x } : Settings),
    ([] : List Byte))) (word_mod intf).symm hv.symm

theorem transfer_getIdle (s : CtrlEp) (report intf : Byte) :
    Done s (.getIdle report intf) (transfer d hidKeyboard s (.getIdle report intf)) :=
  transfer_setup [s.gRate] rfl rfl rfl rfl rfl

theorem transfer_setIdle (s : CtrlEp) (v report intf : Byte) :
    Done s (.setIdle v report intf) (transfer d hidKeyboard s (.setIdle v report intf)) := by
  refine transfer_setup [] rfl rfl rfl ?_ rfl
  have hv : (word v report >>> 8).setWidth 8 = v := word_high v report
  exact congrArg (fun x => (({ s.settings with rate := x } : Settings), ([] : List Byte))) hv.symm

theorem transfer_getProtocol (s : CtrlEp) (intf : Byte) :
    Done s (.getProtocol intf) (transfer d hidKeyboard s (.getProtocol intf)) :=
  transfer_setup [s.usbMouseReportProto] rfl rfl rfl rfl rfl

theorem transfer_setProtocol (s : CtrlEp) (v intf : Byte) :
    Done s (.setProtocol v intf) (transfer d hidKeyboard s (.setProtocol v intf)) := by
  refine transfer_setup [] rfl rfl rfl ?_ rfl
  have hv : (word 0 v).setWidth 8 = v := word_low 0 v
  exact congrArg (fun x => (({ s.settings with proto := x } : Settings), ([] : List Byte))) hv.symm

/-- A bus reset is no transfer. -/
theorem transfer_busReset (s : CtrlEp) : Done s .busReset (transfer d hidKeyboard s .busReset) := ⟨rfl, rfl, rfl⟩

/-- `usbaud_handle_set_speaker_cmd` or `usbaud_handle_set_mic_cmd`. -/
def CtrlEp.setAudio (s : CtrlEp) (u : AudioUnit) (type : Byte) (buf : Nat → Byte) : CtrlEp :=
  match u with
  | .speaker => usbaudHandleSetSpeakerCmd type buf s
  | .mic => usbaudHandleSetMicCmd type buf s

/-- What no other class takes goes to the audio units. -/
theorem usbHandleRequest_setAudio (d : Descriptors) (hidKeyboard : Bool) (dataRequest : DataRequest)
    (buf : Nat → Byte) (u : AudioUnit) (htype : s.controlRequest.bmRequestType = 0x21)
    (hreq : s.controlRequest.bRequest = 0x01) (hunit : s.controlRequest.indexH = u.id) :
    usbHandleRequest d hidKeyboard dataRequest buf s =
      (({ s with gStall := false } : CtrlEp).setAudio u s.controlRequest.valueH buf, []) := by
  have hhid : outClassIntfHid hidKeyboard dataRequest buf s = { s with gStall := true } := by
    unfold outClassIntfHid
    dsimp only
    rw [hreq]
    simp
  have hout : usbHandleOutClassIntfReq hidKeyboard dataRequest buf s =
      ({ s with gStall := false } : CtrlEp).setAudio u s.controlRequest.valueH buf := by
    unfold usbHandleOutClassIntfReq
    dsimp only
    rw [hhid]
    dsimp only
    rw [if_neg (by simp), hunit]
    cases u <;> rfl
  unfold usbHandleRequest
  dsimp only
  rw [htype, hout]
  rfl

theorem CtrlEp.setAudio_stall (s : CtrlEp) (u : AudioUnit) (type : Byte) (buf : Nat → Byte) :
    (s.setAudio u type buf).gStall = s.gStall := by
  cases u <;> rfl

theorem CtrlEp.setAudio_keeps (s : CtrlEp) (u : AudioUnit) (type : Byte) (buf : Nat → Byte) :
    s.Keeps (s.setAudio u type buf) := by
  cases u <;> exact ⟨rfl, rfl⟩

theorem setMute_settings (s : CtrlEp) (u : AudioUnit) (buf : Nat → Byte) :
    (s.setAudio u 0x01 buf).settings = { s.settings with mute := Function.update s.settings.mute u (buf 0) } := by
  ext1
  all_goals cases u
  all_goals first | rfl | (funext x; cases x <;> rfl)

theorem setVolume_settings (s : CtrlEp) (u : AudioUnit) (buf : Nat → Byte) :
    (s.setAudio u 0x02 buf).settings =
      { s.settings with volume := Function.update s.settings.volume u (readU16 buf 0) } := by
  ext1
  all_goals cases u
  all_goals first | rfl | (funext x; cases x <;> rfl)

/-- A request of an audio unit takes the setup packet for its data, and then the data. -/
theorem transfer_setAudio (u : AudioUnit) (type : Byte) (out : List Byte)
    (hirqs : c.irqs = [setupIrq (endpoint (setupBytes c.header)), dataIrq (endpoint out), statusIrq])
    (htype : c.header.bmRequestType = 0x21) (hreq : c.header.bRequest = 0x01) (hunit : c.header.indexH = u.id)
    (hvalue : c.header.valueH = type)
    (hstep : s.settings.step c =
      ((({ ((s.received c.header).setAudio u type (endpoint (setupBytes c.header))).finish hidKeyboard with
          gStall := false } : CtrlEp).setAudio u type (endpoint out)).settings, [])) :
    Done s c (transfer d hidKeyboard s c) := by
  have hfirst := usbHandleRequest_setAudio (s := s.received c.header) d hidKeyboard .setup
    (endpoint (setupBytes c.header)) u htype hreq hunit
  have hgo := CtrlEp.setAudio_stall (s.received c.header) u type (endpoint (setupBytes c.header))
  obtain ⟨hrequest, hbehind⟩ := CtrlEp.setAudio_keeps (s.received c.header) u type (endpoint (setupBytes c.header))
  generalize hs' : (s.received c.header).setAudio u type (endpoint (setupBytes c.header)) = s'
    at hgo hrequest hbehind hstep
  have hfirst' : usbHandleRequest d hidKeyboard .setup (endpoint (setupBytes c.header)) (s.received c.header) =
      (s', []) := by
    rw [hfirst, ← hs', ← hvalue]
    rfl
  have hheader : s'.controlRequest = c.header := hrequest
  have hsecond := usbHandleRequest_setAudio (s := { s'.finish hidKeyboard with gStall := false }) d hidKeyboard .data
    (endpoint out) u (hheader ▸ htype) (hheader ▸ hreq) (hheader ▸ hunit)
  have hsecond' : usbHandleRequest d hidKeyboard .data (endpoint out) { s'.finish hidKeyboard with gStall := false } =
      (({ s'.finish hidKeyboard with gStall := false } : CtrlEp).setAudio u type (endpoint out), []) := by
    rw [hsecond, ← hvalue, ← hheader]
    rfl
  exact transfer_data out hirqs hfirst' hgo hsecond' (CtrlEp.setAudio_stall _ _ _ _) hstep
    ((CtrlEp.setAudio_keeps _ _ _ _).behind.trans hbehind)

theorem transfer_setMute (s : CtrlEp) (u : AudioUnit) (intf v : Byte) :
    Done s (.setMute u intf v) (transfer d hidKeyboard s (.setMute u intf v)) := by
  have hunit : (Control.setMute u intf v).header.indexH = u.id := word_high u.id intf
  have hvalue : (Control.setMute u intf v).header.valueH = 0x01 := word_high 0x01 0
  apply transfer_setAudio u 0x01 [v] rfl rfl rfl hunit hvalue
  rw [setMute_settings]
  change _ = (({ (CtrlEp.setAudio _ _ _ _).settings with
    mute := Function.update (CtrlEp.setAudio _ _ _ _).settings.mute u v } : Settings), ([] : List Byte))
  rw [setMute_settings]
  dsimp only
  rw [Function.update_idem]
  rfl

theorem transfer_setVolume (s : CtrlEp) (u : AudioUnit) (intf : Byte) (v : BitVec 16) :
    Done s (.setVolume u intf v) (transfer d hidKeyboard s (.setVolume u intf v)) := by
  have hunit : (Control.setVolume u intf v).header.indexH = u.id := word_high u.id intf
  have hvalue : (Control.setVolume u intf v).header.valueH = 0x02 := word_high 0x02 0
  apply transfer_setAudio u 0x02 (u16Bytes v) rfl rfl rfl hunit hvalue
  rw [setVolume_settings, readU16_u16Bytes]
  change _ = (({ (CtrlEp.setAudio _ _ _ _).settings with
    volume := Function.update (CtrlEp.setAudio _ _ _ _).settings.volume u v } : Settings), ([] : List Byte))
  rw [setVolume_settings]
  dsimp only
  rw [Function.update_idem]
  rfl

/-- `usbaud_handle_get_speaker_cmd` or `usbaud_handle_get_mic_cmd` with `AUDIO_REQ_GetCurrent`. -/
def CtrlEp.getAudio (s : CtrlEp) (u : AudioUnit) (type : Byte) : Option (List Byte) :=
  match u with
  | .speaker => usbaudHandleGetSpeakerCmd 0x81 type s
  | .mic => usbaudHandleGetMicCmd 0x81 type s

theorem transfer_getAudio (u : AudioUnit) (type : Byte) (bytes : List Byte)
    (hirqs : c.irqs = [setupIrq (endpoint (setupBytes c.header)), statusIrq])
    (htype : c.header.bmRequestType = 0xa1) (hreq : c.header.bRequest = 0x81) (hunit : c.header.indexH = u.id)
    (hvalue : c.header.valueH = type) (hget : (s.received c.header).getAudio u type = some bytes)
    (hstep : s.settings.step c = (s.settings, bytes)) : Done s c (transfer d hidKeyboard s c) := by
  have hheader : (s.received c.header).controlRequest = c.header := rfl
  have hhid : inClassIntfHid hidKeyboard (s.received c.header) = none := by
    unfold inClassIntfHid
    dsimp only
    rw [hheader, hreq]
    simp
  have hin : usbHandleInClassIntfReq hidKeyboard (s.received c.header) = some bytes := by
    unfold usbHandleInClassIntfReq
    rw [hhid]
    dsimp only
    rw [hheader, hunit, hreq, hvalue, ← hget]
    cases u <;> rfl
  have hrequest : usbHandleRequest d hidKeyboard .setup (endpoint (setupBytes c.header)) (s.received c.header) =
      (s.received c.header, bytes.map some) := by
    unfold usbHandleRequest
    dsimp only
    rw [hheader, htype, hin]
    rfl
  exact transfer_setup bytes hirqs hrequest rfl hstep rfl

theorem transfer_getMute (s : CtrlEp) (u : AudioUnit) (intf : Byte) :
    Done s (.getMute u intf) (transfer d hidKeyboard s (.getMute u intf)) := by
  have hunit : (Control.getMute u intf).header.indexH = u.id := word_high u.id intf
  have hvalue : (Control.getMute u intf).header.valueH = 0x01 := word_high 0x01 0
  apply transfer_getAudio u 0x01 [s.settings.mute u] rfl rfl rfl hunit hvalue
  · cases u <;> rfl
  · rfl

theorem transfer_getVolume (s : CtrlEp) (u : AudioUnit) (intf : Byte) :
    Done s (.getVolume u intf) (transfer d hidKeyboard s (.getVolume u intf)) := by
  have hunit : (Control.getVolume u intf).header.indexH = u.id := word_high u.id intf
  have hvalue : (Control.getVolume u intf).header.valueH = 0x02 := word_high 0x02 0
  apply transfer_getAudio u 0x02 (u16Bytes (s.settings.volume u)) rfl rfl rfl hunit hvalue
  · cases u <;> rfl
  · rfl

/-! A descriptor leaves the settings alone. -/

/-- No setting changes, and nothing is stored behind the array. -/
def CtrlEp.Same (s s' : CtrlEp) : Prop := s'.settings = s.settings ∧ s'.altIntfBehind = s.altIntfBehind

theorem CtrlEp.Same.trans (h : s.Same s') (h' : s'.Same s'') : s.Same s'' := ⟨h'.1.trans h.1, h'.2.trans h.2⟩

theorem usbPrepareDescData_same (d : Descriptors) (s : CtrlEp) : s.Same (usbPrepareDescData d s) := by
  unfold usbPrepareDescData
  dsimp only
  split_ifs <;> exact ⟨rfl, rfl⟩

theorem usbHandleStdIntfReq_same (d : Descriptors) (hidKeyboard : Bool) (s : CtrlEp) :
    s.Same (usbHandleStdIntfReq d hidKeyboard s) := by
  unfold usbHandleStdIntfReq
  dsimp only
  split_ifs <;> exact ⟨rfl, rfl⟩

theorem getDescriptor_same {buf : Nat → Byte} (dataRequest : DataRequest) (hreq : s.controlRequest.bRequest = 6)
    (htype : s.controlRequest.bmRequestType = 0x80 ∨ s.controlRequest.bmRequestType = 0x81) :
    s.Same (usbHandleRequest d hidKeyboard dataRequest buf s).1 := by
  unfold usbHandleRequest
  dsimp only
  rcases htype with htype | htype
  · rw [if_pos htype, if_pos hreq]
    change s.Same (if _ then _ else _)
    split_ifs
    · exact usbPrepareDescData_same d s
    · exact ⟨rfl, rfl⟩
  · rw [if_neg (by rw [htype]; decide), if_pos htype, if_pos hreq]
    change s.Same (if _ then _ else _)
    split_ifs
    · exact usbHandleStdIntfReq_same d hidKeyboard s
    · exact ⟨rfl, rfl⟩

theorem Sending.run_same {bytes : List Byte} (h : Sending d bytes s) (hidKeyboard : Bool)
    (bufs : List (Nat → Byte)) : s.Same (Refine.run (usbHandleIrq d hidKeyboard) s (bufs.map Usb.dataIrq)).1 := by
  induction bufs generalizing s bytes with
  | nil => exact ⟨rfl, rfl⟩
  | cons buf bufs ih =>
    have hone : s.Same (usbHandleIrq d hidKeyboard s (Usb.dataIrq buf)).1 :=
      getDescriptor_same (s := { s with gStall := false }) .data h.request h.recipient
    exact hone.trans (ih (h.dataIrq hidKeyboard buf).2)

theorem Asks.recipient {r : UsbRequestHeader} {bytes : List Byte} (h : Asks d hidKeyboard r bytes) :
    r.bmRequestType = 0x80 ∨ r.bmRequestType = 0x81 := by
  obtain ⟨-, ⟨htype, -⟩ | ⟨htype, -⟩⟩ := h
  · exact .inl htype
  · exact .inr htype

theorem Asks.run_same {buf : Nat → Byte} {bytes : List Byte} (h : Asks d hidKeyboard (requestOf buf) bytes)
    (s : CtrlEp) (bufs : List (Nat → Byte)) :
    s.Same (Refine.run (usbHandleIrq d hidKeyboard) s (setupIrq buf :: bufs.map dataIrq)).1 := by
  have hsetup : s.Same (usbHandleIrq d hidKeyboard s (setupIrq buf)).1 :=
    getDescriptor_same (s := { s with controlRequest := requestOf buf, gStall := false }) .setup h.1 h.recipient
  exact hsetup.trans ((Sending.setupIrq s h).2.run_same hidKeyboard bufs)

theorem packets_unstalled (bytes : List Byte) (n : Nat) :
    ((List.range n).map fun i => [packet (bytes.drop (8 * i))]).flatten.any Reply.stall = false := by
  rw [List.any_eq_false]
  intro x hx
  obtain ⟨rs, hrs, hx⟩ := List.mem_flatten.mp hx
  obtain ⟨i, -, rfl⟩ := List.mem_map.mp hrs
  rw [List.mem_singleton.mp hx]
  exact Bool.false_ne_true

theorem transfer_getDescriptor {r : UsbRequestHeader} {bytes : List Byte} (s : CtrlEp) (n : Nat)
    (h : Asks d hidKeyboard r bytes) :
    Done s (.getDescriptor r bytes n) (transfer d hidKeyboard s (.getDescriptor r bytes n)) := by
  rw [← requestOf_setupBytes r] at h
  obtain ⟨hpackets, hend⟩ := h.packets s (List.replicate n (endpoint []))
  obtain ⟨hsettings, hbehind⟩ := h.run_same s (List.replicate n (endpoint []))
  have hstatus (s : CtrlEp) : Refine.run (usbHandleIrq d hidKeyboard) s [statusIrq] =
      ((usbHandleIrq d hidKeyboard s statusIrq).1, [(usbHandleIrq d hidKeyboard s statusIrq).2]) := rfl
  rw [requestOf_setupBytes, List.length_replicate] at hpackets
  have hirqs : (Control.getDescriptor r bytes n).irqs =
      (setupIrq (endpoint (setupBytes r)) :: (List.replicate n (endpoint [])).map dataIrq) ++ [statusIrq] := rfl
  unfold transfer
  dsimp only
  rw [hirqs, run_state_append, run_answers_append, hpackets, hstatus, usbHandleIrq_status d hidKeyboard hend.stall]
  constructor
  · exact hsettings
  · exact hbehind
  · have hbytes := flatMap_packets (bytes.take r.wLength.toNat) (n + 1)
    have hgo := packets_unstalled (bytes.take r.wLength.toNat) (n + 1)
    rw [List.flatten_append, List.flatMap_append, List.any_append, hbytes, hgo]
    simp [Settings.step]

/-- Every transfer. -/
theorem transfer_done (s : CtrlEp) {c : Control} (h : c.Legal d hidKeyboard) :
    Done s c (transfer d hidKeyboard s c) := by
  cases c with
  | setLineEncoding l =>
    obtain rfl : hidKeyboard = false := h
    exact transfer_setLineEncoding s l
  | getLineEncoding =>
    obtain rfl : hidKeyboard = false := h
    exact transfer_getLineEncoding s
  | setControlLineState v =>
    obtain rfl : hidKeyboard = false := h
    exact transfer_setControlLineState s v
  | setMute u intf v => exact transfer_setMute s u intf v
  | getMute u intf => exact transfer_getMute s u intf
  | setVolume u intf v => exact transfer_setVolume s u intf v
  | getVolume u intf => exact transfer_getVolume s u intf
  | setInterface intf v => exact transfer_setInterface s intf v h
  | getInterface intf => exact transfer_getInterface s intf h
  | setConfiguration v => exact transfer_setConfiguration s v
  | getConfiguration => exact transfer_getConfiguration s
  | setIdle v report intf => exact transfer_setIdle s v report intf
  | getIdle report intf => exact transfer_getIdle s report intf
  | setProtocol v intf => exact transfer_setProtocol s v intf
  | getProtocol intf => exact transfer_getProtocol s intf
  | getDescriptor r bytes n => exact transfer_getDescriptor s n h
  | busReset => exact transfer_busReset s

end Transfers

/-- What the device of settings answers to a transfer: its bytes, and no stall. -/
def settingsStep (t : Settings) (c : Control) : Settings × List (Option Byte) × Bool :=
  ((t.step c).1, (t.step c).2.map some, false)

/-- Whatever transfers the host makes, in any order and from any state, every one is acknowledged and reads
what was last written; reading descriptors and the passes of the two stages of a write do not show, and
nothing is stored behind the array of the alternate settings. -/
theorem usb_settings_refined (d : Descriptors) (hidKeyboard : Bool) (s : CtrlEp) {cs : List Control}
    (hcs : ∀ c ∈ cs, c.Legal d hidKeyboard) :
    let r := Refine.run (transfer d hidKeyboard) s cs
    r.2 = (Refine.run settingsStep s.settings cs).2 ∧ r.1.settings = (Refine.run settingsStep s.settings cs).1 ∧
      r.1.altIntfBehind = s.altIntfBehind := by
  have hstep (s' : CtrlEp) (t : Settings) (c : Control)
      (h : s'.settings = t ∧ s'.altIntfBehind = s.altIntfBehind) (hc : c.Legal d hidKeyboard) :
      ((transfer d hidKeyboard s' c).1.settings = (settingsStep t c).1 ∧
        (transfer d hidKeyboard s' c).1.altIntfBehind = s.altIntfBehind) ∧
        (transfer d hidKeyboard s' c).2 = (settingsStep t c).2 := by
    obtain ⟨hsettings, hbehind, hreply⟩ := transfer_done s' hc
    rw [h.1] at hsettings hreply
    exact ⟨⟨hsettings, hbehind.trans h.2⟩, hreply⟩
  obtain ⟨⟨hend, hbehind⟩, hreplies⟩ := run_refines hstep ⟨rfl, rfl⟩ (legal_forall.mpr hcs)
  exact ⟨hreplies, hend, hbehind⟩

/-- The host selects the alternate setting of the microphone, sets its volume, reads a descriptor, resets
the bus and reads both settings. -/
def microphoneCalls : List Control :=
  [.setInterface 3 1, .setVolume .mic 2 0x0180, .getDescriptor ⟨0x80, 6, 0x0100, 0, 18⟩ deviceDesc 2, .busReset,
    .getVolume .mic 2, .getInterface 3]

theorem usb_settings_refined_microphone :
    (Refine.run (transfer cdcDescriptors false) .initial microphoneCalls).2.drop 4 =
      [([some 0x80, some 0x01], false), ([some 1], false)] := by
  have hcalls : ∀ c ∈ microphoneCalls, c.Legal cdcDescriptors false := by
    intro c hc
    simp only [microphoneCalls, List.mem_cons, List.not_mem_nil, or_false] at hc
    rcases hc with rfl | rfl | rfl | rfl | rfl | rfl
    · exact (by decide : 3 % 8 < 4)
    · exact trivial
    · exact ⟨rfl, .inl ⟨rfl, rfl⟩⟩
    · exact trivial
    · exact trivial
    · exact (by decide : 3 % 8 < 4)
  rw [(usb_settings_refined cdcDescriptors false .initial hcalls).1]
  decide

end Rf4ce.Drv.Usb

import Rf4ce.Crash.Bytes
import Rf4ce.Refine.Run

/-! The control endpoint of the dongle, `usb.c` with `USB_MIC_ENABLE` and either a keyboard or a
CDC interface: requests of the host, and the descriptors sent in packets of eight bytes. -/
namespace Rf4ce.Drv.Usb
open Crash Refine

/-- The objects of `usbdesc.c` and the report descriptor of `usbkb_i.h`. -/
inductive DescId where
  | device | configuration | language | vendor | product | serial | keyboardReport
deriving DecidableEq, Repr

def DescId.strings : List DescId := [.language, .vendor, .product, .serial]

/-- Their bytes, and where `keyboard_descriptor` lies in `configuration_desc`. The first byte of a
string descriptor is its size. -/
structure Descriptors where
  object : DescId → List Byte
  keyboardDescriptor : Nat
  keyboardSize : Nat
  string_fits : ∀ id ∈ DescId.strings, ((object id).headD 0).toNat ≤ (object id).length
  keyboard_fits : keyboardDescriptor + keyboardSize ≤ (object .configuration).length

/-! The tables of the dongle as it is configured, with the CDC interface. -/

def deviceDesc : List Byte :=
  [18, 0x01, 0x10, 0x01, 0xef, 0x02, 0x01, 8, 0x8a, 0x24, 0x44, 0x86, 0x00, 0x01, 1, 2, 3, 1]

/-- One line for each member of `USB_Descriptor_Configuration_t`; those of `cdc_descriptor` are the ones
from the second line of the CDC interface on. -/
def configurationDesc : List Byte :=
  [9, 0x02, 183, 0, 4, 1, 0, 0xa0, 25] ++
  -- the CDC interface
  [8, 0x0b, 0, 2, 0x02, 0x02, 0x01, 0] ++
  [9, 0x04, 0, 0, 1, 0x02, 0x02, 0x01, 0] ++
  [5, 0x24, 0x00, 0x10, 0x01] ++
  [4, 0x24, 0x02, 0x02] ++
  [5, 0x24, 0x06, 0, 1] ++
  [5, 0x24, 0x01, 0, 1] ++
  [7, 0x05, 0x82, 0x03, 8, 0, 0x40] ++
  [9, 0x04, 1, 0, 2, 0x0a, 0x00, 0x00, 0] ++
  [7, 0x05, 0x05, 0x02, 64, 0, 0] ++
  [7, 0x05, 0x84, 0x02, 64, 0, 0] ++
  -- the microphone
  [8, 0x0b, 2, 2, 0x01, 0x01, 0x00, 0] ++
  [9, 0x04, 2, 0, 0, 0x01, 0x01, 0x00, 0] ++
  [9, 0x24, 0x01, 0x00, 0x01, 39, 0, 1, 3] ++
  [12, 0x24, 0x02, 4, 0x01, 0x02, 0, 1, 0x01, 0x00, 0, 0] ++
  [9, 0x24, 0x06, 5, 4, 1, 0x03, 0x00, 0] ++
  [9, 0x24, 0x03, 6, 0x01, 0x01, 0, 5, 0] ++
  [9, 0x04, 3, 0, 0, 0x01, 0x02, 0x00, 0] ++
  [9, 0x04, 3, 1, 1, 0x01, 0x02, 0x00, 0] ++
  [7, 0x24, 0x01, 6, 1, 1, 0] ++
  [11, 0x24, 0x02, 1, 1, 2, 16, 1] ++
  [0x80, 0x3e, 0x00] ++
  [9, 0x05, 0x87, 0x0d, 32, 0, 1, 0, 0] ++
  [7, 0x25, 0x01, 0x01, 0, 0, 0]

/-- `USB_DescriptorString_t` -/
def stringDesc (unicodeString : List Char) : List Byte :=
  [BitVec.ofNat 8 (2 + 2 * unicodeString.length), 0x03] ++
    unicodeString.flatMap fun c => [BitVec.ofNat 8 c.toNat, BitVec.ofNat 8 (c.toNat / 256)]

def cdcDescriptors : Descriptors where
  object
    | .device => deviceDesc
    | .configuration => configurationDesc
    | .language => [4, 0x03, 0x09, 0x04]
    | .vendor => stringDesc ['T', 'e', 'l', 'i', 'n', 'k']
    | .product => stringDesc ['T', 'e', 'l', 'i', 'n', 'k', '_', 'R', 'F', '4', 'C', 'E']
    | .serial => stringDesc ['T', 'L', 'S', 'R']
    | .keyboardReport => []
  keyboardDescriptor := 0
  keyboardSize := 0
  string_fits := by decide
  keyboard_fits := Nat.zero_le _

/-- `USB_Request_Header_t` -/
structure UsbRequestHeader where
  bmRequestType : Byte
  bRequest : Byte
  wValue : BitVec 16
  wIndex : BitVec 16
  wLength : BitVec 16

namespace UsbRequestHeader

def valueL (r : UsbRequestHeader) : Byte := r.wValue.setWidth 8
def valueH (r : UsbRequestHeader) : Byte := (r.wValue >>> 8).setWidth 8
def indexL (r : UsbRequestHeader) : Byte := r.wIndex.setWidth 8
def indexH (r : UsbRequestHeader) : Byte := (r.wIndex >>> 8).setWidth 8

end UsbRequestHeader

/-- `speaker_setting_t`, `mic_setting_t` -/
structure AudioSetting where
  volCur : BitVec 16
  volStep : BitVec 16
  mute : Byte
deriving DecidableEq, Repr

/-- `CDC_LineEncoding_t` -/
structure LineEncoding where
  baudRateBPS : BitVec 32
  charFormat : Byte
  parityType : Byte
  dataBits : Byte
deriving DecidableEq, Repr

/-- The variables of `usb.c`, `usbaud.c` and the state of `VirtualSerial_CDC_Interface`. `gResponse`
points into an object, or is NULL. `altIntfBehind` are the writes that went behind `usb_alt_intf`, with
the index and the byte of each, last one first. -/
structure CtrlEp where
  controlRequest : UsbRequestHeader
  gResponse : Option (DescId × Nat)
  gResponseLen : Nat
  gStall : Bool
  usbGFeature : Byte
  hostKeyboardStatus : Byte
  usbMouseReportProto : Byte
  gRate : Byte
  gUsbConfig : Byte
  gUsbConfigValue : Byte
  usbAltIntf : Nat → Byte
  altIntfBehind : List (Nat × Byte)
  speakerSetting : AudioSetting
  micSetting : AudioSetting
  lineEncoding : LineEncoding
  hostToDevice : BitVec 16

/-- The static variables after `usbaud_init` and `usbcdc_init`. -/
def CtrlEp.initial : CtrlEp where
  controlRequest := ⟨0, 0, 0, 0, 0⟩
  gResponse := none
  gResponseLen := 0
  gStall := false
  usbGFeature := 0
  hostKeyboardStatus := 0
  usbMouseReportProto := 0
  gRate := 0
  gUsbConfig := 0
  gUsbConfigValue := 0
  usbAltIntf := fun _ => 0
  altIntfBehind := []
  speakerSetting := ⟨0, 0, 0⟩
  micSetting := ⟨0x1800, 0, 0⟩
  lineEncoding := ⟨115200, 0, 0, 8⟩
  hostToDevice := 0

/-- `USB_IRQ_SETUP_REQ`, `USB_IRQ_DATA_REQ` -/
inductive DataRequest where
  | setup | data
deriving DecidableEq, Repr

/-- What a handler leaves in the endpoint: the bytes written since its pointer was reset, where a
read outside of the objects is `none`, and whether it is stalled. -/
structure Reply where
  bytes : List (Option Byte)
  stall : Bool
deriving DecidableEq, Repr

section Code
variable (d : Descriptors) (hidKeyboard : Bool)

/-- `USB_INTF_KEYBOARD` comes after the two audio interfaces. -/
def usbIntfKeyboard : Byte := 2

/-- `USB_INTF_MAX`: two audio interfaces, and the keyboard or the two interfaces of the CDC class. -/
def usbIntfMax : Nat := if hidKeyboard then 3 else 4

def usbSendResponse (s : CtrlEp) : CtrlEp × List (Option Byte) :=
  let n := if s.gResponseLen < 8 then s.gResponseLen else 8
  ({ s with gResponseLen := s.gResponseLen - n, gResponse := s.gResponse.map fun p => (p.1, p.2 + n) },
    (List.range n).map fun i => s.gResponse.bind fun p => (d.object p.1)[p.2 + i]?)

/-- `g_response` and `g_response_len` for an object that is sent whole. -/
def CtrlEp.respond (s : CtrlEp) (id : DescId) : CtrlEp :=
  { s with gResponse := some (id, 0), gResponseLen := (d.object id).length }

/-- A string descriptor: `g_response_len = g_response[0]`. -/
def CtrlEp.respondString (s : CtrlEp) (id : DescId) : CtrlEp :=
  { s with gResponse := some (id, 0), gResponseLen := ((d.object id).headD 0).toNat }

def CtrlEp.limit (s : CtrlEp) : CtrlEp :=
  { s with gResponseLen :=
      if s.controlRequest.wLength.toNat < s.gResponseLen then s.controlRequest.wLength.toNat else s.gResponseLen }

def usbPrepareDescData (s : CtrlEp) : CtrlEp :=
  let valueL := s.controlRequest.valueL
  let valueH := s.controlRequest.valueH
  let s := { s with gResponse := none, gResponseLen := 0 }
  let s :=
    if valueH = 0x01 then s.respond d .device
    else if valueH = 0x02 then s.respond d .configuration
    else if valueH = 0x03 then
      if valueL = 0 then s.respondString d .language
      else if valueL = 1 then s.respondString d .vendor
      else if valueL = 2 then s.respondString d .product
      else if valueL = 3 then s.respondString d .serial
      else { s with gStall := true }
    else { s with gStall := true }
  s.limit

/-- A request for another descriptor leaves `g_response` as the last transfer left it. -/
def usbHandleStdIntfReq (s : CtrlEp) : CtrlEp :=
  let valueH := s.controlRequest.valueH
  let s :=
    if hidKeyboard = true ∧ s.controlRequest.indexL = usbIntfKeyboard then
      if valueH = 0x21 then
        { s with gResponse := some (.configuration, d.keyboardDescriptor), gResponseLen := d.keyboardSize }
      else if valueH = 0x22 then s.respond d .keyboardReport
      else s
    else s
  s.limit

def readU16 (buf : Nat → Byte) (i : Nat) : BitVec 16 := (buf (i + 1)).setWidth 16 <<< 8 ||| (buf i).setWidth 16

/-- `usbaud_set_speaker_vol`, `usbaud_set_mic_vol`: `volMin` is the least volume, `0x0180` the
resolution of both. -/
def setVol (volMin : Int) (vol : BitVec 16) (a : AudioSetting) : AudioSetting :=
  { a with
    volCur := vol
    volStep := if vol.toInt < volMin then 0 else BitVec.ofInt 16 ((vol.toInt - volMin) / 0x0180) }

/-- `usbaud_handle_set_speaker_cmd`, `usbaud_handle_set_mic_cmd` -/
def handleSetCmd (volMin : Int) (type : Byte) (buf : Nat → Byte) (a : AudioSetting) : AudioSetting :=
  if type = 0x01 then { a with mute := buf 0 }
  else if type = 0x02 then setVol volMin (readU16 buf 0) a
  else a

def usbaudHandleSetSpeakerCmd (type : Byte) (buf : Nat → Byte) (s : CtrlEp) : CtrlEp :=
  { s with speakerSetting := handleSetCmd (-0x6000) type buf s.speakerSetting }

def usbaudHandleSetMicCmd (type : Byte) (buf : Nat → Byte) (s : CtrlEp) : CtrlEp :=
  { s with micSetting := handleSetCmd 0 type buf s.micSetting }

def u16Bytes (v : BitVec 16) : List Byte := [v.setWidth 8, (v >>> 8).setWidth 8]

/-- `usbaud_handle_get_speaker_cmd`, `usbaud_handle_get_mic_cmd`; `none` is the result `-1`. -/
def handleGetCmd (volMin volMax : BitVec 16) (req type : Byte) (a : AudioSetting) : Option (List Byte) :=
  if type = 0x01 then some [a.mute]
  else if type = 0x02 then
    if req = 0x81 then some (u16Bytes a.volCur)
    else if req = 0x82 then some (u16Bytes volMin)
    else if req = 0x83 then some (u16Bytes volMax)
    else if req = 0x84 then some (u16Bytes 0x0180)
    else none
  else none

def usbaudHandleGetSpeakerCmd (req type : Byte) (s : CtrlEp) : Option (List Byte) :=
  handleGetCmd 0xa000 0x0300 req type s.speakerSetting

def usbaudHandleGetMicCmd (req type : Byte) (s : CtrlEp) : Option (List Byte) :=
  handleGetCmd 0 0x1e00 req type s.micSetting

def usbcdcRead32 (buf : Nat → Byte) : BitVec 32 :=
  (buf 3).setWidth 32 <<< 24 ||| ((buf 2).setWidth 32 <<< 16 ||| ((buf 1).setWidth 32 <<< 8 ||| (buf 0).setWidth 32))

def usbcdcWrite32 (value : BitVec 32) : List Byte :=
  [value.setWidth 8, (value >>> 8).setWidth 8, (value >>> 16).setWidth 8, (value >>> 24).setWidth 8]

/-- `CDC_Device_ProcessControlRequest` for the requests that write to the device. -/
def cdcSetRequest (buf : Nat → Byte) (s : CtrlEp) : CtrlEp :=
  if s.controlRequest.wIndex ≠ 0 then s
  else if s.controlRequest.bRequest = 0x20 then { s with lineEncoding := ⟨usbcdcRead32 buf, buf 4, buf 5, buf 6⟩ }
  else { s with hostToDevice := s.controlRequest.wValue }

/-- `CDC_Device_ProcessControlRequest` with `CDC_REQ_GetLineEncoding`. -/
def cdcGetLineEncoding (s : CtrlEp) : List Byte :=
  if s.controlRequest.wIndex ≠ 0 then []
  else usbcdcWrite32 s.lineEncoding.baudRateBPS ++
    [s.lineEncoding.charFormat, s.lineEncoding.parityType, s.lineEncoding.dataBits]

/-- The first `switch` of `usb_handle_out_class_intf_req`. What `HID_REQ_SetIdle` and
`HID_REQ_SetProtocol` read from the endpoint they overwrite. -/
def outClassIntfHid (dataRequest : DataRequest) (buf : Nat → Byte) (s : CtrlEp) : CtrlEp :=
  let property := s.controlRequest.bRequest
  let valueH := s.controlRequest.valueH
  if property = 0x09 then
    if valueH = 0 ∨ valueH = 1 then s
    else if valueH = 2 then if dataRequest = .data then { s with hostKeyboardStatus := buf 0 } else s
    else { s with gStall := true }
  else if property = 0x0a then { s with gRate := valueH }
  else if property = 0x0b then { s with usbMouseReportProto := s.controlRequest.valueL }
  else if hidKeyboard = false ∧ (property = 0x22 ∨ property = 0x20) then cdcSetRequest buf s
  else { s with gStall := true }

def usbHandleOutClassIntfReq (dataRequest : DataRequest) (buf : Nat → Byte) (s : CtrlEp) : CtrlEp :=
  let s := outClassIntfHid hidKeyboard dataRequest buf s
  if s.gStall = false then s
  else
    let s := { s with gStall := false }
    if s.controlRequest.indexH = 2 then usbaudHandleSetSpeakerCmd s.controlRequest.valueH buf s
    else if s.controlRequest.indexH = 5 then usbaudHandleSetMicCmd s.controlRequest.valueH buf s
    else { s with gStall := true }

/-- The first `switch` of `usb_handle_in_class_intf_req`, `none` where it sets `g_stall`. -/
def inClassIntfHid (s : CtrlEp) : Option (List Byte) :=
  let property := s.controlRequest.bRequest
  if property = 0x00 then some [0]
  else if property = 0x01 then some []
  else if property = 0x02 then some [s.gRate]
  else if property = 0x03 then some [s.usbMouseReportProto]
  else if hidKeyboard = false ∧ property = 0x21 then some (cdcGetLineEncoding s)
  else none

/-- What it writes, `none` when it stalls. -/
def usbHandleInClassIntfReq (s : CtrlEp) : Option (List Byte) :=
  match inClassIntfHid hidKeyboard s with
  | some bytes => some bytes
  | none =>
    let property := s.controlRequest.bRequest
    let valueH := s.controlRequest.valueH
    if s.controlRequest.indexH = 2 then usbaudHandleGetSpeakerCmd property valueH s
    else if s.controlRequest.indexH = 5 then usbaudHandleGetMicCmd property valueH s
    else none

/-- The sampling frequency is 16000. -/
def usbHandleInClassEndpReq (s : CtrlEp) : List Byte :=
  if s.controlRequest.valueH = 0x01 ∧ s.controlRequest.bRequest = 0x81 then [0x80, 0x3e, 0x00] else []

/-- `usb_alt_intf` has `USB_INTF_MAX` bytes; the assertion that checks the index is compiled out. -/
def usbHandleSetIntf (s : CtrlEp) : CtrlEp :=
  let valueL := s.controlRequest.valueL
  let intfIndex := s.controlRequest.wIndex.toNat % 8
  if intfIndex < usbIntfMax hidKeyboard then { s with usbAltIntf := Function.update s.usbAltIntf intfIndex valueL }
  else { s with altIntfBehind := (intfIndex, valueL) :: s.altIntfBehind }

def usbHandleGetIntf (s : CtrlEp) : Option Byte :=
  let intfIndex := s.controlRequest.wIndex.toNat % 8
  if intfIndex < usbIntfMax hidKeyboard then some (s.usbAltIntf intfIndex) else none

/-- What a handler wrote, `none` when it sets `g_stall`. -/
def CtrlEp.write (s : CtrlEp) : Option (List Byte) → CtrlEp × List (Option Byte)
  | some bytes => (s, bytes.map some)
  | none => ({ s with gStall := true }, [])

def usbHandleRequest (dataRequest : DataRequest) (buf : Nat → Byte) (s : CtrlEp) : CtrlEp × List (Option Byte) :=
  let bmRequestType := s.controlRequest.bmRequestType
  let bRequest := s.controlRequest.bRequest
  if bmRequestType = 0x80 then
    if bRequest = 6 then usbSendResponse d (if dataRequest = .setup then usbPrepareDescData d s else s)
    else if bRequest = 8 then s.write (some [s.gUsbConfigValue])
    else (s, [])
  else if bmRequestType = 0x81 then
    if bRequest = 6 then usbSendResponse d (if dataRequest = .setup then usbHandleStdIntfReq d hidKeyboard s else s)
    else if bRequest = 10 then (s, [usbHandleGetIntf hidKeyboard s])
    else (s, [])
  else if bmRequestType = 0x21 then (usbHandleOutClassIntfReq hidKeyboard dataRequest buf s, [])
  else if bmRequestType = 0x22 then (s, [])
  else if bmRequestType = 0xa1 then s.write (usbHandleInClassIntfReq hidKeyboard s)
  else if bmRequestType = 0xa2 then s.write (some (usbHandleInClassEndpReq s))
  else if bmRequestType = 0x01 then
    if bRequest = 11 then (usbHandleSetIntf hidKeyboard s, [])
    else if bRequest = 3 then ({ s with gStall := true, usbGFeature := 1 }, [])
    else (s, [])
  else if bmRequestType = 0x00 then
    if bRequest = 9 then
      ({ s with
        gUsbConfigValue := s.controlRequest.valueL
        gUsbConfig := if s.controlRequest.valueL ≠ 0 then 1 else s.gUsbConfig }, [])
    else (s, [])
  else ({ s with gStall := true }, [])

/-- The eight bytes of a setup packet. -/
def requestOf (buf : Nat → Byte) : UsbRequestHeader := ⟨buf 0, buf 1, readU16 buf 2, readU16 buf 4, readU16 buf 6⟩

def usbHandleCtlEpSetup (buf : Nat → Byte) (s : CtrlEp) : CtrlEp × Reply :=
  let r := usbHandleRequest d hidKeyboard .setup buf { s with controlRequest := requestOf buf, gStall := false }
  (r.1, ⟨r.2, r.1.gStall⟩)

def usbHandleCtlEpData (buf : Nat → Byte) (s : CtrlEp) : CtrlEp × Reply :=
  let r := usbHandleRequest d hidKeyboard .data buf { s with gStall := false }
  (r.1, ⟨r.2, r.1.gStall⟩)

def usbHandleCtlEpStatus (s : CtrlEp) : CtrlEp × Reply := (s, ⟨[], s.gStall⟩)

/-- What `usb_handle_irq` finds: the flags of the control endpoint, with its bytes as each handler
reads them, and whether the bus was reset. -/
structure UsbIrq where
  setup : Option (Nat → Byte)
  data : Option (Nat → Byte)
  status : Bool
  reset : Bool

def setupIrq (buf : Nat → Byte) : UsbIrq := ⟨some buf, none, false, false⟩

def dataIrq (buf : Nat → Byte) : UsbIrq := ⟨none, some buf, false, false⟩

/-- A handler whose flag may be set. -/
def flagged (handler : (Nat → Byte) → CtrlEp → CtrlEp × Reply) :
    Option (Nat → Byte) → CtrlEp → CtrlEp × List Reply
  | some buf, s => ((handler buf s).1, [(handler buf s).2])
  | none, s => (s, [])

/-- With a CDC interface `g_stall` is cleared for the bulk endpoints, which are left out. -/
def usbHandleIrq (s : CtrlEp) (irq : UsbIrq) : CtrlEp × List Reply :=
  let r := flagged (usbHandleCtlEpSetup d hidKeyboard) irq.setup s
  let r' := flagged (usbHandleCtlEpData d hidKeyboard) irq.data r.1
  let status := if irq.status then [(usbHandleCtlEpStatus r'.1).2] else []
  let s := if irq.reset then { r'.1 with usbMouseReportProto := 1 } else r'.1
  ({ s with gStall := if hidKeyboard then s.gStall else false }, r.2 ++ r'.2 ++ status)

end Code

/-! ### The window of a response -/

/-- What is left to send lies inside of one object. -/
def CtrlEp.Window (d : Descriptors) (s : CtrlEp) : Prop :=
  match s.gResponse with
  | none => s.gResponseLen = 0
  | some (id, off) => off + s.gResponseLen ≤ (d.object id).length

/-- The bytes that are left to send. -/
def CtrlEp.pending (d : Descriptors) (s : CtrlEp) : List Byte :=
  match s.gResponse with
  | none => []
  | some (id, off) => ((d.object id).drop off).take s.gResponseLen

/-- A packet of at most eight bytes, all of them out of a descriptor or a variable. -/
def Reply.Ok (r : Reply) : Prop := r.bytes.length ≤ 8 ∧ ∀ x ∈ r.bytes, x.isSome = true

section Window
variable {d : Descriptors} {hidKeyboard : Bool} {s : CtrlEp}

theorem map_range_getElem? {xs : List Byte} {n : Nat} (hn : n ≤ xs.length) :
    (List.range n).map (fun i => xs[i]?) = (xs.take n).map some := by
  apply List.ext_getElem
  · simp [hn]
  · intro i hi hi'
    rw [List.length_map, List.length_range] at hi
    simp [List.getElem?_eq_getElem (Nat.lt_of_lt_of_le hi hn)]

/-- A packet takes the first eight bytes off. -/
theorem usbSendResponse_spec (h : s.Window d) :
    let r := usbSendResponse d s
    r.2 = ((s.pending d).take 8).map some ∧ r.1.pending d = (s.pending d).drop 8 ∧ r.1.Window d := by
  have hn : (if s.gResponseLen < 8 then s.gResponseLen else 8) = min 8 s.gResponseLen := by
    split_ifs <;> omega
  unfold usbSendResponse
  dsimp only
  rw [hn]
  unfold CtrlEp.Window at h
  unfold CtrlEp.Window CtrlEp.pending
  cases hp : s.gResponse with
  | none =>
    rw [hp] at h
    dsimp only at h
    rw [h]
    exact ⟨rfl, rfl, rfl⟩
  | some p =>
    obtain ⟨id, off⟩ := p
    rw [hp] at h
    dsimp only [Option.map_some, Option.bind_some] at h ⊢
    constructor
    · have hread (i : Nat) : (d.object id)[off + i]? = ((d.object id).drop off)[i]? := List.getElem?_drop.symm
      simp only [hread]
      rw [map_range_getElem? (by rw [List.length_drop]; omega), List.take_take]
    · constructor
      · rw [List.drop_take, List.drop_drop]
        rcases Nat.lt_or_ge s.gResponseLen 8 with hlast | hmore
        · rw [Nat.min_eq_right (Nat.le_of_lt hlast), Nat.sub_self, Nat.sub_eq_zero_of_le (Nat.le_of_lt hlast)]
          rfl
        · rw [Nat.min_eq_left hmore]
      · omega

/-- Preparing, or leaving alone, a response. -/
theorem CtrlEp.limit_window (h : s.Window d) : s.limit.Window d := by
  unfold CtrlEp.Window at h
  unfold CtrlEp.limit CtrlEp.Window
  cases hp : s.gResponse with
  | none =>
    rw [hp] at h
    dsimp only at h ⊢
    rw [h]
    exact if_neg (Nat.not_lt_zero _)
  | some p =>
    rw [hp] at h
    dsimp only at h ⊢
    split_ifs <;> omega

theorem CtrlEp.limit_pending (s : CtrlEp) : s.limit.pending d = (s.pending d).take s.controlRequest.wLength.toNat := by
  unfold CtrlEp.limit CtrlEp.pending
  cases s.gResponse with
  | none => exact List.take_nil.symm
  | some p =>
    dsimp only
    rw [List.take_take]
    congr 1
    split_ifs <;> omega

theorem CtrlEp.respond_window (s : CtrlEp) (id : DescId) : (s.respond d id).Window d := by
  show 0 + (d.object id).length ≤ (d.object id).length
  omega

theorem CtrlEp.respondString_window (s : CtrlEp) {id : DescId} (hid : id ∈ DescId.strings) :
    (s.respondString d id).Window d := by
  show 0 + ((d.object id).headD 0).toNat ≤ (d.object id).length
  rw [Nat.zero_add]
  exact d.string_fits id hid

theorem usbPrepareDescData_window (d : Descriptors) (s : CtrlEp) : (usbPrepareDescData d s).Window d := by
  unfold usbPrepareDescData
  apply CtrlEp.limit_window
  split_ifs
  · exact CtrlEp.respond_window _ _
  · exact CtrlEp.respond_window _ _
  · exact CtrlEp.respondString_window _ (by decide)
  · exact CtrlEp.respondString_window _ (by decide)
  · exact CtrlEp.respondString_window _ (by decide)
  · exact CtrlEp.respondString_window _ (by decide)
  · exact rfl
  · exact rfl

theorem usbHandleStdIntfReq_window (h : s.Window d) : (usbHandleStdIntfReq d hidKeyboard s).Window d := by
  unfold usbHandleStdIntfReq
  apply CtrlEp.limit_window
  split_ifs
  · exact d.keyboard_fits
  · exact CtrlEp.respond_window _ _
  · exact h
  · exact h

/-- A handler that leaves the response alone. -/
theorem CtrlEp.Window.congr {s' : CtrlEp} (h : s.Window d) (hr : s'.gResponse = s.gResponse)
    (hl : s'.gResponseLen = s.gResponseLen) : s'.Window d := by
  unfold CtrlEp.Window at h ⊢
  rw [hr, hl]
  exact h

/-- The request stays, and nothing is stored behind the array. -/
structure CtrlEp.Keeps (s s' : CtrlEp) : Prop where
  request : s'.controlRequest = s.controlRequest
  behind : s'.altIntfBehind = s.altIntfBehind

theorem usbPrepareDescData_keeps (d : Descriptors) (s : CtrlEp) : s.Keeps (usbPrepareDescData d s) := by
  unfold usbPrepareDescData
  dsimp only
  split_ifs <;> exact ⟨rfl, rfl⟩

theorem usbHandleStdIntfReq_keeps (d : Descriptors) (hidKeyboard : Bool) (s : CtrlEp) :
    s.Keeps (usbHandleStdIntfReq d hidKeyboard s) := by
  unfold usbHandleStdIntfReq
  dsimp only
  split_ifs <;> exact ⟨rfl, rfl⟩

theorem usbHandleOutClassIntfReq_keeps (hidKeyboard : Bool) (dataRequest : DataRequest) (buf : Nat → Byte)
    (s : CtrlEp) :
    let s' := usbHandleOutClassIntfReq hidKeyboard dataRequest buf s
    s'.gResponse = s.gResponse ∧ s'.gResponseLen = s.gResponseLen ∧ s.Keeps s' := by
  have hhid : (outClassIntfHid hidKeyboard dataRequest buf s).gResponse = s.gResponse ∧
      (outClassIntfHid hidKeyboard dataRequest buf s).gResponseLen = s.gResponseLen ∧
      s.Keeps (outClassIntfHid hidKeyboard dataRequest buf s) := by
    unfold outClassIntfHid cdcSetRequest
    dsimp only
    split_ifs <;> exact ⟨rfl, rfl, ⟨rfl, rfl⟩⟩
  obtain ⟨hresponse, hlen, hrequest, hbehind⟩ := hhid
  unfold usbHandleOutClassIntfReq
  dsimp only
  split_ifs <;> exact ⟨hresponse, hlen, ⟨hrequest, hbehind⟩⟩

theorem handleGetCmd_length {volMin volMax : BitVec 16} {req type : Byte} {a : AudioSetting} {bytes : List Byte}
    (h : handleGetCmd volMin volMax req type a = some bytes) : bytes.length ≤ 8 := by
  unfold handleGetCmd u16Bytes at h
  split_ifs at h
  all_goals
    rw [← Option.some.inj h]
    simp

theorem usbHandleInClassIntfReq_length {bytes : List Byte} (h : usbHandleInClassIntfReq hidKeyboard s = some bytes) :
    bytes.length ≤ 8 := by
  unfold usbHandleInClassIntfReq at h
  cases hhid : inClassIntfHid hidKeyboard s with
  | some bs =>
    rw [hhid] at h
    obtain rfl := Option.some.inj h
    unfold inClassIntfHid cdcGetLineEncoding usbcdcWrite32 at hhid
    dsimp only at hhid
    split_ifs at hhid
    all_goals
      rw [← Option.some.inj hhid]
      simp
  | none =>
    rw [hhid] at h
    dsimp only at h
    split_ifs at h
    · exact handleGetCmd_length h
    · exact handleGetCmd_length h

/-- A request for the alternate setting of an interface names one that the device has. -/
def UsbRequestHeader.InRange (hidKeyboard : Bool) (r : UsbRequestHeader) : Prop :=
  r.bmRequestType = 0x81 ∧ r.bRequest = 10 ∨ r.bmRequestType = 0x01 ∧ r.bRequest = 11 →
    r.wIndex.toNat % 8 < usbIntfMax hidKeyboard

/-- Every byte of the packet is from an object or a variable, and nothing is stored behind the array. -/
structure Inside (s : CtrlEp) (r : CtrlEp × List (Option Byte)) : Prop where
  sent : ∀ x ∈ r.2, x.isSome = true
  behind : r.1.altIntfBehind = s.altIntfBehind

/-- A handler keeps the window and the request and writes a packet that fits. -/
structure Sound (d : Descriptors) (hidKeyboard : Bool) (s : CtrlEp) (r : CtrlEp × List (Option Byte)) : Prop where
  window : r.1.Window d
  request : r.1.controlRequest = s.controlRequest
  fits : r.2.length ≤ 8
  grows : s.altIntfBehind <:+ r.1.altIntfBehind
  inside : s.controlRequest.InRange hidKeyboard → Inside s r

theorem Sound.ite {p : Prop} [Decidable p] {r r' : CtrlEp × List (Option Byte)} (h : p → Sound d hidKeyboard s r)
    (h' : ¬ p → Sound d hidKeyboard s r') : Sound d hidKeyboard s (if p then r else r') := by
  split_ifs with hp
  · exact h hp
  · exact h' hp

/-- Nothing is sent; a setting may have changed. -/
theorem CtrlEp.Keeps.silent {s' : CtrlEp} (h : s.Keeps s') (hwindow : s'.Window d) :
    Sound d hidKeyboard s (s', []) where
  window := hwindow
  request := h.request
  fits := Nat.zero_le 8
  grows := h.behind ▸ List.suffix_rfl
  inside _ := ⟨fun _ hx => absurd hx List.not_mem_nil, h.behind⟩

theorem CtrlEp.Keeps.send {s' : CtrlEp} (h : s.Keeps s') (hwindow : s'.Window d) :
    Sound d hidKeyboard s (usbSendResponse d s') := by
  obtain ⟨hbytes, -, hwindow'⟩ := usbSendResponse_spec hwindow
  have hbehind : (usbSendResponse d s').1.altIntfBehind = s.altIntfBehind := h.behind
  refine ⟨hwindow', h.request, ?_, hbehind ▸ List.suffix_rfl, fun _ => ⟨?_, hbehind⟩⟩
  · rw [hbytes, List.length_map, List.length_take]
    exact Nat.min_le_left _ _
  · intro x hx
    rw [hbytes] at hx
    obtain ⟨b, -, rfl⟩ := List.mem_map.mp hx
    rfl

theorem CtrlEp.Window.write (h : s.Window d) {o : Option (List Byte)}
    (ho : ∀ bytes, o = some bytes → bytes.length ≤ 8) : Sound d hidKeyboard s (s.write o) := by
  cases o with
  | none => exact CtrlEp.Keeps.silent ⟨rfl, rfl⟩ (h.congr rfl rfl)
  | some bytes =>
    refine ⟨h, rfl, ?_, List.suffix_rfl, fun _ => ⟨?_, rfl⟩⟩
    · simpa [CtrlEp.write] using ho bytes rfl
    · simp [CtrlEp.write]

theorem usbHandleSetIntf_sound (h : s.Window d) (htype : s.controlRequest.bmRequestType = 0x01)
    (hreq : s.controlRequest.bRequest = 11) : Sound d hidKeyboard s (usbHandleSetIntf hidKeyboard s, []) := by
  unfold usbHandleSetIntf
  dsimp only
  split_ifs with hin
  · exact CtrlEp.Keeps.silent ⟨rfl, rfl⟩ (h.congr rfl rfl)
  · refine ⟨h.congr rfl rfl, rfl, Nat.zero_le 8, List.suffix_cons _ _, fun hrange => ?_⟩
    exact absurd (hrange (.inr ⟨htype, hreq⟩)) hin

theorem usbHandleGetIntf_sound (h : s.Window d) (htype : s.controlRequest.bmRequestType = 0x81)
    (hreq : s.controlRequest.bRequest = 10) : Sound d hidKeyboard s (s, [usbHandleGetIntf hidKeyboard s]) := by
  refine ⟨h, rfl, by simp, List.suffix_rfl, fun hrange => ⟨?_, rfl⟩⟩
  have hin := hrange (.inl ⟨htype, hreq⟩)
  intro x hx
  rw [List.mem_singleton.mp hx, usbHandleGetIntf, if_pos hin]
  rfl

theorem usbHandleRequest_sound (hidKeyboard : Bool) (h : s.Window d) (dataRequest : DataRequest) (buf : Nat → Byte) :
    Sound d hidKeyboard s (usbHandleRequest d hidKeyboard dataRequest buf s) := by
  have hdevice : Sound d hidKeyboard s
      (usbSendResponse d (if dataRequest = .setup then usbPrepareDescData d s else s)) := by
    split_ifs
    · exact (usbPrepareDescData_keeps d s).send (usbPrepareDescData_window d s)
    · exact CtrlEp.Keeps.send ⟨rfl, rfl⟩ h
  have hintf : Sound d hidKeyboard s
      (usbSendResponse d (if dataRequest = .setup then usbHandleStdIntfReq d hidKeyboard s else s)) := by
    split_ifs
    · exact (usbHandleStdIntfReq_keeps d hidKeyboard s).send (usbHandleStdIntfReq_window h)
    · exact CtrlEp.Keeps.send ⟨rfl, rfl⟩ h
  obtain ⟨hresponse, hlen, hout⟩ := usbHandleOutClassIntfReq_keeps hidKeyboard dataRequest buf s
  have hendp (bytes : List Byte) (hb : some (usbHandleInClassEndpReq s) = some bytes) : bytes.length ≤ 8 := by
    rw [← Option.some.inj hb]
    unfold usbHandleInClassEndpReq
    split_ifs <;> simp
  have hsilent {s' : CtrlEp} (hkeeps : s.Keeps s') (hr : s'.gResponse = s.gResponse)
      (hl : s'.gResponseLen = s.gResponseLen) : Sound d hidKeyboard s (s', []) := hkeeps.silent (h.congr hr hl)
  unfold usbHandleRequest
  dsimp only
  refine Sound.ite (fun _ => ?_) fun _ => Sound.ite (fun htype => ?_) fun _ => ?_
  · refine Sound.ite (fun _ => hdevice) fun _ => Sound.ite (fun _ => ?_) fun _ => ?_
    · exact h.write (by simp)
    · exact hsilent ⟨rfl, rfl⟩ rfl rfl
  · refine Sound.ite (fun _ => hintf) fun _ => Sound.ite (fun hreq => ?_) fun _ => ?_
    · exact usbHandleGetIntf_sound h htype hreq
    · exact hsilent ⟨rfl, rfl⟩ rfl rfl
  refine Sound.ite (fun _ => hsilent hout hresponse hlen) fun _ => ?_
  refine Sound.ite (fun _ => hsilent ⟨rfl, rfl⟩ rfl rfl) fun _ => ?_
  refine Sound.ite (fun _ => h.write fun _ => usbHandleInClassIntfReq_length) fun _ => ?_
  refine Sound.ite (fun _ => h.write hendp) fun _ => Sound.ite (fun htype => ?_) fun _ => Sound.ite (fun _ => ?_) fun _ => ?_
  · refine Sound.ite (fun hreq => ?_) fun _ => Sound.ite (fun _ => ?_) fun _ => ?_
    · exact usbHandleSetIntf_sound h htype hreq
    · exact hsilent ⟨rfl, rfl⟩ rfl rfl
    · exact hsilent ⟨rfl, rfl⟩ rfl rfl
  · refine Sound.ite (fun _ => ?_) fun _ => ?_
    · exact hsilent ⟨rfl, rfl⟩ rfl rfl
    · exact hsilent ⟨rfl, rfl⟩ rfl rfl
  · exact hsilent ⟨rfl, rfl⟩ rfl rfl

/-- An index behind the array is read from there or written to there. -/
theorem usbHandleRequest_outside (hout : ¬ s.controlRequest.InRange hidKeyboard) (dataRequest : DataRequest)
    (buf : Nat → Byte) : ¬ Inside s (usbHandleRequest d hidKeyboard dataRequest buf s) := by
  obtain ⟨hintf, hindex⟩ := Classical.not_imp.mp hout
  rintro ⟨hsent, hbehind⟩
  rcases hintf with ⟨htype, hreq⟩ | ⟨htype, hreq⟩
  · have hget : usbHandleRequest d hidKeyboard dataRequest buf s = (s, [none]) := by
      unfold usbHandleRequest usbHandleGetIntf
      dsimp only
      rw [htype, hreq, if_neg hindex]
      rfl
    rw [hget] at hsent
    exact Bool.false_ne_true (hsent none List.mem_cons_self)
  · have hset : (usbHandleRequest d hidKeyboard dataRequest buf s).1.altIntfBehind =
        (s.controlRequest.wIndex.toNat % 8, s.controlRequest.valueL) :: s.altIntfBehind := by
      unfold usbHandleRequest usbHandleSetIntf
      dsimp only
      rw [htype, hreq, if_neg hindex]
      rfl
    rw [hset] at hbehind
    exact List.cons_ne_self _ _ hbehind

/-! ### Runs of requests -/

/-- A part of an interrupt with its replies: all of them are fit to send and nothing is stored behind the
array if and only if `p` holds. -/
structure Handled (d : Descriptors) (s : CtrlEp) (p : Prop) (r : CtrlEp × List Reply) : Prop where
  window : r.1.Window d
  fits : ∀ x ∈ r.2, x.bytes.length ≤ 8
  grows : s.altIntfBehind <:+ r.1.altIntfBehind
  inside_iff : (∀ x ∈ r.2, x.Ok) ∧ r.1.altIntfBehind = s.altIntfBehind ↔ p

theorem Handled.nil (h : s.Window d) : Handled d s True (s, []) where
  window := h
  fits _ hx := absurd hx List.not_mem_nil
  grows := List.suffix_rfl
  inside_iff := iff_of_true ⟨fun _ hx => absurd hx List.not_mem_nil, rfl⟩ trivial

theorem Handled.single (h : s.Window d) (hidKeyboard : Bool) (dataRequest : DataRequest) (buf : Nat → Byte) :
    let r := usbHandleRequest d hidKeyboard dataRequest buf s
    Handled d s (s.controlRequest.InRange hidKeyboard) (r.1, [⟨r.2, r.1.gStall⟩]) := by
  have hsound := usbHandleRequest_sound hidKeyboard h dataRequest buf
  refine ⟨hsound.window, ?_, hsound.grows, ?_⟩
  · intro x hx
    rw [List.mem_singleton.mp hx]
    exact hsound.fits
  constructor
  · rintro ⟨hok, hbehind⟩
    by_contra hout
    exact usbHandleRequest_outside hout dataRequest buf ⟨(hok _ List.mem_cons_self).2, hbehind⟩
  · intro hrange
    obtain ⟨hsent, hbehind⟩ := hsound.inside hrange
    refine ⟨fun x hx => ?_, hbehind⟩
    rw [List.mem_singleton.mp hx]
    exact ⟨hsound.fits, hsent⟩

/-- Two parts after each other: what was stored behind the array stays there. -/
theorem Handled.append {p q : Prop} {r r' : CtrlEp × List Reply} (h : Handled d s p r) (h' : Handled d r.1 q r') :
    Handled d s (p ∧ q) (r'.1, r.2 ++ r'.2) := by
  refine ⟨h'.window, ?_, h.grows.trans h'.grows, ?_⟩
  · intro x hx
    rcases List.mem_append.mp hx with hx | hx
    · exact h.fits x hx
    · exact h'.fits x hx
  constructor
  · rintro ⟨hok, hbehind⟩
    dsimp only at hok hbehind
    have hfirst : r.1.altIntfBehind = s.altIntfBehind := by
      have hsuffix := h'.grows
      rw [hbehind] at hsuffix
      exact hsuffix.eq_of_length_le h.grows.length_le
    constructor
    · exact h.inside_iff.mp ⟨fun x hx => hok x (List.mem_append_left _ hx), hfirst⟩
    · exact h'.inside_iff.mp ⟨fun x hx => hok x (List.mem_append_right _ hx), hbehind.trans hfirst.symm⟩
  · rintro ⟨hp, hq⟩
    obtain ⟨hok, hbehind⟩ := h.inside_iff.mpr hp
    obtain ⟨hok', hbehind'⟩ := h'.inside_iff.mpr hq
    refine ⟨fun x hx => ?_, hbehind'.trans hbehind⟩
    rcases List.mem_append.mp hx with hx | hx
    · exact hok x hx
    · exact hok' x hx

/-- A setup packet in the endpoint is in range. -/
def UsbIrq.InRange (hidKeyboard : Bool) (irq : UsbIrq) : Prop :=
  ∀ buf, irq.setup = some buf → (requestOf buf).InRange hidKeyboard

theorem setup_handled (h : s.Window d) (hidKeyboard : Bool) (irq : UsbIrq) :
    let r := flagged (usbHandleCtlEpSetup d hidKeyboard) irq.setup s
    Handled d s (irq.InRange hidKeyboard) r ∧
      (s.controlRequest.InRange hidKeyboard → irq.InRange hidKeyboard → r.1.controlRequest.InRange hidKeyboard) := by
  unfold UsbIrq.InRange
  cases irq.setup with
  | none =>
    have hnone : (∀ buf, (none : Option (Nat → Byte)) = some buf → (requestOf buf).InRange hidKeyboard) ↔ True :=
      iff_of_true (fun _ hbuf => absurd hbuf (by simp)) trivial
    rw [hnone]
    exact ⟨.nil h, fun hreq _ => hreq⟩
  | some buf =>
    have hsome : (∀ buf', some buf = some buf' → (requestOf buf').InRange hidKeyboard) ↔
        (requestOf buf).InRange hidKeyboard := by simp
    have hnew : ({ s with controlRequest := requestOf buf, gStall := false } : CtrlEp).Window d := h.congr rfl rfl
    have hhandled := Handled.single hnew hidKeyboard .setup buf
    have hrequest := (usbHandleRequest_sound hidKeyboard hnew .setup buf).request
    rw [hsome]
    refine ⟨⟨hhandled.window, hhandled.fits, hhandled.grows, hhandled.inside_iff⟩, fun _ hrange => ?_⟩
    change (usbHandleRequest d hidKeyboard .setup buf _).1.controlRequest.InRange hidKeyboard
    rw [hrequest]
    exact hrange

/-- The data stage has the request of the setup packet before it. -/
theorem data_handled (h : s.Window d) (hidKeyboard : Bool) (data : Option (Nat → Byte)) :
    let r := flagged (usbHandleCtlEpData d hidKeyboard) data s
    Handled d s (data = none ∨ s.controlRequest.InRange hidKeyboard) r ∧
      r.1.controlRequest = s.controlRequest := by
  cases data with
  | none =>
    have hnone : ((none : Option (Nat → Byte)) = none ∨ s.controlRequest.InRange hidKeyboard) ↔ True :=
      iff_of_true (.inl rfl) trivial
    rw [hnone]
    exact ⟨.nil h, rfl⟩
  | some buf =>
    have hnew : ({ s with gStall := false } : CtrlEp).Window d := h.congr rfl rfl
    have hhandled := Handled.single hnew hidKeyboard .data buf
    have hrequest := (usbHandleRequest_sound hidKeyboard hnew .data buf).request
    refine ⟨⟨hhandled.window, hhandled.fits, hhandled.grows, hhandled.inside_iff.trans ?_⟩, hrequest⟩
    simp

/-- The status stage and the bus reset. -/
theorem status_handled {s' : CtrlEp} (hkeeps : s.Keeps s') (h : s'.Window d) (status : Bool) :
    Handled d s True (s', if status then [(usbHandleCtlEpStatus s).2] else []) := by
  have hempty : ∀ x ∈ (if status then [(usbHandleCtlEpStatus s).2] else []), x.bytes = [] := by
    intro x hx
    split_ifs at hx
    · rw [List.mem_singleton.mp hx]
      rfl
    · cases hx
  refine ⟨h, fun x hx => ?_, hkeeps.behind ▸ List.suffix_rfl, iff_of_true ⟨fun x hx => ?_, hkeeps.behind⟩ trivial⟩
  · rw [hempty x hx]
    exact Nat.zero_le 8
  · unfold Reply.Ok
    rw [hempty x hx]
    exact ⟨Nat.zero_le 8, fun _ hbyte => absurd hbyte List.not_mem_nil⟩

/-- One call of `usb_handle_irq`. While the stored request is in range, the setup packets decide. -/
theorem usbHandleIrq_handled (h : s.Window d) (hidKeyboard : Bool) (irq : UsbIrq) :
    ∃ p, Handled d s p (usbHandleIrq d hidKeyboard s irq) ∧ (s.controlRequest.InRange hidKeyboard →
      (p ↔ irq.InRange hidKeyboard) ∧
      (irq.InRange hidKeyboard → (usbHandleIrq d hidKeyboard s irq).1.controlRequest.InRange hidKeyboard)) := by
  obtain ⟨hsetup, hrange⟩ := setup_handled h hidKeyboard irq
  obtain ⟨hdata, hkept⟩ := data_handled hsetup.window hidKeyboard irq.data
  unfold usbHandleIrq
  dsimp only at hrange hkept ⊢
  generalize flagged (usbHandleCtlEpSetup d hidKeyboard) irq.setup s = r at hsetup hrange hdata hkept ⊢
  generalize flagged (usbHandleCtlEpData d hidKeyboard) irq.data r.1 = r' at hdata hkept ⊢
  obtain ⟨s', hs'⟩ : ∃ s', s' = if irq.reset then { r'.1 with usbMouseReportProto := 1 } else r'.1 := ⟨_, rfl⟩
  have hend : r'.1.Keeps { s' with gStall := if hidKeyboard then s'.gStall else false } ∧
      CtrlEp.Window d { s' with gStall := if hidKeyboard then s'.gStall else false } := by
    rw [hs']
    split_ifs <;> exact ⟨⟨rfl, rfl⟩, hdata.window.congr rfl rfl⟩
  have hall := (hsetup.append hdata).append (status_handled hend.1 hend.2 irq.status)
  rw [← hs']
  refine ⟨_, hall, fun hreq => ⟨⟨fun hall => hall.1.1, fun hin => ?_⟩, fun hin => ?_⟩⟩
  · exact ⟨⟨hin, .inr (hrange hreq hin)⟩, trivial⟩
  · have hsame := hend.1.request.trans hkept
    dsimp only at hsame ⊢
    rw [hsame]
    exact hrange hreq hin

theorem usbHandleIrq_run_fits (h : s.Window d) (hidKeyboard : Bool) (irqs : List UsbIrq) :
    ∀ rs ∈ (Refine.run (usbHandleIrq d hidKeyboard) s irqs).2, ∀ x ∈ rs, x.bytes.length ≤ 8 := by
  have hstep (s : CtrlEp) (irq : UsbIrq) (h : s.Window d) (_ : True) : (usbHandleIrq d hidKeyboard s irq).1.Window d ∧
      ∀ x ∈ (usbHandleIrq d hidKeyboard s irq).2, x.bytes.length ≤ 8 := by
    obtain ⟨p, hhandled, -⟩ := usbHandleIrq_handled h hidKeyboard irq
    exact ⟨hhandled.window, hhandled.fits⟩
  exact run_answers hstep h (legal_forall.mpr fun _ _ => trivial)

theorem usbHandleIrq_run_grows (h : s.Window d) (hidKeyboard : Bool) (irqs : List UsbIrq) :
    s.altIntfBehind <:+ (Refine.run (usbHandleIrq d hidKeyboard) s irqs).1.altIntfBehind := by
  induction irqs generalizing s with
  | nil => exact List.suffix_rfl
  | cons irq irqs ih =>
    obtain ⟨p, hhandled, -⟩ := usbHandleIrq_handled h hidKeyboard irq
    exact hhandled.grows.trans (ih hhandled.window)

/-- By induction: the first setup packet out of range shows in its reply or behind the array, and what is
there stays. -/
theorem usbHandleIrq_run_inside (h : s.Window d) (hreq : s.controlRequest.InRange hidKeyboard) (irqs : List UsbIrq) :
    let r := Refine.run (usbHandleIrq d hidKeyboard) s irqs
    (∀ rs ∈ r.2, ∀ x ∈ rs, x.Ok) ∧ r.1.altIntfBehind = s.altIntfBehind ↔ ∀ irq ∈ irqs, irq.InRange hidKeyboard := by
  induction irqs generalizing s with
  | nil => exact iff_of_true ⟨fun _ hrs => absurd hrs List.not_mem_nil, rfl⟩ fun _ hirq => absurd hirq List.not_mem_nil
  | cons irq irqs ih =>
    obtain ⟨p, hhandled, hp⟩ := usbHandleIrq_handled h hidKeyboard irq
    obtain ⟨hiff, hnext⟩ := hp hreq
    have hgrows := usbHandleIrq_run_grows hhandled.window hidKeyboard irqs
    dsimp only [Refine.run] at ih ⊢
    rw [List.forall_mem_cons, List.forall_mem_cons]
    constructor
    · rintro ⟨⟨hok, hrest⟩, hbehind⟩
      have hfirst : (usbHandleIrq d hidKeyboard s irq).1.altIntfBehind = s.altIntfBehind := by
        rw [hbehind] at hgrows
        exact hgrows.eq_of_length_le hhandled.grows.length_le
      have hin := hiff.mp (hhandled.inside_iff.mp ⟨hok, hfirst⟩)
      exact ⟨hin, (ih hhandled.window (hnext hin)).mp ⟨hrest, hbehind.trans hfirst.symm⟩⟩
    · rintro ⟨hin, hrest⟩
      obtain ⟨hok, hfirst⟩ := hhandled.inside_iff.mpr (hiff.mpr hin)
      obtain ⟨hoks, hbehind⟩ := (ih hhandled.window (hnext hin)).mpr hrest
      exact ⟨⟨hok, hoks⟩, hbehind.trans hfirst⟩

end Window

/-- Whatever the host sends, in any order and with transfers broken off, no packet is longer than the
endpoint. Every byte sent is from a descriptor or a variable, and nothing is stored behind
`usb_alt_intf`, if and only if no setup packet asks for the alternate setting of an interface that the
device does not have. -/
theorem usb_staysInDescriptors (d : Descriptors) (hidKeyboard : Bool) (irqs : List UsbIrq) :
    let r := Refine.run (usbHandleIrq d hidKeyboard) .initial irqs
    (∀ rs ∈ r.2, ∀ x ∈ rs, x.bytes.length ≤ 8) ∧
      ((∀ rs ∈ r.2, ∀ x ∈ rs, x.Ok) ∧ r.1.altIntfBehind = [] ↔ ∀ irq ∈ irqs, irq.InRange hidKeyboard) := by
  have hinit : CtrlEp.initial.Window d := rfl
  have hreq : CtrlEp.initial.controlRequest.InRange hidKeyboard := by
    rintro (⟨htype, -⟩ | ⟨htype, -⟩) <;> cases htype
  exact ⟨usbHandleIrq_run_fits hinit hidKeyboard irqs, usbHandleIrq_run_inside hinit hreq irqs⟩

/-- The host asks for the alternate setting of interface 7: the byte comes from behind the array. -/
example : (Refine.run (usbHandleIrq cdcDescriptors false) .initial
    [setupIrq fun i => [0x81, 10, 0, 0, 7, 0, 1, 0].getD i 0]).2 = [[⟨[none], false⟩]] := rfl

/-! ### A descriptor -/

/-- The descriptor that a request of the device names. -/
def deviceDescriptor (d : Descriptors) (r : UsbRequestHeader) : Option (List Byte) :=
  if r.valueH = 0x01 then some (d.object .device)
  else if r.valueH = 0x02 then some (d.object .configuration)
  else if r.valueH = 0x03 then
    (DescId.strings[r.valueL.toNat]?).map fun id => (d.object id).take ((d.object id).headD 0).toNat
  else none

/-- The one that a request of the keyboard names. -/
def hidDescriptor (d : Descriptors) (r : UsbRequestHeader) : Option (List Byte) :=
  if r.valueH = 0x21 then some (((d.object .configuration).drop d.keyboardDescriptor).take d.keyboardSize)
  else if r.valueH = 0x22 then some (d.object .keyboardReport)
  else none

/-- `GetDescriptor` for `bytes`. -/
def Asks (d : Descriptors) (hidKeyboard : Bool) (r : UsbRequestHeader) (bytes : List Byte) : Prop :=
  r.bRequest = 6 ∧
    (r.bmRequestType = 0x80 ∧ deviceDescriptor d r = some bytes ∨
      r.bmRequestType = 0x81 ∧ hidKeyboard = true ∧ r.indexL = usbIntfKeyboard ∧ hidDescriptor d r = some bytes)

/-- A transfer with `bytes` still to come. -/
structure Sending (d : Descriptors) (bytes : List Byte) (s : CtrlEp) : Prop where
  request : s.controlRequest.bRequest = 6
  recipient : s.controlRequest.bmRequestType = 0x80 ∨ s.controlRequest.bmRequestType = 0x81
  window : s.Window d
  pending : s.pending d = bytes
  stall : s.gStall = false

def packet (bytes : List Byte) : Reply := ⟨(bytes.take 8).map some, false⟩

section Transfer
variable {d : Descriptors} {hidKeyboard : Bool} {s : CtrlEp} {bytes : List Byte} {buf : Nat → Byte}

theorem respond_pending (s : CtrlEp) (id : DescId) : (s.respond d id).pending d = d.object id :=
  List.take_length

theorem respondString_pending (s : CtrlEp) (id : DescId) :
    (s.respondString d id).pending d = (d.object id).take ((d.object id).headD 0).toNat := rfl

/-- A response that is chosen before its length is limited. -/
structure Chosen (d : Descriptors) (s : CtrlEp) (bytes : List Byte) (s' : CtrlEp) : Prop where
  window : s'.Window d
  pending : s'.pending d = bytes
  request : s'.controlRequest = s.controlRequest
  stall : s'.gStall = s.gStall

theorem usbPrepareDescData_chosen (h : deviceDescriptor d s.controlRequest = some bytes) :
    ∃ s', usbPrepareDescData d s = s'.limit ∧ Chosen d s bytes s' := by
  unfold deviceDescriptor at h
  unfold usbPrepareDescData
  dsimp only
  by_cases hdevice : s.controlRequest.valueH = 0x01
  · rw [if_pos hdevice] at h ⊢
    rw [← Option.some.inj h]
    exact ⟨_, rfl, CtrlEp.respond_window _ _, respond_pending _ _, rfl, rfl⟩
  rw [if_neg hdevice] at h ⊢
  by_cases hconfig : s.controlRequest.valueH = 0x02
  · rw [if_pos hconfig] at h ⊢
    rw [← Option.some.inj h]
    exact ⟨_, rfl, CtrlEp.respond_window _ _, respond_pending _ _, rfl, rfl⟩
  rw [if_neg hconfig] at h ⊢
  by_cases hstring : s.controlRequest.valueH = 0x03
  · rw [if_pos hstring] at h ⊢
    obtain ⟨id, hid, hbytes⟩ := Option.map_eq_some_iff.mp h
    rw [← hbytes]
    split_ifs with hlanguage hvendor hproduct hserial
    · rw [hlanguage] at hid
      rw [← Option.some.inj hid]
      exact ⟨_, rfl, CtrlEp.respondString_window _ (by decide), respondString_pending _ _, rfl, rfl⟩
    · rw [hvendor] at hid
      rw [← Option.some.inj hid]
      exact ⟨_, rfl, CtrlEp.respondString_window _ (by decide), respondString_pending _ _, rfl, rfl⟩
    · rw [hproduct] at hid
      rw [← Option.some.inj hid]
      exact ⟨_, rfl, CtrlEp.respondString_window _ (by decide), respondString_pending _ _, rfl, rfl⟩
    · rw [hserial] at hid
      rw [← Option.some.inj hid]
      exact ⟨_, rfl, CtrlEp.respondString_window _ (by decide), respondString_pending _ _, rfl, rfl⟩
    · have hlt : s.controlRequest.valueL.toNat < 4 := (List.getElem?_eq_some_iff.mp hid).1
      exfalso
      bv_omega
  · rw [if_neg hstring] at h
    cases h

theorem usbHandleStdIntfReq_chosen (hintf : s.controlRequest.indexL = usbIntfKeyboard)
    (h : hidDescriptor d s.controlRequest = some bytes) :
    ∃ s', usbHandleStdIntfReq d true s = s'.limit ∧ Chosen d s bytes s' := by
  unfold hidDescriptor at h
  unfold usbHandleStdIntfReq
  dsimp only
  rw [if_pos ⟨rfl, hintf⟩]
  by_cases hhid : s.controlRequest.valueH = 0x21
  · rw [if_pos hhid] at h ⊢
    rw [← Option.some.inj h]
    exact ⟨_, rfl, d.keyboard_fits, rfl, rfl, rfl⟩
  rw [if_neg hhid] at h ⊢
  by_cases hreport : s.controlRequest.valueH = 0x22
  · rw [if_pos hreport] at h ⊢
    rw [← Option.some.inj h]
    exact ⟨_, rfl, CtrlEp.respond_window _ _, respond_pending _ _, rfl, rfl⟩
  · rw [if_neg hreport] at h
    cases h

/-- The packet of a response that was chosen. -/
theorem Chosen.send {s' : CtrlEp} (h : Chosen d s bytes s') (hstall : s.gStall = false)
    (hreq : s.controlRequest.bRequest = 6)
    (htype : s.controlRequest.bmRequestType = 0x80 ∨ s.controlRequest.bmRequestType = 0x81) :
    let asked := bytes.take s.controlRequest.wLength.toNat
    let r := usbSendResponse d s'.limit
    Reply.mk r.2 r.1.gStall = packet asked ∧ Sending d (asked.drop 8) r.1 := by
  obtain ⟨hbytes, hpending, hwindow⟩ := usbSendResponse_spec (CtrlEp.limit_window h.window)
  rw [CtrlEp.limit_pending, h.pending, h.request] at hbytes hpending
  have hgo : (usbSendResponse d s'.limit).1.gStall = false := by
    rw [← hstall, ← h.stall]
    rfl
  have hrequest : (usbSendResponse d s'.limit).1.controlRequest = s.controlRequest := by
    rw [← h.request]
    rfl
  constructor
  · rw [hbytes, hgo]
    rfl
  · constructor
    · rw [hrequest]
      exact hreq
    · rw [hrequest]
      exact htype
    · exact hwindow
    · exact hpending
    · exact hgo

/-- The setup packet has the first eight bytes sent. -/
theorem usbHandleCtlEpSetup_sends (s : CtrlEp) (h : Asks d hidKeyboard (requestOf buf) bytes) :
    let asked := bytes.take (requestOf buf).wLength.toNat
    (usbHandleCtlEpSetup d hidKeyboard buf s).2 = packet asked ∧
      Sending d (asked.drop 8) (usbHandleCtlEpSetup d hidKeyboard buf s).1 := by
  obtain ⟨hreq, ⟨htype, hdesc⟩ | ⟨htype, rfl, hintf, hdesc⟩⟩ := h
  · obtain ⟨s', hprep, hchosen⟩ := usbPrepareDescData_chosen
      (s := { s with controlRequest := requestOf buf, gStall := false }) hdesc
    unfold usbHandleCtlEpSetup usbHandleRequest
    dsimp only
    rw [if_pos htype, if_pos hreq, if_pos rfl, hprep]
    exact hchosen.send rfl hreq (.inl htype)
  · obtain ⟨s', hprep, hchosen⟩ := usbHandleStdIntfReq_chosen
      (s := { s with controlRequest := requestOf buf, gStall := false }) hintf hdesc
    unfold usbHandleCtlEpSetup usbHandleRequest
    dsimp only
    rw [if_neg (by rw [htype]; decide), if_pos htype, if_pos hreq, if_pos rfl, hprep]
    exact hchosen.send rfl hreq (.inr htype)

/-- An interrupt of the data stage has the next eight sent. -/
theorem Sending.data (h : Sending d bytes s) (hidKeyboard : Bool) (buf : Nat → Byte) :
    (usbHandleCtlEpData d hidKeyboard buf s).2 = packet bytes ∧
      Sending d (bytes.drop 8) (usbHandleCtlEpData d hidKeyboard buf s).1 := by
  have hnew : ({ s with gStall := false } : CtrlEp).Window d := h.window.congr rfl rfl
  obtain ⟨hbytes, hpending, hwindow⟩ := usbSendResponse_spec hnew
  have hsame : ({ s with gStall := false } : CtrlEp).pending d = bytes := h.pending
  rw [hsame] at hbytes hpending
  have hsend : usbHandleRequest d hidKeyboard .data buf { s with gStall := false } =
      usbSendResponse d { s with gStall := false } := by
    unfold usbHandleRequest
    dsimp only
    rcases h.recipient with htype | htype
    · rw [if_pos htype, if_pos h.request, if_neg (by decide)]
    · rw [if_neg (by rw [htype]; decide), if_pos htype, if_pos h.request, if_neg (by decide)]
  unfold usbHandleCtlEpData
  rw [hsend]
  constructor
  · show Reply.mk _ false = packet bytes
    rw [hbytes]
    rfl
  · exact ⟨h.request, h.recipient, hwindow, hpending, rfl⟩

theorem Sending.dataIrq (h : Sending d bytes s) (hidKeyboard : Bool) (buf : Nat → Byte) :
    (usbHandleIrq d hidKeyboard s (dataIrq buf)).2 = [packet bytes] ∧
      Sending d (bytes.drop 8) (usbHandleIrq d hidKeyboard s (Usb.dataIrq buf)).1 := by
  obtain ⟨hreply, hrest⟩ := h.data hidKeyboard buf
  constructor
  · rw [← hreply]
    rfl
  · have hstall := hrest.stall
    refine ⟨hrest.request, hrest.recipient, hrest.window, hrest.pending, ?_⟩
    show (if hidKeyboard = true then (usbHandleCtlEpData d hidKeyboard buf s).1.gStall else false) = false
    rw [hstall, ite_self]

theorem Sending.dataIrqs (h : Sending d bytes s) (hidKeyboard : Bool) (bufs : List (Nat → Byte)) :
    (Refine.run (usbHandleIrq d hidKeyboard) s (bufs.map Usb.dataIrq)).2 =
      ((List.range bufs.length).map fun i => [packet (bytes.drop (8 * i))]) ∧
    Sending d (bytes.drop (8 * bufs.length)) (Refine.run (usbHandleIrq d hidKeyboard) s (bufs.map Usb.dataIrq)).1 := by
  induction bufs generalizing s bytes with
  | nil => exact ⟨rfl, h⟩
  | cons buf bufs ih =>
    obtain ⟨hreply, hrest⟩ := h.dataIrq hidKeyboard buf
    obtain ⟨hreplies, hend⟩ := ih hrest
    rw [List.map_cons, Refine.run]
    dsimp only
    rw [hreply, hreplies]
    constructor
    · rw [List.length_cons, List.range_succ_eq_map, List.map_cons, List.map_map]
      simp [List.drop_drop, Nat.mul_add, Nat.add_comm]
    · simpa [List.drop_drop, Nat.mul_add, Nat.add_comm] using hend

theorem Sending.setupIrq (s : CtrlEp) (h : Asks d hidKeyboard (requestOf buf) bytes) :
    let asked := bytes.take (requestOf buf).wLength.toNat
    (usbHandleIrq d hidKeyboard s (setupIrq buf)).2 = [packet asked] ∧
      Sending d (asked.drop 8) (usbHandleIrq d hidKeyboard s (Usb.setupIrq buf)).1 := by
  obtain ⟨hreply, hrest⟩ := usbHandleCtlEpSetup_sends s h
  constructor
  · rw [← hreply]
    rfl
  · have hstall := hrest.stall
    refine ⟨hrest.request, hrest.recipient, hrest.window, hrest.pending, ?_⟩
    show (if hidKeyboard = true then (usbHandleCtlEpSetup d hidKeyboard buf s).1.gStall else false) = false
    rw [hstall, ite_self]

/-- The setup packet and the data stage: the `i`-th packet has the `i`-th eight bytes. -/
theorem Asks.packets (h : Asks d hidKeyboard (requestOf buf) bytes) (s : CtrlEp) (bufs : List (Nat → Byte)) :
    let asked := bytes.take (requestOf buf).wLength.toNat
    let r := Refine.run (usbHandleIrq d hidKeyboard) s (setupIrq buf :: bufs.map dataIrq)
    r.2 = ((List.range (bufs.length + 1)).map fun i => [packet (asked.drop (8 * i))]) ∧
      Sending d (asked.drop (8 * (bufs.length + 1))) r.1 := by
  obtain ⟨hfirst, hsend⟩ := Sending.setupIrq s h
  obtain ⟨hrest, hend⟩ := hsend.dataIrqs hidKeyboard bufs
  dsimp only [Refine.run]
  rw [hfirst, hrest]
  constructor
  · rw [List.range_succ_eq_map, List.map_cons, List.map_map]
    simp [List.drop_drop, Nat.mul_add, Nat.add_comm]
  · rw [List.drop_drop] at hend
    rw [Nat.mul_succ, Nat.add_comm]
    exact hend

/-- The packets of a transfer, put together. -/
theorem flatMap_packets (bytes : List Byte) (n : Nat) :
    ((List.range n).map fun i => [packet (bytes.drop (8 * i))]).flatten.flatMap Reply.bytes =
      (bytes.take (8 * n)).map some := by
  induction n with
  | zero => rfl
  | succ n ih =>
    rw [List.range_succ, List.map_append, List.flatten_append, List.flatMap_append, ih, Nat.mul_succ, List.take_add,
      List.map_append]
    simp [packet]

end Transfer

/-- Reading a descriptor, whatever happened on the endpoint before: every packet of the data stage is
acknowledged, the `i`-th has the `i`-th eight of the bytes that were asked for, and together they are
the descriptor as far as it was read. -/
theorem usb_getDescriptor {d : Descriptors} {hidKeyboard : Bool} {bytes : List Byte} {buf : Nat → Byte} (s : CtrlEp)
    (bufs : List (Nat → Byte)) (h : Asks d hidKeyboard (requestOf buf) bytes) :
    let asked := bytes.take (requestOf buf).wLength.toNat
    let n := bufs.length + 1
    let r := Refine.run (usbHandleIrq d hidKeyboard) s (setupIrq buf :: bufs.map dataIrq)
    r.2 = ((List.range n).map fun i => [packet (asked.drop (8 * i))]) ∧
      r.2.flatten.flatMap Reply.bytes = (asked.take (8 * n)).map some ∧ r.1.gStall = false := by
  obtain ⟨hpackets, hend⟩ := h.packets s bufs
  dsimp only
  rw [hpackets]
  exact ⟨rfl, flatMap_packets _ _, hend.stall⟩

/-- The host reads twelve bytes of the device descriptor. -/
def askDevice (i : Nat) : Byte := [0x80, 6, 0, 1, 0, 0, 12, 0].getD i 0

theorem usb_getDescriptor_device :
    (Refine.run (usbHandleIrq cdcDescriptors false) .initial [setupIrq askDevice, dataIrq fun _ => 0]).2.flatten.flatMap
      Reply.bytes = (deviceDesc.take 12).map some := by
  have hasks : Asks cdcDescriptors false (requestOf askDevice) deviceDesc := ⟨rfl, .inl ⟨rfl, rfl⟩⟩
  obtain ⟨-, hbytes, -⟩ := usb_getDescriptor .initial [fun _ => 0] hasks
  exact hbytes

end Rf4ce.Drv.Usb

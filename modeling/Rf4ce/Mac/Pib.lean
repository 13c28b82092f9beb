import Rf4ce.Crash.Bytes
import Rf4ce.Refine.Run

/-! The information base of `mac_pib.c`: one table of places and one-byte limits for all
attributes, written through two entry points. -/
namespace Rf4ce.Mac
open Crash Refine

/-- The fields of `mac_pib_t`. -/
inductive PibField where
  | ackWaitDuration | associationPermit | autoRequest | battLifeExt | battLifeExtPeriods
  | pBeaconPayload | beaconPayloadLength | beaconOrder | beaconTxTime | bsn
  | coordExtendedAddress | coordShortAddress | dsn | gtsPermit | maxCsmaBackoffs
  | minBe | panId | promiscuousMode | rxOnWhenIdle | shortAddress
  | superframeOrder | transactionPersistenceTime | associatedPanCoord | maxBe | maxFrameTotalWaitTime
  | maxFrameRetries | responseWaitTime | syncSymbolOffset | timeStampSupported | securityEnabled
  | phyTransmitPower | logicalChannel | extendedAddress | altBe | deviceBeaconOrder
deriving DecidableEq, Repr

/-- The members of `mac_pib_t` in order, with the bytes of `macPibDefaults`. An `addr_t` is an 8-byte
address with its mode. -/
def macPibMembers : List (PibField × List Byte) := [
  (.ackWaitDuration, [54]),
  (.associationPermit, [0]),
  (.autoRequest, [0]),
  (.battLifeExt, [0]),
  (.battLifeExtPeriods, [6]),
  (.pBeaconPayload, le32 0),
  (.beaconPayloadLength, [0]),
  (.beaconOrder, [15]),
  (.beaconTxTime, le32 0),
  (.bsn, [0]),
  (.coordExtendedAddress, [0, 0, 0, 0, 0, 0, 0, 0, 3]),
  (.coordShortAddress, le16 0xFFFF),
  (.dsn, [0]),
  (.gtsPermit, [0]),
  (.maxCsmaBackoffs, [4]),
  (.minBe, [5]),
  (.panId, le16 0xFFFF),
  (.promiscuousMode, [0]),
  (.rxOnWhenIdle, [1]),
  (.shortAddress, le16 0xFFFF),
  (.superframeOrder, [15]),
  (.transactionPersistenceTime, le16 0x01F4),
  (.associatedPanCoord, [0]),
  (.maxBe, [8]),
  (.maxFrameTotalWaitTime, le16 1220),
  (.maxFrameRetries, [3]),
  (.responseWaitTime, [32]),
  (.syncSymbolOffset, [0]),
  (.timeStampSupported, [1]),
  (.securityEnabled, [0]),
  (.phyTransmitPower, [0]),
  (.logicalChannel, [11]),
  (.extendedAddress, List.replicate 8 0xbb),
  (.altBe, [1]),
  (.deviceBeaconOrder, [15])]

/-- The offset of a field when the members follow each other from `n` on: structures are packed. -/
def offsetFrom (f : PibField) : List (PibField × List Byte) → Nat → Nat
  | [], n => n
  | (g, value) :: rest, n => if g = f then n else offsetFrom f rest (n + value.length)

def offsetOf (f : PibField) : Nat := offsetFrom f macPibMembers 0

/-- The bytes of `macPib`. -/
abbrev MacPib := Nat → Byte

def macPibDefaults : MacPib :=
  macPibMembers.foldl (fun pib m => storeBytes pib (offsetOf m.1) m.2) fun _ => 0

/-- `mac_pibTbl_t` -/
structure PibEntry where
  offset : Nat
  len : Nat
  min : Byte
  max : Byte
deriving DecidableEq, Repr

def macPibTbl : List PibEntry := [
  ⟨offsetOf .ackWaitDuration, 1, 54, 54⟩,
  ⟨offsetOf .associationPermit, 1, 0, 1⟩,
  ⟨offsetOf .autoRequest, 1, 0, 1⟩,
  ⟨offsetOf .battLifeExt, 1, 0, 1⟩,
  ⟨offsetOf .battLifeExtPeriods, 1, 6, 6⟩,
  ⟨offsetOf .pBeaconPayload, 4, 0, 0⟩,
  ⟨offsetOf .beaconPayloadLength, 1, 0, 52⟩,
  ⟨offsetOf .beaconOrder, 1, 0, 15⟩,
  ⟨offsetOf .beaconTxTime, 4, 1, 1⟩,
  ⟨offsetOf .bsn, 1, 0x00, 0xFF⟩,
  ⟨offsetOf .coordExtendedAddress, 8, 0, 0⟩,
  ⟨offsetOf .coordShortAddress, 2, 0, 0⟩,
  ⟨offsetOf .dsn, 1, 0x00, 0xFF⟩,
  ⟨offsetOf .gtsPermit, 1, 0, 1⟩,
  ⟨offsetOf .maxCsmaBackoffs, 1, 0, 254⟩,
  ⟨offsetOf .minBe, 1, 0, 8⟩,
  ⟨offsetOf .panId, 2, 0, 0⟩,
  ⟨offsetOf .promiscuousMode, 1, 0, 1⟩,
  ⟨offsetOf .rxOnWhenIdle, 1, 0, 1⟩,
  ⟨offsetOf .shortAddress, 2, 0, 0⟩,
  ⟨offsetOf .superframeOrder, 1, 0, 15⟩,
  ⟨offsetOf .transactionPersistenceTime, 2, 0, 0⟩,
  ⟨offsetOf .associatedPanCoord, 1, 0, 1⟩,
  ⟨offsetOf .maxBe, 1, 0, 8⟩,
  ⟨offsetOf .maxFrameTotalWaitTime, 2, 0x00, 0xFF⟩,
  ⟨offsetOf .maxFrameRetries, 1, 0, 7⟩,
  ⟨offsetOf .responseWaitTime, 1, 2, 64⟩,
  ⟨offsetOf .syncSymbolOffset, 1, 0, 0⟩,
  ⟨offsetOf .timeStampSupported, 1, 0, 1⟩,
  ⟨offsetOf .securityEnabled, 1, 0, 1⟩,
  ⟨offsetOf .phyTransmitPower, 1, 0, 0xFF⟩,
  ⟨offsetOf .logicalChannel, 1, 11, 28⟩,
  ⟨offsetOf .extendedAddress, 8, 0, 0⟩,
  ⟨offsetOf .altBe, 1, 0, 8⟩,
  ⟨offsetOf .deviceBeaconOrder, 1, 0, 15⟩,
  ⟨offsetOf .phyTransmitPower, 1, 0, 0⟩]

abbrev macPibInvalid : Nat := 36

/-! Attribute identifiers. -/

def macBeaconPayload : Byte := 0x45
def macBeaconTxTime : Byte := 0x48
def macPanId : Byte := 0x50
def macRxOnWhenIdle : Byte := 0x52
def macShortAddress : Byte := 0x53
def macMaxFrameTotalWaitTime : Byte := 0x58
def macPhyTransmitPower : Byte := 0xE0
def macLogicalChannel : Byte := 0xE1
def macExtendedAddress : Byte := 0xE2
def macPhyTransmitPowerSigned : Byte := 0xE5

abbrev macAttrSet1Start : Nat := 0x40
abbrev macAttrSet1End : Nat := 0x5D
abbrev macAttrSet1Offset : Nat := 0
abbrev macAttrSet2Start : Nat := 0xE0
abbrev macAttrSet2End : Nat := 0xE5
abbrev macAttrSet2Offset : Nat := macAttrSet1End - macAttrSet1Start + macAttrSet1Offset + 1

def macMaxFrameResponseMin : Nat := 143
def macMaxFrameResponseMax : Nat := 25776

def macPibIndex (pibAttribute : Byte) : Nat :=
  let a := pibAttribute.toNat
  if macAttrSet1Start ≤ a ∧ a ≤ macAttrSet1End then a - macAttrSet1Start + macAttrSet1Offset
  else if macAttrSet2Start ≤ a ∧ a ≤ macAttrSet2End then a - macAttrSet2Start + macAttrSet2Offset
  else macPibInvalid

inductive MacSts where
  | success | unsupportedAttribute | invalidParameter
deriving DecidableEq, Repr

inductive RfId where
  | channel | txPower | rxOnOff | macShortAddr | macExtAddr | macPanid
deriving DecidableEq, Repr

/-- What a call does besides writing `macPib`. -/
inductive PibAct where
  | rfSet (id : RfId) (value : List Byte)
  | copyPayload (dst : Nat) (payload : List Byte)
  | sendConfirm (pibAttribute : Byte) (status : MacSts)
deriving DecidableEq, Repr

/-- The copy of a beacon payload to where `pBeaconPayload` points. -/
def payloadCopy (pib : MacPib) (pValue : Nat → Byte) : PibAct :=
  .copyPayload (ofLe (bytes pib (offsetOf .pBeaconPayload) 4))
    (bytes pValue 0 (pib (offsetOf .beaconPayloadLength)).toNat)

/-- The checks of a value at `pValue` against the table. -/
def valueRefused (e : PibEntry) (pibAttribute : Byte) (pValue : Nat → Byte) : Bool :=
  if e.min ≠ 0 ∨ e.max ≠ 0 then
    if pibAttribute = macMaxFrameTotalWaitTime ∧
        (ofLe (bytes pValue 0 2) < macMaxFrameResponseMin ∨ ofLe (bytes pValue 0 2) > macMaxFrameResponseMax) then
      true
    else pValue 0 < e.min ∨ pValue 0 > e.max
  else false

/-- The switch on the attribute, after the value has been stored. -/
def applyAttribute (pib : MacPib) (pibAttribute : Byte) : MacPib × List PibAct :=
  if pibAttribute = macPanId then (pib, [.rfSet .macPanid (bytes pib (offsetOf .panId) 2)])
  else if pibAttribute = macShortAddress then (pib, [.rfSet .macShortAddr (bytes pib (offsetOf .shortAddress) 2)])
  else if pibAttribute = macRxOnWhenIdle then (pib, [.rfSet .rxOnOff (bytes pib (offsetOf .rxOnWhenIdle) 1)])
  else if pibAttribute = macLogicalChannel then (pib, [.rfSet .channel (bytes pib (offsetOf .logicalChannel) 1)])
  else if pibAttribute = macExtendedAddress then (pib, [.rfSet .macExtAddr (bytes pib (offsetOf .extendedAddress) 8)])
  else if pibAttribute = macPhyTransmitPower then
    let pib := storeBytes pib (offsetOf .phyTransmitPower) [-pib (offsetOf .phyTransmitPower)]
    (pib, [.rfSet .txPower (bytes pib (offsetOf .phyTransmitPower) 1)])
  else if pibAttribute = macPhyTransmitPowerSigned then
    (pib, [.rfSet .txPower (bytes pib (offsetOf .phyTransmitPower) 1)])
  else (pib, [])

structure PibResult where
  pib : MacPib
  status : MacSts
  acts : List PibAct

def macMlmeSetReq (pib : MacPib) (pibAttribute : Byte) (pValue : Nat → Byte) : PibResult :=
  if pibAttribute = macBeaconPayload then ⟨pib, .success, [payloadCopy pib pValue]⟩
  else
    match macPibTbl[macPibIndex pibAttribute]? with
    | none => ⟨pib, .unsupportedAttribute, []⟩
    | some e =>
      if valueRefused e pibAttribute pValue then ⟨pib, .invalidParameter, []⟩
      else
        let r := applyAttribute (storeBytes pib e.offset (bytes pValue 0 e.len)) pibAttribute
        ⟨r.1, .success, r.2⟩

/-- The value lies in the request itself. -/
def macMlmeSetReqWithCnf (pib : MacPib) (pibAttribute : Byte) (pValue : Nat → Byte) : PibResult :=
  if pibAttribute = macBeaconPayload then
    ⟨pib, .success, [payloadCopy pib pValue, .sendConfirm pibAttribute .success]⟩
  else
    match macPibTbl[macPibIndex pibAttribute]? with
    | none => ⟨pib, .unsupportedAttribute, []⟩
    | some e =>
      if valueRefused e pibAttribute pValue then ⟨pib, .invalidParameter, []⟩
      else
        let r := applyAttribute (storeBytes pib e.offset (bytes pValue 0 e.len)) pibAttribute
        ⟨r.1, .success, r.2 ++ [.sendConfirm pibAttribute .success]⟩

/-- A call of one of the two entry points. -/
structure PibCall where
  withCnf : Bool
  pibAttribute : Byte
  pValue : Nat → Byte

def pibCall (pib : MacPib) (k : PibCall) : PibResult :=
  if k.withCnf then macMlmeSetReqWithCnf pib k.pibAttribute k.pValue
  else macMlmeSetReq pib k.pibAttribute k.pValue

def pibStep (pib : MacPib) (k : PibCall) : MacPib × PibResult := ((pibCall pib k).pib, pibCall pib k)

/-! ### Integrity -/

def pibEntry (pibAttribute : Byte) : Option PibEntry := macPibTbl[macPibIndex pibAttribute]?

/-- The bytes of an attribute. -/
def PibEntry.value (e : PibEntry) (pib : MacPib) : List Byte := bytes pib e.offset e.len

def PibEntry.readOnly (e : PibEntry) : Prop := e.min = e.max ∧ e.max ≠ 0

/-- The range of an attribute that is checked and not read-only. -/
def checkedRange (pibAttribute : Byte) (e : PibEntry) : Option (Nat × Nat) :=
  if e.min = e.max then none
  else if pibAttribute = macMaxFrameTotalWaitTime then some (macMaxFrameResponseMin, macMaxFrameResponseMax)
  else some (e.min.toNat, e.max.toNat)

def InRange (pib : MacPib) : Prop :=
  ∀ b e r, pibEntry b = some e → checkedRange b e = some r → r.1 ≤ ofLe (e.value pib) ∧ ofLe (e.value pib) ≤ r.2

/-- The calls of the radio. -/
def radioSettings (acts : List PibAct) : List (RfId × List Byte) :=
  acts.filterMap fun
    | .rfSet id value => some (id, value)
    | _ => none

/-- What a call may do. -/
structure PibStepOk (pib : MacPib) (k : PibCall) : Prop where
  failed : (pibCall pib k).status ≠ .success → (pibCall pib k).pib = pib
  own : ∀ x, (pibCall pib k).pib x ≠ pib x →
    ∃ e, pibEntry k.pibAttribute = some e ∧ e.offset ≤ x ∧ x < e.offset + e.len
  payload : ∀ dst l, .copyPayload dst l ∈ (pibCall pib k).acts → dst = 0
  readOnly : ∀ b e, pibEntry b = some e → e.readOnly → e.value (pibCall pib k).pib = e.value pib
  ranged : InRange (pibCall pib k).pib
  alike : (macMlmeSetReq pib k.pibAttribute k.pValue).pib = (macMlmeSetReqWithCnf pib k.pibAttribute k.pValue).pib ∧
    radioSettings (macMlmeSetReq pib k.pibAttribute k.pValue).acts =
      radioSettings (macMlmeSetReqWithCnf pib k.pibAttribute k.pValue).acts

theorem macMlmeSetReq_alike (pib : MacPib) (a : Byte) (pValue : Nat → Byte) :
    (macMlmeSetReq pib a pValue).pib = (macMlmeSetReqWithCnf pib a pValue).pib ∧
    (macMlmeSetReq pib a pValue).status = (macMlmeSetReqWithCnf pib a pValue).status ∧
    radioSettings (macMlmeSetReq pib a pValue).acts = radioSettings (macMlmeSetReqWithCnf pib a pValue).acts := by
  unfold macMlmeSetReq macMlmeSetReqWithCnf
  by_cases hp : a = macBeaconPayload
  · simp [hp, radioSettings, payloadCopy]
  · cases he : macPibTbl[macPibIndex a]? with
    | none => simp [hp]
    | some e =>
      cases hr : valueRefused e a pValue with
      | true => simp [hp, hr]
      | false => simp [hp, hr, radioSettings]

/-- The attribute of a table index. -/
theorem toNat_of_index {a : Byte} {i : Nat} (h : macPibIndex a = i) (hi : i < macPibInvalid) :
    a.toNat = if i < 30 then 0x40 + i else 0xE0 + (i - 30) := by
  subst h
  have hset : macAttrSet1Start = 0x40 ∧ macAttrSet1End = 0x5D ∧ macAttrSet1Offset = 0 ∧ macAttrSet2Start = 0xE0 ∧
      macAttrSet2End = 0xE5 ∧ macAttrSet2Offset = 30 ∧ macPibInvalid = 36 := by decide
  unfold macPibIndex at hi ⊢
  dsimp only at hi ⊢
  by_cases h₁ : macAttrSet1Start ≤ a.toNat ∧ a.toNat ≤ macAttrSet1End
  · rw [if_pos h₁, if_pos (by omega)]
    omega
  · rw [if_neg h₁] at hi ⊢
    by_cases h₂ : macAttrSet2Start ≤ a.toNat ∧ a.toNat ≤ macAttrSet2End
    · rw [if_pos h₂, if_neg (by omega)]
      omega
    · rw [if_neg h₂] at hi
      omega

theorem eq_of_index {a b : Byte} {i : Nat} (ha : macPibIndex a = i) (hb : macPibIndex b = i) (hi : i < macPibInvalid) :
    a = b := BitVec.eq_of_toNat_eq ((toNat_of_index ha hi).trans (toNat_of_index hb hi).symm)

theorem pibEntry_eq {a : Byte} {e : PibEntry} (h : pibEntry a = some e) :
    ∃ i : Fin 36, macPibIndex a = i ∧ macPibTbl.get i = e := by
  obtain ⟨hi, he⟩ := List.getElem?_eq_some_iff.mp h
  exact ⟨⟨macPibIndex a, hi⟩, rfl, he⟩

/-- Two attributes have no byte in common, except for the two views of the transmit power. -/
theorem macPibTbl_apart : ∀ i j : Fin 36, i = j ∨
    (macPibTbl.get i).offset + (macPibTbl.get i).len ≤ (macPibTbl.get j).offset ∨
    (macPibTbl.get j).offset + (macPibTbl.get j).len ≤ (macPibTbl.get i).offset ∨
    ((i = 30 ∨ i = 35) ∧ (j = 30 ∨ j = 35)) := by
  decide +kernel

/-- The power attributes are the first and the last of the second set. -/
theorem power_of_index {a : Byte} {i : Fin 36} (h : macPibIndex a = i) (hi : i = 30 ∨ i = 35) :
    a = macPhyTransmitPower ∨ a = macPhyTransmitPowerSigned := by
  rcases hi with rfl | rfl
  · exact .inl (eq_of_index h (by decide) (by decide))
  · exact .inr (eq_of_index h (by decide) (by decide))

theorem pibEntry_apart {a b : Byte} {e e' : PibEntry} (ha : pibEntry a = some e) (hb : pibEntry b = some e') :
    a = b ∨ e.offset + e.len ≤ e'.offset ∨ e'.offset + e'.len ≤ e.offset ∨
      ((a = macPhyTransmitPower ∨ a = macPhyTransmitPowerSigned) ∧
        (b = macPhyTransmitPower ∨ b = macPhyTransmitPowerSigned)) := by
  obtain ⟨i, hi, rfl⟩ := pibEntry_eq ha
  obtain ⟨j, hj, rfl⟩ := pibEntry_eq hb
  rcases macPibTbl_apart i j with rfl | h | h | ⟨hi', hj'⟩
  · exact .inl (eq_of_index hi hj i.isLt)
  · exact .inr (.inl h)
  · exact .inr (.inr (.inl h))
  · exact .inr (.inr (.inr ⟨power_of_index hi hi', power_of_index hj hj'⟩))

/-- The switch changes at most the transmit power. -/
theorem applyAttribute_pib (pib : MacPib) (a : Byte) :
    (applyAttribute pib a).1 = if a = macPhyTransmitPower then
      storeBytes pib (offsetOf .phyTransmitPower) [-pib (offsetOf .phyTransmitPower)] else pib := by
  unfold applyAttribute
  by_cases hpow : a = macPhyTransmitPower
  · have hne : a ≠ macPanId ∧ a ≠ macShortAddress ∧ a ≠ macRxOnWhenIdle ∧ a ≠ macLogicalChannel ∧
        a ≠ macExtendedAddress := by
      rw [hpow]
      decide
    simp only [hne.1, hne.2.1, hne.2.2.1, hne.2.2.2.1, hne.2.2.2.2, if_false]
    rw [if_pos hpow, if_pos hpow]
  · simp only [hpow, if_false]
    split_ifs <;> rfl

theorem pibEntry_power : pibEntry macPhyTransmitPower = some ⟨offsetOf .phyTransmitPower, 1, 0, 0xFF⟩ := rfl

theorem pibCall_alike (pib : MacPib) (k : PibCall) :
    (pibCall pib k).pib = (macMlmeSetReq pib k.pibAttribute k.pValue).pib ∧
    (pibCall pib k).status = (macMlmeSetReq pib k.pibAttribute k.pValue).status := by
  obtain ⟨hpib, hsts, -⟩ := macMlmeSetReq_alike pib k.pibAttribute k.pValue
  unfold pibCall
  split_ifs
  · exact ⟨hpib.symm, hsts.symm⟩
  · exact ⟨rfl, rfl⟩

/-- A call leaves the base as it is, or stores its value. -/
theorem pibCall_cases (pib : MacPib) (k : PibCall) :
    ((pibCall pib k).pib = pib ∧ (k.pibAttribute = macBeaconPayload ∨
      ∀ e, pibEntry k.pibAttribute = some e → valueRefused e k.pibAttribute k.pValue = true)) ∨
    ∃ e, pibEntry k.pibAttribute = some e ∧ k.pibAttribute ≠ macBeaconPayload ∧
      valueRefused e k.pibAttribute k.pValue = false ∧ (pibCall pib k).status = .success ∧
      (pibCall pib k).pib =
        (applyAttribute (storeBytes pib e.offset (bytes k.pValue 0 e.len)) k.pibAttribute).1 := by
  rw [(pibCall_alike pib k).1, (pibCall_alike pib k).2]
  unfold macMlmeSetReq pibEntry
  by_cases hp : k.pibAttribute = macBeaconPayload
  · simp [hp]
  · cases he : macPibTbl[macPibIndex k.pibAttribute]? with
    | none => simp [hp]
    | some e =>
      cases hr : valueRefused e k.pibAttribute k.pValue with
      | true => simp [hp, hr]
      | false => simp [hp, hr]

/-- A failed call changes nothing. -/
theorem pibCall_failed {pib : MacPib} {k : PibCall} (h : (pibCall pib k).status ≠ .success) :
    (pibCall pib k).pib = pib := by
  rcases pibCall_cases pib k with ⟨hsame, -⟩ | ⟨e, -, -, -, hsts, -⟩
  · exact hsame
  · exact absurd hsts h

/-- A call changes only bytes of its own attribute. -/
theorem pibCall_own {pib : MacPib} {k : PibCall} {x : Nat} (h : (pibCall pib k).pib x ≠ pib x) :
    ∃ e, pibEntry k.pibAttribute = some e ∧ e.offset ≤ x ∧ x < e.offset + e.len := by
  rcases pibCall_cases pib k with ⟨hsame, -⟩ | ⟨e, he, -, -, -, hpib⟩
  · rw [hsame] at h
    exact absurd rfl h
  · refine ⟨e, he, ?_⟩
    by_contra hout
    apply h
    have hstore : storeBytes pib e.offset (bytes k.pValue 0 e.len) x = pib x := by
      apply storeBytes_outside
      rw [bytes_length]
      omega
    rw [hpib, applyAttribute_pib]
    split_ifs with hpow
    · rw [hpow, pibEntry_power] at he
      have hplace : e.offset = offsetOf .phyTransmitPower ∧ e.len = 1 := by
        rw [← Option.some.inj he]
        simp only [and_self]
      rw [storeBytes_outside, hstore]
      rw [List.length_singleton]
      omega
    · exact hstore

/-- What a call does to the value of an attribute. -/
theorem pibCall_value (pib : MacPib) (k : PibCall) {b : Byte} {e : PibEntry} (hb : pibEntry b = some e) :
    e.value (pibCall pib k).pib = e.value pib ∨
    (b = macPhyTransmitPower ∨ b = macPhyTransmitPowerSigned) ∨
    (b = k.pibAttribute ∧ b ≠ macBeaconPayload ∧ valueRefused e b k.pValue = false ∧
      e.value (pibCall pib k).pib = bytes k.pValue 0 e.len) := by
  by_cases hpow : b = macPhyTransmitPower ∨ b = macPhyTransmitPowerSigned
  · exact .inr (.inl hpow)
  by_cases hba : b = k.pibAttribute
  · subst hba
    rcases pibCall_cases pib k with ⟨hsame, -⟩ | ⟨e', he', hp, hr, -, hpib⟩
    · rw [hsame]
      exact .inl rfl
    · obtain rfl : e = e' := Option.some.inj (hb.symm.trans he')
      refine .inr (.inr ⟨rfl, hp, hr, ?_⟩)
      have hstore := bytes_storeBytes pib e.offset (bytes k.pValue 0 e.len)
      rw [bytes_length] at hstore
      rw [not_or] at hpow
      rw [hpib, applyAttribute_pib, if_neg hpow.1]
      exact hstore
  · refine .inl (bytes_congr fun x h₁ h₂ => ?_)
    by_contra hne
    obtain ⟨e', he', h₃, h₄⟩ := pibCall_own hne
    rcases pibEntry_apart he' hb with h | h | h | ⟨-, h⟩
    · exact hba h.symm
    · omega
    · omega
    · exact hpow h

/-! ### The invariant -/

structure PibInv (pib : MacPib) : Prop where
  readOnly : ∀ b e, pibEntry b = some e → e.readOnly → e.value pib = e.value macPibDefaults
  payload : bytes pib (offsetOf .pBeaconPayload) 4 = le32 0
  ranged : InRange pib

/-- What the checks leave of a value. -/
theorem valueRefused_false {e : PibEntry} {a : Byte} {v : Nat → Byte} (h : valueRefused e a v = false)
    (hc : e.min ≠ 0 ∨ e.max ≠ 0) :
    e.min.toNat ≤ (v 0).toNat ∧ (v 0).toNat ≤ e.max.toNat ∧ (a = macMaxFrameTotalWaitTime →
      macMaxFrameResponseMin ≤ ofLe (bytes v 0 2) ∧ ofLe (bytes v 0 2) ≤ macMaxFrameResponseMax) := by
  unfold valueRefused at h
  rw [if_pos hc] at h
  split_ifs at h with hwait
  rw [decide_eq_false_iff_not, not_or, BitVec.not_lt, gt_iff_lt, BitVec.not_lt] at h
  refine ⟨h.1, h.2, fun ha => ?_⟩
  rw [not_and, not_or] at hwait
  have hout := hwait ha
  omega

/-- A read-only attribute is the beacon time, or one byte that holds its limit. -/
theorem macPibTbl_readOnly : ∀ i : Fin 36, (macPibTbl.get i).min = (macPibTbl.get i).max → (macPibTbl.get i).max ≠ 0 →
    i = 8 ∨ ((macPibTbl.get i).len = 1 ∧ bytes macPibDefaults (macPibTbl.get i).offset 1 = [(macPibTbl.get i).min]) := by
  decide +kernel

/-- A range is checked on its whole value: only the wait time is wider than a byte. -/
theorem macPibTbl_ranged : ∀ i : Fin 36, (macPibTbl.get i).min ≠ (macPibTbl.get i).max →
    (i = 24 ∧ (macPibTbl.get i).len = 2) ∨ (i ≠ 24 ∧ (macPibTbl.get i).len = 1) := by
  decide +kernel

theorem macPibTbl_defaults : ∀ i : Fin 36, i ≠ 24 → (macPibTbl.get i).min ≠ (macPibTbl.get i).max →
    (macPibTbl.get i).min.toNat ≤ ofLe (bytes macPibDefaults (macPibTbl.get i).offset 1) ∧
      ofLe (bytes macPibDefaults (macPibTbl.get i).offset 1) ≤ (macPibTbl.get i).max.toNat := by
  decide +kernel

theorem ofLe_byte (f : Nat → Byte) (a : Nat) : ofLe (bytes f a 1) = (f a).toNat := by
  simp [bytes, ofLe]

theorem wait_of_index {b : Byte} {i : Fin 36} (h : macPibIndex b = i) : b = macMaxFrameTotalWaitTime ↔ i = 24 := by
  constructor
  · rintro rfl
    exact Fin.ext h.symm
  · rintro rfl
    exact eq_of_index h (by decide) (by decide)

theorem checkedRange_eq_some {b : Byte} {e : PibEntry} {r : Nat × Nat} (h : checkedRange b e = some r) :
    e.min ≠ e.max ∧ ((b = macMaxFrameTotalWaitTime ∧ r = (macMaxFrameResponseMin, macMaxFrameResponseMax)) ∨
      (b ≠ macMaxFrameTotalWaitTime ∧ r = (e.min.toNat, e.max.toNat))) := by
  unfold checkedRange at h
  split_ifs at h with hne hwait
  · exact ⟨hne, .inl ⟨hwait, (Option.some.inj h).symm⟩⟩
  · exact ⟨hne, .inr ⟨hwait, (Option.some.inj h).symm⟩⟩

theorem macPibDefaults_inv : PibInv macPibDefaults := by
  constructor
  · exact fun _ _ _ _ => rfl
  · decide +kernel
  · intro b e r hb hr
    obtain ⟨i, hi, rfl⟩ := pibEntry_eq hb
    obtain ⟨hne, ⟨hwait, rfl⟩ | ⟨hwait, rfl⟩⟩ := checkedRange_eq_some hr
    · obtain rfl := (wait_of_index hi).mp hwait
      decide +kernel
    · have hi24 : i ≠ 24 := fun h => hwait ((wait_of_index hi).mpr h)
      obtain ⟨h, -⟩ | ⟨-, hlen⟩ := macPibTbl_ranged i hne
      · exact absurd h hi24
      · unfold PibEntry.value
        rw [hlen]
        exact macPibTbl_defaults i hi24 hne

theorem pibEntry_powerSigned : pibEntry macPhyTransmitPowerSigned = some ⟨offsetOf .phyTransmitPower, 1, 0, 0⟩ := rfl

theorem power_not_readOnly {b : Byte} {e : PibEntry} (hb : pibEntry b = some e)
    (hpow : b = macPhyTransmitPower ∨ b = macPhyTransmitPowerSigned) : ¬e.readOnly := by
  unfold PibEntry.readOnly
  rcases hpow with rfl | rfl
  · rw [← Option.some.inj (pibEntry_power.symm.trans hb)]
    simp
  · rw [← Option.some.inj (pibEntry_powerSigned.symm.trans hb)]
    simp

/-- Either view of the transmit power takes any byte. -/
theorem power_inRange {b : Byte} {e : PibEntry} {r : Nat × Nat} (hb : pibEntry b = some e)
    (hpow : b = macPhyTransmitPower ∨ b = macPhyTransmitPowerSigned) (hr : checkedRange b e = some r) (pib : MacPib) :
    r.1 ≤ ofLe (e.value pib) ∧ ofLe (e.value pib) ≤ r.2 := by
  obtain ⟨hne, hr⟩ := checkedRange_eq_some hr
  unfold PibEntry.value
  rcases hpow with rfl | rfl
  · obtain ⟨hwait, -⟩ | ⟨-, rfl⟩ := hr
    · exact absurd hwait (by decide)
    · rw [← Option.some.inj (pibEntry_power.symm.trans hb), ofLe_byte]
      have hlt := (pib (offsetOf .phyTransmitPower)).isLt
      exact ⟨Nat.zero_le _, Nat.le_of_lt_succ hlt⟩
  · rw [← Option.some.inj (pibEntry_powerSigned.symm.trans hb)] at hne
    exact absurd rfl hne

/-- The call the table lets through although the attribute is read-only. -/
def BeaconTimeCall (k : PibCall) : Prop := k.pibAttribute = macBeaconTxTime ∧ k.pValue 0 = 1

theorem pibCall_readOnly {pib : MacPib} {k : PibCall} (hinv : PibInv pib) (hk : ¬BeaconTimeCall k) {b : Byte}
    {e : PibEntry} (hb : pibEntry b = some e) (hro : e.readOnly) :
    e.value (pibCall pib k).pib = e.value pib := by
  rcases pibCall_value pib k hb with hsame | hpow | ⟨rfl, -, hrefused, hval⟩
  · exact hsame
  · exact absurd hro (power_not_readOnly hb hpow)
  · rw [hinv.readOnly _ e hb hro, hval]
    have hpass := valueRefused_false hrefused (.inr hro.2)
    rw [hro.1] at hpass
    have hv : k.pValue 0 = e.max := BitVec.eq_of_toNat_eq (Nat.le_antisymm hpass.2.1 hpass.1)
    obtain ⟨i, hi, rfl⟩ := pibEntry_eq hb
    rcases macPibTbl_readOnly i hro.1 hro.2 with rfl | ⟨hlen, hdef⟩
    · exact absurd ⟨eq_of_index hi (by decide) (by decide), hv⟩ hk
    · unfold PibEntry.value
      rw [hlen, hdef, hro.1, ← hv]
      rfl

theorem pibCall_inRange {pib : MacPib} {k : PibCall} (hinv : PibInv pib) : InRange (pibCall pib k).pib := by
  intro b e r hb hr
  rcases pibCall_value pib k hb with hsame | hpow | ⟨rfl, -, hrefused, hval⟩
  · rw [hsame]
    exact hinv.ranged b e r hb hr
  · exact power_inRange hb hpow hr _
  · rw [hval]
    obtain ⟨hne, hr⟩ := checkedRange_eq_some hr
    have hc : e.min ≠ 0 ∨ e.max ≠ 0 := by
      by_contra hnone
      rw [not_or, not_not, not_not] at hnone
      exact hne (hnone.1.trans hnone.2.symm)
    obtain ⟨hmin, hmax, hwait⟩ := valueRefused_false hrefused hc
    obtain ⟨i, hi, rfl⟩ := pibEntry_eq hb
    obtain ⟨ha, rfl⟩ | ⟨ha, rfl⟩ := hr
    · obtain ⟨-, hlen⟩ | ⟨h24, -⟩ := macPibTbl_ranged i hne
      · rw [hlen]
        exact hwait ha
      · exact absurd ((wait_of_index hi).mp ha) h24
    · obtain ⟨h24, -⟩ | ⟨-, hlen⟩ := macPibTbl_ranged i hne
      · exact absurd ((wait_of_index hi).mpr h24) ha
      · rw [hlen, ofLe_byte]
        exact ⟨hmin, hmax⟩

theorem pibEntry_payload : pibEntry macBeaconPayload = some ⟨offsetOf .pBeaconPayload, 4, 0, 0⟩ := rfl

/-- No call sets the pointer to the beacon payload. -/
theorem pibCall_payload (pib : MacPib) (k : PibCall) :
    bytes (pibCall pib k).pib (offsetOf .pBeaconPayload) 4 = bytes pib (offsetOf .pBeaconPayload) 4 := by
  obtain h | h | ⟨-, h, -⟩ := pibCall_value pib k pibEntry_payload
  · exact h
  · exact absurd h (by decide)
  · exact absurd rfl h

theorem pibCall_inv {pib : MacPib} {k : PibCall} (hinv : PibInv pib) (hk : ¬BeaconTimeCall k) :
    PibInv (pibCall pib k).pib := by
  constructor
  · intro b e hb hro
    rw [pibCall_readOnly hinv hk hb hro]
    exact hinv.readOnly b e hb hro
  · rw [pibCall_payload]
    exact hinv.payload
  · exact pibCall_inRange hinv

theorem applyAttribute_acts (pib : MacPib) (a : Byte) :
    ∀ act ∈ (applyAttribute pib a).2, ∃ id value, act = .rfSet id value := by
  unfold applyAttribute
  split_ifs <;> simp

/-- The payload goes to where the pointer points. -/
theorem mem_acts_copyPayload {pib : MacPib} {k : PibCall} {dst : Nat} {l : List Byte}
    (h : .copyPayload dst l ∈ (pibCall pib k).acts) : dst = ofLe (bytes pib (offsetOf .pBeaconPayload) 4) := by
  have hno : ∀ pib a, .copyPayload dst l ∉ (applyAttribute pib a).2 := by
    intro pib a hmem
    obtain ⟨id, value, heq⟩ := applyAttribute_acts pib a _ hmem
    cases heq
  unfold pibCall macMlmeSetReq macMlmeSetReqWithCnf payloadCopy at h
  by_cases hp : k.pibAttribute = macBeaconPayload
  · simp only [hp, if_true] at h
    split_ifs at h
    · simp at h
      exact h.1
    · simp at h
      exact h.1
  · simp only [hp, if_false] at h
    cases he : macPibTbl[macPibIndex k.pibAttribute]? with
    | none => simp [he] at h
    | some e =>
      cases hr : valueRefused e k.pibAttribute k.pValue with
      | true => simp [he, hr] at h
      | false =>
        simp only [he, hr, Bool.false_eq_true, if_false] at h
        split_ifs at h
        · simp [hno] at h
        · exact absurd h (hno _ _)

theorem pibCall_ok {pib : MacPib} {k : PibCall} (hinv : PibInv pib) (hk : ¬BeaconTimeCall k) : PibStepOk pib k := by
  constructor
  · exact pibCall_failed
  · exact fun _ => pibCall_own
  · intro dst l h
    rw [mem_acts_copyPayload h, hinv.payload]
    rfl
  · exact fun _ _ => pibCall_readOnly hinv hk
  · exact pibCall_inRange hinv
  · obtain ⟨hpib, -, hradio⟩ := macMlmeSetReq_alike pib k.pibAttribute k.pValue
    exact ⟨hpib, hradio⟩

theorem pibEntry_beaconTxTime : pibEntry macBeaconTxTime = some ⟨offsetOf .beaconTxTime, 4, 1, 1⟩ := rfl

/-- A beacon time with 1 in its low byte is stored, and the stored one was 0. -/
theorem not_ok_of_beaconTime {pib : MacPib} {k : PibCall} (hinv : PibInv pib) (hk : BeaconTimeCall k) :
    ¬PibStepOk pib k := by
  obtain ⟨withCnf, a, v⟩ := k
  obtain ⟨rfl, hv⟩ : a = macBeaconTxTime ∧ v 0 = 1 := hk
  intro hok
  have hpayload : macBeaconTxTime ≠ macBeaconPayload := by decide
  have hpower : macBeaconTxTime ≠ macPhyTransmitPower := by decide
  have hro : PibEntry.readOnly ⟨offsetOf .beaconTxTime, 4, 1, 1⟩ := ⟨rfl, by decide⟩
  have hkept := hok.readOnly _ _ pibEntry_beaconTxTime hro
  rw [hinv.readOnly _ _ pibEntry_beaconTxTime hro] at hkept
  rcases pibCall_cases pib ⟨withCnf, macBeaconTxTime, v⟩ with ⟨-, hp | hrefused⟩ | ⟨e, he, -, -, -, hpib⟩
  · exact absurd hp hpayload
  · have htrue := hrefused _ pibEntry_beaconTxTime
    have hfalse : valueRefused ⟨offsetOf .beaconTxTime, 4, 1, 1⟩ macBeaconTxTime v = false := by
      simp [valueRefused, hv, macBeaconTxTime, macMaxFrameTotalWaitTime]
    rw [hfalse] at htrue
    cases htrue
  · rw [← Option.some.inj (pibEntry_beaconTxTime.symm.trans he)] at hpib
    have hstore := bytes_storeBytes pib (offsetOf .beaconTxTime) (bytes v 0 4)
    rw [bytes_length] at hstore
    rw [hpib, applyAttribute_pib, if_neg hpower] at hkept
    have hzero : bytes v 0 4 = bytes macPibDefaults (offsetOf .beaconTxTime) 4 := hstore.symm.trans hkept
    have hbyte : v 0 = 0 := by
      have hdef : bytes macPibDefaults (offsetOf .beaconTxTime) 4 = le32 0 := by decide +kernel
      rw [hdef] at hzero
      exact (List.cons.inj hzero).1
    rw [hv] at hbyte
    cases hbyte

/-- The information base keeps its integrity in exactly the runs in which no call sets the beacon
time to a value whose low byte is 1. -/
theorem macPib_intact_iff (ks : List PibCall) :
    Legal pibStep PibStepOk macPibDefaults ks ↔
      ∀ k ∈ ks, ¬(k.pibAttribute = macBeaconTxTime ∧ k.pValue 0 = 1) := by
  have hiff : ∀ pib k, PibInv pib → (PibStepOk pib k ↔ ¬BeaconTimeCall k) := fun pib k hinv =>
    ⟨fun hok hk => not_ok_of_beaconTime hinv hk hok, pibCall_ok hinv⟩
  have hall : Legal pibStep (fun _ _ => True) macPibDefaults ks := legal_forall.mpr fun _ _ => trivial
  rw [legal_iff (fun pib k hinv _ => hiff pib k hinv)
    (fun pib k hinv _ hok => pibCall_inv hinv ((hiff pib k hinv).mp hok)) macPibDefaults_inv hall]
  exact legal_forall

/-- Writing 1 to the read-only beacon time succeeds and changes it from 0. -/
theorem beaconTxTime_written :
    ¬Legal pibStep PibStepOk macPibDefaults [⟨false, macBeaconTxTime, fun i => if i = 0 then 1 else 0⟩] :=
  fun h => not_ok_of_beaconTime macPibDefaults_inv ⟨rfl, rfl⟩ h.1

end Rf4ce.Mac

import Rf4ce.Nv.Header

/-! The item log of one sector: its entries, and how they lie in the flash. -/
namespace Rf4ce.Nv
open Crash Drv Common

/-- How far the life of an item has come. -/
inductive Stage where
  /-- index entry written, header missing -/
  | opened
  /-- header written, state byte still `ITEM_FIELD_OPERATION` -/
  | closed
  | valid
  | dropped (hdr : Bool)
deriving DecidableEq, Repr

/-- Whether the header of the item is there. -/
def Stage.hasHdr : Stage → Bool
  | .opened => false
  | .closed => true
  | .valid => true
  | .dropped hdr => hdr

structure Entry where
  itemId : Byte
  single : Bool
  stage : Stage
  resv : List Byte
  payload : List Byte
deriving DecidableEq, Repr

namespace Entry

def state (e : Entry) : Byte :=
  match e.stage with
  | .opened | .closed => itemFieldOperation
  | .valid => if e.single then itemFieldValidSingle else itemFieldValid
  | .dropped _ => itemFieldInvalid

def size (e : Entry) : Nat := itemTotalLen e.payload.length

/-- The flash the item takes up to the start of the next one. -/
def slotLen (e : Entry) : Nat := roundUp4 e.size

def idx (e : Entry) (off : Nat) : NvInfoIdx := ⟨off, e.size, e.itemId, e.state, e.resv⟩

def payloadHdr (e : Entry) : ItemHdr := ⟨0, e.payload.length, e.itemId, itemHdrFieldValidCheckcrc⟩

/-- CRC of the payload and the header fields behind the checksum. -/
def payloadCrc (e : Entry) : BitVec 32 := xcrc32 e.payloadHdr.tail (xcrc32 e.payload 0xffffffff)

/-- The index record that the item header vouches for. -/
def validIdx (e : Entry) (off : Nat) : NvInfoIdx :=
  { e.idx off with usedState := if e.single then itemFieldValidSingle else itemFieldValid }

def hdr (c : NvCfg) (e : Entry) (off : Nat) : ItemHdr :=
  { e.payloadHdr with
    checkSum := (crcIdx c (e.validIdx off) &&& 0xffff#32) <<< 16 ||| (e.payloadCrc &&& 0xffff#32) }

theorem hdr_checkSum (c : NvCfg) (e : Entry) (off : Nat) : (e.hdr c off).checkSum =
    (crcIdx c (e.validIdx off) &&& 0xffff#32) <<< 16 ||| (e.payloadCrc &&& 0xffff#32) := rfl

def withStage (e : Entry) (st : Stage) : Entry := { e with stage := st }

def drop (e : Entry) : Entry := e.withStage (.dropped e.stage.hasHdr)

@[simp] theorem withStage_size (e : Entry) (st : Stage) : (e.withStage st).size = e.size := rfl

@[simp] theorem withStage_slotLen (e : Entry) (st : Stage) : (e.withStage st).slotLen = e.slotLen := rfl

@[simp] theorem withStage_stage (e : Entry) (st : Stage) : (e.withStage st).stage = st := rfl

@[simp] theorem drop_slotLen (e : Entry) : e.drop.slotLen = e.slotLen := rfl

@[simp] theorem drop_hasHdr (e : Entry) : e.drop.stage.hasHdr = e.stage.hasHdr := rfl

theorem size_eq (e : Entry) : e.size = e.payload.length + 8 := rfl

theorem size_le_slotLen (e : Entry) : e.size ≤ e.slotLen ∧ e.slotLen < e.size + 4 := by
  unfold slotLen roundUp4
  omega

theorem validIdx_of_valid {e : Entry} (h : e.stage = .valid) (off : Nat) :
    e.validIdx off = e.idx off := by
  simp [validIdx, idx, state, h]

theorem state_validFlag (e : Entry) : itemValidFlagCheck e.state = decide (e.stage = .valid) := by
  unfold state
  generalize e.single = single
  cases e.stage <;> cases single <;> rfl

theorem state_flag (e : Entry) : itemFlagCheck e.state = true := by
  unfold state
  generalize e.single = single
  cases e.stage <;> cases single <;> rfl

end Entry

section Layout
variable (c : NvCfg) (id s : Nat)

/-- Where the item behind the entries `es` starts. -/
def itemOff (es : List Entry) : Nat := moduleContextStart c id s + (es.map Entry.slotLen).sum

@[simp] theorem itemOff_nil : itemOff c id s [] = moduleContextStart c id s := rfl

@[simp] theorem itemOff_append (es es' : List Entry) :
    itemOff c id s (es ++ es') = itemOff c id s es + (es'.map Entry.slotLen).sum := by
  simp [itemOff, Nat.add_assoc]

theorem itemOff_le_append (es es' : List Entry) : itemOff c id s es ≤ itemOff c id s (es ++ es') := by
  rw [itemOff_append]
  omega

theorem contextStart_le_itemOff (es : List Entry) : moduleContextStart c id s ≤ itemOff c id s es := by
  unfold itemOff
  omega

theorem itemOff_mod (es : List Entry) : itemOff c id s es % 4 = 0 := by
  have hsum : (es.map Entry.slotLen).sum % 4 = 0 := by
    induction es with
    | nil => rfl
    | cons e es ih =>
      simp only [List.map_cons, List.sum_cons, Entry.slotLen, roundUp4]
      omega
  have hstart := moduleSectStart_mod c id s
  unfold itemOff moduleContextStart
  rcases moduleInfoSize_cases id with ⟨h, -⟩ | ⟨h, -⟩ <;> rw [h] <;> omega

/-- The next item starts at the next multiple of 4. -/
theorem roundUp4_itemOff (es : List Entry) (e : Entry) :
    roundUp4 (itemOff c id s es + e.size) = itemOff c id s es + e.slotLen := by
  have hmod := itemOff_mod c id s es
  unfold Entry.slotLen roundUp4
  omega

theorem alignUp4_itemOff {es : List Entry} {e : Entry} (h : itemOff c id s es + e.size ≤ 0x100000) :
    alignUp4 (itemOff c id s es + e.size) = itemOff c id s es + e.slotLen := by
  rw [alignUp4_eq (by omega), roundUp4_itemOff]

variable {c id s} in
theorem itemOff_take_succ {es : List Entry} {i : Nat} (h : i < es.length) :
    itemOff c id s (es.take (i + 1)) = itemOff c id s (es.take i) + es[i].slotLen := by
  rw [List.take_succ_eq_append_getElem h, itemOff_append]
  simp

variable {c id s} in
/-- Every item of the log ends before the log does. -/
theorem itemOff_take_le {es : List Entry} {i : Nat} (h : i < es.length) :
    itemOff c id s (es.take i) + es[i].slotLen ≤ itemOff c id s es := by
  rw [← itemOff_take_succ h]
  calc itemOff c id s (es.take (i + 1))
      ≤ itemOff c id s (es.take (i + 1) ++ es.drop (i + 1)) := itemOff_le_append ..
    _ = itemOff c id s es := by rw [List.take_append_drop]

theorem itemOff_congr {es es' : List Entry} (h : es.map Entry.slotLen = es'.map Entry.slotLen) :
    itemOff c id s es = itemOff c id s es' := by
  unfold itemOff
  rw [h]

end Layout

/-- The entry `e` as it lies in the flash: its index record at `a`, its item at `off`. -/
structure EntryRep (c : NvCfg) (f : Flash) (a off : Nat) (e : Entry) : Prop where
  index : bytes f a (sizeofNvInfoIdx c) = (e.idx off).encode
  item : e.stage.hasHdr = true →
    bytes f off e.size = (e.hdr c off).encode ++ e.payload
  noHdr : e.stage.hasHdr = false → f (off + 7) = 0xff

/-- An index record whose fields, the offset and the state perhaps apart, are erased. -/
def idleIdx (c : NvCfg) (off : Nat) (st : Byte) : NvInfoIdx :=
  ⟨off, 0xffff, 0xff, st, List.replicate (sizeofNvInfoIdx c - 8) 0xff⟩

/-- A free index slot. The offset `off` may be there already, when the power failed in the
middle of an index write; with `marked` the slot may have been deleted while it was free. -/
def IdleSlot (c : NvCfg) (f : Flash) (a off : Nat) (marked : Bool) : Prop :=
  ∃ o st, bytes f a (sizeofNvInfoIdx c) = (idleIdx c o st).encode ∧
    (o = 0xffffffff ∨ o = off) ∧ (st = itemFieldIdle ∨ marked = true ∧ st = itemFieldInvalid)

/-- The index table of a sector and the items it points to are the log `es`. -/
structure SectorTable (c : NvCfg) (id s : Nat) (marked : Bool) (f : Flash) (es : List Entry) : Prop where
  count : es.length ≤ moduleIdxNum c id
  fits : itemOff c id s es ≤ moduleSectEnd c id s
  entry : ∀ i (h : i < es.length),
    EntryRep c f (idxAddr c id s i) (itemOff c id s (es.take i)) es[i]
  idle : ∀ i, es.length ≤ i → i < moduleIdxNum c id →
    IdleSlot c f (idxAddr c id s i) (if i = es.length then itemOff c id s es else 0xffffffff) marked

/-- A sector whose log is `es` and whose flash behind the log is erased. -/
structure SectorRep (c : NvCfg) (id s : Nat) (marked : Bool) (f : Flash) (es : List Entry) : Prop
    extends SectorTable c id s marked f es where
  blank : ∀ x, itemOff c id s es ≤ x → x < moduleSectEnd c id s → f x = 0xff

theorem EntryRep.congr {c : NvCfg} {f g : Flash} {a off : Nat} {e : Entry}
    (h : EntryRep c f a off e)
    (hidx : ∀ x, a ≤ x → x < a + sizeofNvInfoIdx c → g x = f x)
    (hitem : ∀ x, off ≤ x → x < off + e.size → g x = f x) : EntryRep c g a off e := by
  refine ⟨?_, fun hh => ?_, fun hh => ?_⟩
  · rw [bytes_congr hidx, h.index]
  · rw [bytes_congr hitem, h.item hh]
  · have := e.size_eq
    rw [hitem _ (by omega) (by omega), h.noHdr hh]

theorem IdleSlot.congr {c : NvCfg} {f g : Flash} {a off : Nat} {marked : Bool}
    (h : IdleSlot c f a off marked)
    (hidx : ∀ x, a ≤ x → x < a + sizeofNvInfoIdx c → g x = f x) : IdleSlot c g a off marked := by
  obtain ⟨o, st, hb, ho, hst⟩ := h
  exact ⟨o, st, by rw [bytes_congr hidx, hb], ho, hst⟩

theorem idleIdx_erased (c : NvCfg) :
    (idleIdx c 0xffffffff itemFieldIdle).encode = List.replicate (sizeofNvInfoIdx c) 0xff := by
  unfold sizeofNvInfoIdx idleIdx sizeofNvInfoIdx
  cases c.idxResv <;> decide

section Table
variable {c : NvCfg} {id s : Nat} {marked : Bool} {f g : Flash} {es : List Entry}

theorem contextStart_le_sectEnd (c : NvCfg) (id s : Nat) :
    moduleContextStart c id s + 3840 ≤ moduleSectEnd c id s := by
  rw [moduleSectEnd_eq, moduleContextStart_eq]
  rcases moduleInfoSize_cases id with ⟨h, h'⟩ | ⟨h, h'⟩ <;> omega

theorem SectorTable.congr (h : SectorTable c id s marked f es)
    (hg : ∀ x, moduleSectStart c id s + 4 ≤ x → x < moduleSectEnd c id s → g x = f x) :
    SectorTable c id s marked g es := by
  have hctx := contextStart_le_sectEnd c id s
  have hidx {i : Nat} (hi : i < moduleIdxNum c id) :
      ∀ x, idxAddr c id s i ≤ x → x < idxAddr c id s i + sizeofNvInfoIdx c → g x = f x := by
    intro x h₁ h₂
    have hlow := idxAddr_lower c id s i
    have hup := @idxAddr_upper c id s i hi
    exact hg x (by omega) (by omega)
  refine ⟨h.count, h.fits, fun i hi => ?_, fun i hi hi' => (h.idle i hi hi').congr (hidx hi')⟩
  refine (h.entry i hi).congr (hidx (Nat.lt_of_lt_of_le hi h.count)) fun x h₁ h₂ => ?_
  have hlow := contextStart_le_itemOff c id s (es.take i)
  have hup := @itemOff_take_le c id s es i hi
  have hsize := es[i].size_le_slotLen
  have hfits := h.fits
  have hinfo := moduleContextStart_eq c id s
  have hinfo' : 4 ≤ moduleInfoSize id := by
    rcases moduleInfoSize_cases id with ⟨h, -⟩ | ⟨h, -⟩ <;> omega
  exact hg x (by omega) (by omega)

theorem SectorRep.congr (h : SectorRep c id s marked f es)
    (hg : ∀ x, moduleSectStart c id s + 4 ≤ x → x < moduleSectEnd c id s → g x = f x) :
    SectorRep c id s marked g es := by
  refine ⟨h.toSectorTable.congr hg, fun x h₁ h₂ => ?_⟩
  have hlow := contextStart_le_itemOff c id s es
  have hinfo := moduleContextStart_eq c id s
  have hinfo' : 4 ≤ moduleInfoSize id := by
    rcases moduleInfoSize_cases id with ⟨h, -⟩ | ⟨h, -⟩ <;> omega
  rw [hg x (by omega) h₂, h.blank x h₁ h₂]

theorem SectorTable.of_unmarked (h : SectorTable c id s false f es) : SectorTable c id s marked f es := by
  refine ⟨h.count, h.fits, h.entry, fun i hi hi' => ?_⟩
  obtain ⟨o, st, hb, ho, hst⟩ := h.idle i hi hi'
  exact ⟨o, st, hb, ho, hst.imp_right fun hm => absurd hm.1 (by decide)⟩

theorem SectorRep.of_unmarked (h : SectorRep c id s false f es) : SectorRep c id s marked f es :=
  ⟨h.toSectorTable.of_unmarked, h.blank⟩

/-- An erased index table is an empty log. -/
theorem SectorTable.of_erased
    (h : ∀ x, moduleSectStart c id s + 4 ≤ x → x < moduleContextStart c id s → f x = 0xff) :
    SectorTable c id s false f [] := by
  refine ⟨Nat.zero_le _, ?_, fun i hi => absurd hi (Nat.not_lt_zero _), fun i _ hi => ?_⟩
  · have := contextStart_le_sectEnd c id s
    rw [itemOff_nil]
    omega
  · refine ⟨0xffffffff, itemFieldIdle, ?_, .inl rfl, .inl rfl⟩
    rw [idleIdx_erased]
    refine bytes_const fun x h₁ h₂ => h x ?_ ?_
    · have := idxAddr_lower c id s i
      omega
    · have := @idxAddr_upper c id s i hi
      omega

theorem SectorRep.of_erased
    (h : ∀ x, moduleSectStart c id s + 4 ≤ x → x < moduleSectEnd c id s → f x = 0xff) :
    SectorRep c id s false f [] := by
  have hctx := contextStart_le_sectEnd c id s
  have hinfo := moduleContextStart_eq c id s
  have hinfo' : 4 ≤ moduleInfoSize id := by
    rcases moduleInfoSize_cases id with ⟨h, -⟩ | ⟨h, -⟩ <;> omega
  refine ⟨.of_erased fun x h₁ h₂ => h x h₁ (by omega), fun x h₁ h₂ => h x ?_ h₂⟩
  rw [itemOff_nil] at h₁
  omega

/-! ### Reading the records of a sector -/

theorem SectorTable.size_lt (h : SectorTable c id s marked f es) {i : Nat} (hi : i < es.length) :
    es[i].size < 65536 := by
  have hup := @itemOff_take_le c id s es i hi
  have hsize := es[i].size_le_slotLen
  have hlow := contextStart_le_itemOff c id s (es.take i)
  have hfits := h.fits
  rw [moduleSectEnd_eq] at hfits
  rw [moduleContextStart_eq] at hlow
  rcases moduleInfoSize_cases id with ⟨-, h'⟩ | ⟨-, h'⟩ <;> omega

theorem SectorTable.readItemHdr_entry (h : SectorTable c id s marked f es) {i : Nat}
    (hi : i < es.length) (hh : es[i].stage.hasHdr = true) :
    readItemHdr f (itemOff c id s (es.take i)) = es[i].hdr c (itemOff c id s (es.take i)) := by
  have hitem := (h.entry i hi).item hh
  have hlt := h.size_lt hi
  have hsize := es[i].size_eq
  refine readItemHdr_of_bytes ?_ ?_
  · have hb := bytes_sub hitem 0 8 (by omega)
    rwa [List.drop_zero, List.take_left' (ItemHdr.encode_length _)] at hb
  · change es[i].payload.length < 65536
    omega

theorem SectorTable.readItemHdr_noHdr (h : SectorTable c id s marked f es) {i : Nat}
    (hi : i < es.length) (hh : es[i].stage.hasHdr = false) :
    (readItemHdr f (itemOff c id s (es.take i))).used = 0xff := by
  rw [readItemHdr_used, (h.entry i hi).noHdr hh]

variable (hid : id < dsMaxModuls) (hs : s < 2)
include hid hs

theorem SectorTable.itemOff_lt (h : SectorTable c id s marked f es) : itemOff c id s es ≤ 0x100000 :=
  Nat.le_trans h.fits (moduleSectEnd_le c hid hs)

theorem SectorTable.readInfoIdx_entry (h : SectorTable c id s marked f es) {i : Nat}
    (hi : i < es.length) :
    readInfoIdx c f (idxAddr c id s i) = es[i].idx (itemOff c id s (es.take i)) := by
  refine readInfoIdx_of_bytes (h.entry i hi).index ?_ (h.size_lt hi)
  have hup := @itemOff_take_le c id s es i hi
  have hoff := h.itemOff_lt hid hs
  change itemOff c id s (es.take i) < _
  omega

/-- The record read from a free slot. -/
theorem SectorTable.readInfoIdx_idle (h : SectorTable c id s marked f es) {i : Nat}
    (hi : es.length ≤ i) (hi' : i < moduleIdxNum c id) :
    ∃ o st, readInfoIdx c f (idxAddr c id s i) = idleIdx c o st ∧
      (o = 0xffffffff ∨ i = es.length ∧ o = itemOff c id s es) ∧
      (st = itemFieldIdle ∨ marked = true ∧ st = itemFieldInvalid) := by
  obtain ⟨o, st, hb, ho, hst⟩ := h.idle i hi hi'
  have hoff := h.itemOff_lt hid hs
  have ho' : o = 0xffffffff ∨ i = es.length ∧ o = itemOff c id s es := by
    split_ifs at ho with hn
    · exact ho.imp_right fun h => ⟨hn, h⟩
    · exact .inl (or_self_iff.mp ho)
  refine ⟨o, st, readInfoIdx_of_bytes hb ?_ (show 0xffff < 65536 by decide), ho', hst⟩
  change o < _
  omega

omit hid hs

/-! ### Deleting by index -/

theorem NvInfoIdx.encode_state (i : NvInfoIdx) (st : Byte) :
    i.encode.take 7 ++ [st] ++ i.encode.drop 8 = { i with usedState := st }.encode := rfl

theorem staOffset_lt (c : NvCfg) : staOffset + 1 ≤ sizeofNvInfoIdx c := by
  rcases sizeofNvInfoIdx_cases c with h | h <;> rw [h] <;> decide

/-- Programming the state byte of an index record. -/
theorem bytes_program_state {a : Nat} {i : NvInfoIdx} {st : Byte}
    (h : bytes f a (sizeofNvInfoIdx c) = i.encode) (hst : i.usedState &&& st = st) :
    bytes (f.program (a + staOffset) [st]) a (sizeofNvInfoIdx c) =
      { i with usedState := st }.encode := by
  have hlen : staOffset + [st].length ≤ sizeofNvInfoIdx c := staOffset_lt c
  have hp : Programmable ((i.encode.drop staOffset).take [st].length) [st] := by
    change Programmable [i.usedState] [st]
    simp [Programmable, hst]
  rw [bytes_program_mid h hlen hp]
  exact i.encode_state st

/-- Programming within one index slot leaves the other slots and all items alone. -/
theorem idxAddr_program_outside {i : Nat} (hi : i < moduleIdxNum c id) {k : Nat} {data : List Byte}
    (hk : k + data.length ≤ sizeofNvInfoIdx c) :
    (∀ j, j ≠ i → ∀ x, idxAddr c id s j ≤ x → x < idxAddr c id s j + sizeofNvInfoIdx c →
      f.program (idxAddr c id s i + k) data x = f x) ∧
    ∀ x, moduleContextStart c id s ≤ x → f.program (idxAddr c id s i + k) data x = f x := by
  constructor
  · intro j hj x h₁ h₂
    refine program_outside _ _ _ ?_
    rcases Nat.lt_or_gt_of_ne hj with h | h
    · have := idxAddr_lt c id s h
      omega
    · have := idxAddr_lt c id s h
      omega
  · intro x hx
    have := @idxAddr_upper c id s i hi
    exact program_outside _ _ _ (by omega)

theorem Entry.state_drop (e : Entry) : e.state &&& itemFieldInvalid = itemFieldInvalid := by
  unfold state
  generalize e.single = single
  cases e.stage <;> decide +revert

theorem map_slotLen_modify (es : List Entry) (i : Nat) :
    (es.modify i Entry.drop).map Entry.slotLen = es.map Entry.slotLen := by
  refine List.ext_getElem (by simp) fun j h₁ h₂ => ?_
  rw [List.getElem_map, List.getElem_map, List.getElem_modify]
  split_ifs <;> rfl

theorem itemOff_modify (c : NvCfg) (id s : Nat) (es : List Entry) (i : Nat) :
    itemOff c id s (es.modify i Entry.drop) = itemOff c id s es :=
  itemOff_congr c id s (map_slotLen_modify es i)

theorem itemOff_take_modify (c : NvCfg) (id s : Nat) (es : List Entry) (i j : Nat) :
    itemOff c id s ((es.modify i Entry.drop).take j) = itemOff c id s (es.take j) := by
  refine itemOff_congr c id s ?_
  rw [List.map_take, List.map_take, map_slotLen_modify]

/-- Deleting an entry changes its stage only. -/
theorem SectorTable.drop (h : SectorTable c id s marked f es) {i : Nat} (hi : i < es.length) :
    SectorTable c id s marked (f.program (idxAddr c id s i + staOffset) [itemFieldInvalid])
      (es.modify i Entry.drop) := by
  have hlen : staOffset + [itemFieldInvalid].length ≤ sizeofNvInfoIdx c := staOffset_lt c
  have hi' := Nat.lt_of_lt_of_le hi h.count
  obtain ⟨hslots, hitems⟩ := @idxAddr_program_outside c id s f i hi' _ _ hlen
  refine ⟨by simpa using h.count, by rw [itemOff_modify]; exact h.fits, fun j hj => ?_,
    fun j hj hj' => ?_⟩
  · rw [List.length_modify] at hj
    have he := h.entry j hj
    have hctx := contextStart_le_itemOff c id s (es.take j)
    rw [itemOff_take_modify, List.getElem_modify]
    split_ifs with hij
    · subst hij
      have hitem : ∀ x, itemOff c id s (es.take i) ≤ x →
          x < itemOff c id s (es.take i) + es[i].size →
          f.program (idxAddr c id s i + staOffset) [itemFieldInvalid] x = f x :=
        fun x h₁ _ => hitems x (by omega)
      refine ⟨bytes_program_state he.index es[i].state_drop, fun hh => ?_, fun hh => ?_⟩
      · exact (bytes_congr hitem).trans (he.item hh)
      · rw [hitems _ (by omega)]
        exact he.noHdr hh
    · exact he.congr (hslots j (Ne.symm hij)) fun x h₁ _ => hitems x (by omega)
  · rw [List.length_modify] at hj ⊢
    rw [itemOff_modify]
    exact (h.idle j hj hj').congr (hslots j (by omega))

theorem SectorRep.drop (h : SectorRep c id s marked f es) {i : Nat} (hi : i < es.length) :
    SectorRep c id s marked (f.program (idxAddr c id s i + staOffset) [itemFieldInvalid])
      (es.modify i Entry.drop) := by
  have hlen : staOffset + [itemFieldInvalid].length ≤ sizeofNvInfoIdx c := staOffset_lt c
  have hitems := (@idxAddr_program_outside c id s f i (Nat.lt_of_lt_of_le hi h.count) _ _ hlen).2
  refine ⟨h.toSectorTable.drop hi, fun x h₁ h₂ => ?_⟩
  rw [itemOff_modify] at h₁
  rw [hitems x (Nat.le_trans (contextStart_le_itemOff c id s es) h₁), h.blank x h₁ h₂]

/-- Deleting a free slot only marks it. -/
theorem SectorTable.mark (h : SectorTable c id s marked f es) {i : Nat} (hi : es.length ≤ i)
    (hi' : i < moduleIdxNum c id) :
    SectorTable c id s true (f.program (idxAddr c id s i + staOffset) [itemFieldInvalid]) es := by
  have hlen : staOffset + [itemFieldInvalid].length ≤ sizeofNvInfoIdx c := staOffset_lt c
  obtain ⟨hslots, hitems⟩ := @idxAddr_program_outside c id s f i hi' _ _ hlen
  refine ⟨h.count, h.fits, fun j hj => ?_, fun j hj hj' => ?_⟩
  · have hctx := contextStart_le_itemOff c id s (es.take j)
    exact (h.entry j hj).congr (hslots j (by omega)) fun x h₁ _ => hitems x (by omega)
  · obtain ⟨o, st, hb, ho, hst⟩ := h.idle j hj hj'
    by_cases hij : j = i
    · subst hij
      refine ⟨o, itemFieldInvalid, bytes_program_state hb ?_, ho, .inr ⟨rfl, rfl⟩⟩
      change st &&& itemFieldInvalid = itemFieldInvalid
      rcases hst with rfl | ⟨-, rfl⟩ <;> decide
    · refine ⟨o, st, by rw [bytes_congr (hslots j hij), hb], ho, hst.imp_right fun hm => ⟨rfl, hm.2⟩⟩

theorem SectorRep.mark (h : SectorRep c id s marked f es) {i : Nat} (hi : es.length ≤ i)
    (hi' : i < moduleIdxNum c id) :
    SectorRep c id s true (f.program (idxAddr c id s i + staOffset) [itemFieldInvalid]) es := by
  have hlen : staOffset + [itemFieldInvalid].length ≤ sizeofNvInfoIdx c := staOffset_lt c
  have hitems := (@idxAddr_program_outside c id s f i hi' _ _ hlen).2
  refine ⟨h.toSectorTable.mark hi hi', fun x h₁ h₂ => ?_⟩
  rw [hitems x (Nat.le_trans (contextStart_le_itemOff c id s es) h₁), h.blank x h₁ h₂]

end Table

end Rf4ce.Nv

import Rf4ce.Nv.Search

/-! `nv_write_item`: how an item is added to the log of a sector, and what is there when the
power fails on the way. -/
namespace Rf4ce.Nv
open Crash Drv Common

/-! ### The place of the next item -/

/-- The check of `nv_write_item` on the entry before the new one. -/
def Entry.crcOk (c : NvCfg) (off : Nat) (e : Entry) : Bool :=
  !e.stage.hasHdr || idxCrcCheck c (e.idx off) (e.hdr c off)

def chainOk (c : NvCfg) (id s : Nat) (es : List Entry) : Bool :=
  match es.getLast? with
  | none => true
  | some e => e.crcOk c (itemOff c id s es.dropLast)

/-- `nv_write_item` takes an item of `len` bytes behind the log. -/
structure Accepts (c : NvCfg) (id s len : Nat) (es : List Entry) : Prop where
  chain : chainOk c id s es = true
  fits : itemOff c id s es + itemTotalLen len ≤ moduleSectEnd c id s

instance (c : NvCfg) (id s len : Nat) (es : List Entry) : Decidable (Accepts c id s len es) :=
  decidable_of_iff (chainOk c id s es = true ∧ itemOff c id s es + itemTotalLen len ≤ moduleSectEnd c id s)
    ⟨fun h => ⟨h.1, h.2⟩, fun h => ⟨h.1, h.2⟩⟩

/-- The reserved bytes of a new index entry are those of its predecessor. -/
def nextResv (c : NvCfg) (es : List Entry) : List Byte :=
  match es.getLast? with
  | none => List.replicate (sizeofNvInfoIdx c - 8) 0
  | some e => e.resv

theorem Entry.idxCrcCheck_eq (c : NvCfg) (off : Nat) (e : Entry) :
    idxCrcCheck c (e.idx off) (e.hdr c off) =
      decide (crcIdx c (e.idx off) &&& 0xffff#32 = crcIdx c (e.validIdx off) &&& 0xffff#32) := by
  rw [idxCrcCheck, hdr_checkSum, checkSum_high]

theorem Entry.idxCrcCheck_of_valid {e : Entry} (h : e.stage = .valid) (c : NvCfg) (off : Nat) :
    idxCrcCheck c (e.idx off) (e.hdr c off) = true := by
  rw [idxCrcCheck_eq, validIdx_of_valid h]
  simp

theorem Entry.crcOk_of_valid {e : Entry} (h : e.stage = .valid) (c : NvCfg) (off : Nat) :
    e.crcOk c off = true := by
  rw [crcOk, idxCrcCheck_of_valid h, Bool.or_true]

section Table
variable {c : NvCfg} {id s : Nat} {marked : Bool} {f g : Flash} {es : List Entry}

theorem chainOk_getElem {i : Nat} (hi : i < es.length) (h : i + 1 = es.length) :
    chainOk c id s es = es[i].crcOk c (itemOff c id s (es.take i)) := by
  have hdrop : es.dropLast = es.take i := by
    rw [List.dropLast_eq_take, show es.length - 1 = i by omega]
  rw [chainOk, getLast?_eq_some hi h, hdrop]

theorem SectorTable.resv_length (h : SectorTable c id s marked f es) {i : Nat} (hi : i < es.length) :
    es[i].resv.length = sizeofNvInfoIdx c - 8 := by
  have hlen := congrArg List.length (h.entry i hi).index
  rw [bytes_length, NvInfoIdx.encode_length] at hlen
  change _ = 8 + es[i].resv.length at hlen
  omega

theorem SectorTable.nextResv_length (h : SectorTable c id s marked f es) :
    (nextResv c es).length = sizeofNvInfoIdx c - 8 := by
  by_cases hnil : es = []
  · simp [nextResv, hnil]
  · have hpos := List.length_pos_iff.mpr hnil
    rw [nextResv, getLast?_eq_some (i := es.length - 1) (by omega) (by omega)]
    exact h.resv_length (by omega)

variable (hid : id < dsMaxModuls) (hs : s < 2)
include hid hs

theorem nvItemPlace_eq (h : SectorTable c id s marked f es) :
    ∃ base : NvInfoIdx, base.resv = nextResv c es ∧
      nvItemPlace c f id s es.length =
        if chainOk c id s es then some (base, itemOff c id s es) else none := by
  by_cases hnil : es = []
  · subst hnil
    exact ⟨⟨0, 0, 0, 0, List.replicate (sizeofNvInfoIdx c - 8) 0⟩, rfl, rfl⟩
  · have hpos := List.length_pos_iff.mpr hnil
    have hi : es.length - 1 < es.length := by omega
    have hread := h.readInfoIdx_entry hid hs hi
    have hoft := h.itemOftCheck hi
    have hchain := @chainOk_getElem c id s es _ hi (by omega)
    have hresv : nextResv c es = es[es.length - 1].resv := by
      rw [nextResv, getLast?_eq_some hi (by omega)]
    have hnext : alignUp4 (itemOff c id s (es.take (es.length - 1)) + es[es.length - 1].size) =
        itemOff c id s es := by
      have hstep := @itemOff_take_succ c id s es _ hi
      rw [Nat.sub_add_cancel hpos, List.take_length] at hstep
      have hoff := h.itemOff_lt hid hs
      have hsize := es[es.length - 1].size_le_slotLen
      rw [alignUp4_itemOff c id s (by omega), hstep]
    refine ⟨es[es.length - 1].idx (itemOff c id s (es.take (es.length - 1))), hresv.symm, ?_⟩
    rw [nvItemPlace, if_neg (by omega), hread, hchain]
    simp only [Entry.idx, Entry.state_flag, hoft, Bool.and_self, if_true, hnext]
    change (if (decide ((readItemHdr f (itemOff c id s (es.take (es.length - 1)))).used = _) && _) = true
      then _ else _) = _
    cases hh : es[es.length - 1].stage.hasHdr with
    | true =>
      rw [h.readItemHdr_entry hi hh, Entry.crcOk, hh]
      change (if (true && !idxCrcCheck c (es[es.length - 1].idx _) _) = true then _ else _) = _
      cases idxCrcCheck c (es[es.length - 1].idx (itemOff c id s (es.take (es.length - 1))))
        (es[es.length - 1].hdr c (itemOff c id s (es.take (es.length - 1)))) <;> rfl
    | false =>
      rw [h.readItemHdr_noHdr hi hh, Entry.crcOk, hh]
      rfl

end Table

/-! ### Storing the payload -/

theorem flashCrcLoop_eq (f : Flash) (unit : Nat) (hunit : 0 < unit) (fuel addr len : Nat)
    (crc : BitVec 32) (hfuel : len ≤ fuel) :
    flashCrcLoop f unit fuel addr len crc = xcrc32 (bytes f addr len) crc := by
  induction fuel generalizing addr len crc with
  | zero =>
    obtain rfl : len = 0 := by omega
    rfl
  | succ fuel ih =>
    by_cases h0 : len = 0
    · subst h0
      rfl
    · rw [flashCrcLoop, if_neg h0]
      dsimp only
      generalize hk : (if len > unit then unit else len) = k
      obtain ⟨hkn, hpos⟩ : k ≤ len ∧ 0 < k := by split_ifs at hk <;> omega
      rw [flashRead_eq, ih _ _ _ (by omega), ← xcrc32_append, ← bytes_append]
      congr 2
      omega

/-- A program that stores the payload of `e` at `addr` and reports the header and CRC of `e`. -/
def StoresPayload (e : Entry) (addr : Nat) (prog : FlashM (Except NvSts (ItemHdr × BitVec 32)))
    (f : Flash) : Prop :=
  wp (fun x => addr ≤ x ∧ x < addr + e.payload.length) prog
    (fun r g => bytes g addr e.payload.length = e.payload ∧
      ∃ checkSum, r = .ok ({ e.payloadHdr with checkSum }, e.payloadCrc))
    (fun _ => True) f

theorem nvStorePayload_stores (e : Entry) {addr : Nat} {f : Flash}
    (hblank : ∀ x, addr ≤ x → x < addr + e.payload.length → f x = 0xff) :
    StoresPayload e addr (nvStorePayload e.itemId addr e.payload) f := by
  have hb := bytes_program_erased hblank
  refine wp_bind (flashWrite_wp (fun x h₁ h₂ => ⟨h₁, h₂⟩) (fun _ _ => trivial) ?_)
  refine wp_bind (wp_query ?_ trivial)
  rw [flashCrcLoop_eq _ 16 (by decide) _ _ _ _ (Nat.le_refl _), hb, if_pos rfl]
  exact wp_pure ⟨hb, 0, rfl⟩ trivial

/-- The copy loop stores what it reads and returns its CRC. -/
theorem nvCopyLoop_wp {f : Flash} (fuel sAddr dAddr : Nat) (l : List Byte) (crc : BitVec 32)
    (hfuel : l.length ≤ fuel) (hsrc : bytes f sAddr l.length = l)
    (hblank : ∀ x, dAddr ≤ x → x < dAddr + l.length → f x = 0xff)
    (hapart : sAddr + l.length ≤ dAddr ∨ dAddr + l.length ≤ sAddr) :
    wp (fun x => dAddr ≤ x ∧ x < dAddr + l.length)
      (nvCopyLoop false fuel sAddr dAddr l.length 0 crc)
      (fun r g => bytes g dAddr l.length = l ∧ r = some (0, xcrc32 l crc))
      (fun _ => True) f := by
  induction fuel generalizing sAddr dAddr l crc f with
  | zero =>
    obtain rfl : l = [] := List.eq_nil_of_length_eq_zero (by omega)
    exact wp_pure ⟨rfl, rfl⟩ trivial
  | succ fuel ih =>
    by_cases h0 : l.length = 0
    · obtain rfl : l = [] := List.eq_nil_of_length_eq_zero h0
      exact wp_pure ⟨rfl, rfl⟩ trivial
    · rw [nvCopyLoop, if_neg h0]
      dsimp only
      generalize hk : (if l.length > 48 then 48 else l.length) = k
      obtain ⟨hkn, hpos, hk48⟩ : k ≤ l.length ∧ 0 < k ∧ k ≤ 48 := by split_ifs at hk <;> omega
      have htake : (l.take k).length = k := by
        rw [List.length_take]
        omega
      have hread : bytes f sAddr k = l.take k := by
        simpa using bytes_sub hsrc 0 k (by omega)
      have hrest : bytes f (sAddr + k) (l.drop k).length = l.drop k := by
        rw [List.length_drop, bytes_sub hsrc k _ (by omega)]
        exact List.take_of_length_le (Nat.le_of_eq List.length_drop)
      -- the piece at hand is stored and reads back
      have hb := @bytes_program_erased f dAddr (l.take k) fun x h₁ h₂ => hblank x h₁ (by omega)
      have hout {x : Nat} (hx : x < dAddr ∨ dAddr + k ≤ x) : f.program dAddr (l.take k) x = f x :=
        program_outside _ _ _ (by omega)
      refine wp_bind (wp_query ?_ trivial)
      rw [flashRead_eq, hread]
      refine wp_bind (flashWriteWithCheck_wp (by omega) (fun x h₁ h₂ => ⟨h₁, by omega⟩) (fun _ _ => trivial) ?_)
      rw [hb, decide_eq_true rfl, ← List.length_drop]
      have hnext := ih (f := f.program dAddr (l.take k)) (sAddr + k) (dAddr + k) (l.drop k)
        (xcrc32 (l.take k) crc) (by rw [List.length_drop]; omega)
        ((bytes_congr fun x h₁ h₂ => hout (by rw [List.length_drop] at h₂; omega)).trans hrest)
        (fun x h₁ h₂ => by
          rw [List.length_drop] at h₂
          rw [hout (by omega)]
          exact hblank x (by omega) (by omega))
        (by rw [List.length_drop]; omega)
      refine wp_region (wp_mono (wp_frame hnext) ?_ fun _ _ => trivial) fun x hx => ?_
      · rintro r g ⟨⟨hg, hr⟩, hframe⟩
        refine ⟨?_, ?_⟩
        · have hfirst : bytes g dAddr k = l.take k := by
            rw [← hb, htake]
            exact bytes_congr fun x h₁ h₂ => hframe x (by omega)
          have hsplit : bytes g dAddr l.length = bytes g dAddr k ++ bytes g (dAddr + k) (l.drop k).length := by
            rw [← bytes_append, List.length_drop]
            congr 1
            omega
          rw [hsplit, hfirst, hg, List.take_append_drop]
        · rw [hr, ← xcrc32_append, List.take_append_drop]
      · rw [List.length_drop] at hx
        omega

/-- Copying an item whose header and payload are intact. -/
theorem nvCopyPayload_stores (c : NvCfg) (e old : Entry) (off : Nat) {sAddr dAddr : Nat} {f : Flash}
    (hpayload : old.payload = e.payload) (hitem : old.itemId = e.itemId) (hsize : e.size < 65536)
    (hsrc : bytes f sAddr e.size = (old.hdr c off).encode ++ e.payload)
    (hblank : ∀ x, dAddr ≤ x → x < dAddr + e.payload.length → f x = 0xff)
    (hapart : sAddr + e.size ≤ dAddr ∨ dAddr + e.payload.length ≤ sAddr) :
    StoresPayload e dAddr (nvCopyPayload sAddr dAddr e.payload.length) f := by
  have hsize' := e.size_eq
  have hhdr : readItemHdr f sAddr = old.hdr c off := by
    refine readItemHdr_of_bytes ?_ ?_
    · have hb := bytes_sub hsrc 0 8 (by omega)
      rwa [List.drop_zero, List.take_left' (ItemHdr.encode_length _)] at hb
    · change old.payload.length < 65536
      rw [hpayload]
      omega
  have hpay : bytes f (sAddr + 8) e.payload.length = e.payload := by
    have hb := bytes_sub hsrc 8 e.payload.length (by omega)
    rwa [List.drop_left' (ItemHdr.encode_length _), List.take_length] at hb
  have htail : (old.hdr c off).tail = e.payloadHdr.tail := by
    change le16 old.payload.length ++ [old.itemId, _] = le16 e.payload.length ++ [e.itemId, _]
    rw [hpayload, hitem]
    rfl
  have hcrc : old.payloadCrc = e.payloadCrc := by
    have htail' : old.payloadHdr.tail = e.payloadHdr.tail := htail
    rw [Entry.payloadCrc, Entry.payloadCrc, htail', hpayload]
  refine wp_bind (wp_query ?_ trivial)
  rw [hhdr]
  have hused : ¬ (old.hdr c off).used = itemHdrFieldValidChecksum := by
    change ¬ itemHdrFieldValidCheckcrc = itemHdrFieldValidChecksum
    decide
  simp only [hused, decide_false]
  refine wp_bind (wp_mono (nvCopyLoop_wp _ _ _ e.payload _ (Nat.le_refl _) hpay hblank
    (by rw [sizeofItemHdr]; omega)) ?_ fun _ _ => trivial)
  rintro r g ⟨hg, rfl⟩
  have hlow : ¬ e.payloadCrc &&& 0xffff#32 ≠ (old.hdr c off).checkSum &&& 0xffff#32 := by
    rw [Entry.hdr_checkSum, checkSum_low, hcrc]
    exact fun h => h rfl
  simp only [htail, if_false]
  rw [← Entry.payloadCrc, if_neg hlow]
  refine wp_pure ⟨hg, (old.hdr c off).checkSum, ?_⟩ trivial
  have heq : old.hdr c off = { e.payloadHdr with checkSum := (old.hdr c off).checkSum } := by
    change ItemHdr.mk _ old.payload.length old.itemId _ = ItemHdr.mk _ e.payload.length e.itemId _
    rw [hpayload, hitem]
    rfl
  rw [← heq]

/-! ### Adding an item -/

/-- What the power may leave of the entry `e` before it is valid. -/
inductive Unfinished (e : Entry) : Entry → Prop where
  | opened (resv : List Byte) : Unfinished e { e with stage := .opened, resv }
  | closed : Unfinished e (e.withStage .closed)

/-- The sector at any point of adding `e`. -/
def AppendCut (c : NvCfg) (id s : Nat) (es : List Entry) (e : Entry) (g : Flash) : Prop :=
  SectorRep c id s false g es ∨
    (∃ e', Unfinished e e' ∧ SectorRep c id s false g (es ++ [e'])) ∨
    SectorRep c id s false g (es ++ [e])

section Push
variable {c : NvCfg} {id s : Nat} {f g : Flash} {es : List Entry}

theorem SectorRep.push (h : SectorRep c id s false f es) (hn : es.length < moduleIdxNum c id)
    {e : Entry} (hfit : itemOff c id s es + e.size ≤ moduleSectEnd c id s)
    (hsame : ∀ x, x < idxAddr c id s es.length ∨ idxAddr c id s es.length + sizeofNvInfoIdx c ≤ x →
      x < itemOff c id s es ∨ itemOff c id s es + e.size ≤ x → g x = f x)
    (he : EntryRep c g (idxAddr c id s es.length) (itemOff c id s es) e) :
    SectorRep c id s false g (es ++ [e]) := by
  have hctx := contextStart_le_itemOff c id s es
  have hup := @idxAddr_upper c id s es.length hn
  have hslot := e.size_le_slotLen
  have hslots {j : Nat} (hj : j ≠ es.length) (hj' : j < moduleIdxNum c id) :
      ∀ x, idxAddr c id s j ≤ x → x < idxAddr c id s j + sizeofNvInfoIdx c → g x = f x := by
    intro x h₁ h₂
    have hup' := @idxAddr_upper c id s j hj'
    refine hsame x ?_ (by omega)
    rcases Nat.lt_or_gt_of_ne hj with h | h
    · have := idxAddr_lt c id s h
      omega
    · have := idxAddr_lt c id s h
      omega
  have hround : itemOff c id s es + e.slotLen ≤ moduleSectEnd c id s := by
    have hmod := itemOff_mod c id s es
    have hend : moduleSectEnd c id s % 4 = 0 := by
      have := moduleSectStart_mod c id s
      rw [moduleSectEnd_eq]
      rcases moduleInfoSize_cases id with ⟨-, h⟩ | ⟨-, h⟩ <;> omega
    unfold Entry.slotLen roundUp4
    omega
  have hoff : itemOff c id s (es ++ [e]) = itemOff c id s es + e.slotLen := by simp
  refine ⟨⟨?_, ?_, fun i hi => ?_, fun i hi hi' => ?_⟩, fun x h₁ h₂ => ?_⟩
  · rw [List.length_append]
    exact hn
  · rw [hoff]
    exact hround
  · rw [List.length_append, List.length_singleton] at hi
    by_cases hlt : i < es.length
    · rw [List.take_append_of_le_length (by omega), List.getElem_append_left hlt]
      have hup' := @itemOff_take_le c id s es i hlt
      have hctx' := contextStart_le_itemOff c id s (es.take i)
      have hsize := es[i].size_le_slotLen
      refine (h.entry i hlt).congr (hslots (by omega) (by omega)) fun x h₁ h₂ => ?_
      exact hsame x (by omega) (by omega)
    · obtain rfl : i = es.length := by omega
      rw [List.take_left', List.getElem_append_right (Nat.le_refl _)]
      · simpa using he
      · rfl
  · rw [List.length_append, List.length_singleton] at hi
    obtain ⟨o, st, hb, ho, hst⟩ := h.idle i (by omega) hi'
    rw [if_neg (by omega)] at ho
    exact ⟨o, st, by rw [bytes_congr (hslots (by omega) hi'), hb], .inl (or_self_iff.mp ho), hst⟩
  · rw [hoff] at h₁
    rw [hsame x (by omega) (by omega), h.blank x (by omega) h₂]

/-- Changing the free slot behind the log within what a free slot may hold. -/
theorem SectorRep.reslot (h : SectorRep c id s false f es) (hn : es.length < moduleIdxNum c id)
    (hsame : ∀ x, x < idxAddr c id s es.length ∨ idxAddr c id s es.length + sizeofNvInfoIdx c ≤ x →
      g x = f x)
    (hslot : IdleSlot c g (idxAddr c id s es.length) (itemOff c id s es) false) :
    SectorRep c id s false g es := by
  have hup := @idxAddr_upper c id s es.length hn
  have hslots {j : Nat} (hj : j ≠ es.length) (hj' : j < moduleIdxNum c id) :
      ∀ x, idxAddr c id s j ≤ x → x < idxAddr c id s j + sizeofNvInfoIdx c → g x = f x := by
    intro x h₁ h₂
    refine hsame x ?_
    rcases Nat.lt_or_gt_of_ne hj with h | h
    · have := idxAddr_lt c id s h
      omega
    · have := idxAddr_lt c id s h
      omega
  refine ⟨⟨h.count, h.fits, fun i hi => ?_, fun i hi hi' => ?_⟩, fun x h₁ h₂ => ?_⟩
  · have hctx := contextStart_le_itemOff c id s (es.take i)
    exact (h.entry i hi).congr (hslots (by omega) (by omega)) fun x h₁ _ => hsame x (by omega)
  · by_cases hie : i = es.length
    · subst hie
      rwa [if_pos rfl]
    · exact (h.idle i hi hi').congr (hslots hie hi')
  · have hctx := contextStart_le_itemOff c id s es
    rw [hsame x (by omega), h.blank x h₁ h₂]

theorem idleIdx_encode (c : NvCfg) (o : Nat) :
    (idleIdx c o itemFieldIdle).encode = le32 o ++ List.replicate (sizeofNvInfoIdx c - 4) 0xff := by
  have hmid : le16 0xffff ++ [0xff, itemFieldIdle] = List.replicate 4 0xff := by decide
  have hlen : sizeofNvInfoIdx c - 4 = 4 + (sizeofNvInfoIdx c - 8) := by
    rcases sizeofNvInfoIdx_cases c with h | h <;> omega
  rw [hlen, ← List.replicate_append_replicate, ← hmid]
  simp [idleIdx, NvInfoIdx.encode]

/-- A free slot takes the index record of the next item. -/
theorem programmable_idle {o off : Nat} (ho : o = 0xffffffff ∨ o = off) {i : NvInfoIdx}
    (hoff : i.offset = off) (hlen : i.encode.length = sizeofNvInfoIdx c) :
    Programmable (idleIdx c o itemFieldIdle).encode i.encode := by
  subst hoff
  have hcons : i.encode = le32 i.offset ++ (le16 i.size ++ [i.itemId, i.usedState] ++ i.resv) := by
    simp [NvInfoIdx.encode]
  have hlen' : sizeofNvInfoIdx c - 4 =
      (le16 i.size ++ [i.itemId, i.usedState] ++ i.resv).length := by
    rw [hcons, List.length_append, le32_length] at hlen
    omega
  rw [idleIdx_encode, hcons, hlen']
  refine programmable_append ?_ (programmable_erased _) (by simp)
  rcases ho with rfl | rfl
  · exact programmable_erased (le32 i.offset)
  · exact programmable_self _

/-- Where the power may fail inside an index write: only the tables longer than a page are cut. -/
theorem pageCut_index {n m : Nat} (h : PageCut (idxAddr c id s n) (sizeofNvInfoIdx c) m) :
    m = 0 ∨ m = sizeofNvInfoIdx c ∨ sizeofNvInfoIdx c = 8 ∧ m = 4 ∨ sizeofNvInfoIdx c = 16 ∧ m = 12 := by
  have hstart := moduleSectStart_mod c id s
  obtain ⟨h₁, h₂⟩ := h
  unfold idxAddr moduleIdxStart sizeofNvSectInfo at h₂
  rcases sizeofNvInfoIdx_cases c with h' | h' <;> rw [h'] at h₁ h₂ ⊢ <;> omega

/-- The first write of `nv_write_item`, cut after `m` bytes. -/
theorem SectorRep.openSlot (h : SectorRep c id s false f es) (hn : es.length < moduleIdxNum c id)
    {e : Entry} (hst : e.stage = .opened) (hresv : e.resv.length = sizeofNvInfoIdx c - 8)
    (hfit : itemOff c id s es + e.size ≤ moduleSectEnd c id s) :
    let enc := (e.idx (itemOff c id s es)).encode
    let a := idxAddr c id s es.length
    (bytes (f.program a enc) a enc.length = enc ∧ SectorRep c id s false (f.program a enc) (es ++ [e])) ∧
      ∀ m, PageCut a enc.length m → SectorRep c id s false (f.program a (enc.take m)) es ∨
        ∃ resv, SectorRep c id s false (f.program a (enc.take m)) (es ++ [{ e with resv }]) := by
  intro enc a
  have hsz : 8 ≤ sizeofNvInfoIdx c := by
    rcases sizeofNvInfoIdx_cases c with h | h <;> omega
  have hlen : enc.length = sizeofNvInfoIdx c := by
    rw [NvInfoIdx.encode_length]
    change 8 + e.resv.length = _
    omega
  obtain ⟨o, st, hb, ho, hst'⟩ := h.idle es.length (Nat.le_refl _) hn
  rw [if_pos rfl] at ho
  obtain rfl : st = itemFieldIdle := by
    rcases hst' with h | ⟨h, -⟩
    · exact h
    · exact absurd h (by decide)
  have hp : Programmable (idleIdx c o itemFieldIdle).encode enc := programmable_idle ho rfl hlen
  have hout {m x : Nat} (hx : x < a ∨ a + sizeofNvInfoIdx c ≤ x) :
      f.program a (enc.take m) x = f x := by
    refine program_outside _ _ _ ?_
    have := List.length_take_le' m enc
    omega
  -- an opened entry, whatever its reserved bytes
  have hopened {m : Nat} {e' : Entry} (hsize : e'.size = e.size) (hst' : e'.stage = .opened)
      (hidx : bytes (f.program a (enc.take m)) a (sizeofNvInfoIdx c) =
        (e'.idx (itemOff c id s es)).encode) :
      SectorRep c id s false (f.program a (enc.take m)) (es ++ [e']) := by
    have hctx := contextStart_le_itemOff c id s es
    have hup := @idxAddr_upper c id s es.length hn
    have hsize' := e.size_eq
    refine h.push hn (by omega) (fun x hx _ => hout hx) ⟨hidx, fun hh => ?_, fun _ => ?_⟩
    · rw [hst'] at hh
      exact absurd hh (by decide)
    · rw [hout (.inr (by omega))]
      exact h.blank _ (by omega) (by omega)
  have hfull : bytes (f.program a enc) a (sizeofNvInfoIdx c) = enc := bytes_program hb hlen hp
  refine ⟨⟨by rw [hlen]; exact hfull, ?_⟩, fun m hm => ?_⟩
  · have hopen := @hopened enc.length e rfl hst (by rw [List.take_length]; exact hfull)
    rwa [List.take_length] at hopen
  · rw [hlen] at hm
    have hbm := bytes_program_take hb hlen hp m
    rcases pageCut_index hm with rfl | rfl | ⟨h8, rfl⟩ | ⟨h16, rfl⟩
    · rw [List.take_zero, program_nil]
      exact .inl h
    · refine .inr ⟨e.resv, hopened rfl hst ?_⟩
      rw [← hlen, List.take_length, hlen]
      exact hfull
    · refine .inl (h.reslot hn (fun x hx => hout hx) ⟨itemOff c id s es, itemFieldIdle, ?_, .inr rfl, .inl rfl⟩)
      rw [hbm, idleIdx_encode, idleIdx_encode, List.drop_left' (le32_length _), h8]
      rfl
    · refine .inr ⟨e.resv.take 4 ++ List.replicate 4 0xff, hopened rfl hst ?_⟩
      rw [hbm, idleIdx_encode, h16]
      have htake : enc.take 12 =
          ({ e with resv := e.resv.take 4 }.idx (itemOff c id s es)).encode := by
        change ((le32 _ ++ le16 _ ++ [_, _]) ++ e.resv).take 12 = (le32 _ ++ le16 _ ++ [_, _]) ++ e.resv.take 4
        rw [List.take_append]
        rfl
      rw [htake]
      simp [NvInfoIdx.encode, Entry.idx, Entry.size, Entry.state, le32, le16]

/-- The header write of `nv_write_item` may be cut between checksum and size. -/
theorem pageCut_hdr {es : List Entry} {m : Nat} (h : PageCut (itemOff c id s es) 8 m) :
    m = 0 ∨ m = 4 ∨ m = 8 := by
  have hmod := itemOff_mod c id s es
  obtain ⟨h₁, h₂⟩ := h
  omega

theorem Entry.state_valid_over {e : Entry} (h : e.stage = .valid) :
    itemFieldOperation &&& e.state = e.state := by
  unfold state
  rw [h]
  cases e.single <;> decide

/-! Three writes make an entry valid: its index record, its header, its state byte. -/

theorem EntryRep.opened_congr {a off : Nat} {e : Entry} (h : EntryRep c f a off (e.withStage .opened))
    (hindex : ∀ x, a ≤ x → x < a + sizeofNvInfoIdx c → g x = f x) (hhdr : g (off + 7) = f (off + 7)) :
    EntryRep c g a off (e.withStage .opened) := by
  constructor
  · rw [bytes_congr hindex]
    exact h.index
  · intro hh
    exact absurd hh Bool.false_ne_true
  · intro hh
    rw [hhdr]
    exact h.noHdr hh

/-- A header that is cut before its size field does not count yet. -/
theorem EntryRep.cutHdr {a off k : Nat} {e : Entry} (h : EntryRep c f a off (e.withStage .opened))
    (hapart : a + sizeofNvInfoIdx c ≤ off) (hk : k ≤ 4) :
    EntryRep c (f.program off ((e.hdr c off).encode.take k)) a off (e.withStage .opened) := by
  have hlen := List.length_take_le k (e.hdr c off).encode
  have hout {x : Nat} (hx : x < off ∨ off + 4 ≤ x) :
      f.program off ((e.hdr c off).encode.take k) x = f x := program_outside _ _ _ (by omega)
  apply h.opened_congr
  · intro x h₁ h₂
    exact hout (by omega)
  · exact hout (by omega)

/-- The header in front of a stored payload closes an opened entry. -/
theorem EntryRep.close {a off : Nat} {e : Entry} (h : EntryRep c f a off (e.withStage .opened))
    (hapart : a + sizeofNvInfoIdx c ≤ off)
    (hhdr : bytes (f.program off (e.hdr c off).encode) off (e.hdr c off).encode.length = (e.hdr c off).encode)
    (hpay : bytes f (off + 8) e.payload.length = e.payload) :
    EntryRep c (f.program off (e.hdr c off).encode) a off (e.withStage .closed) := by
  have hlen : (e.hdr c off).encode.length = 8 := ItemHdr.encode_length _
  have hout {x : Nat} (hx : x < off ∨ off + 8 ≤ x) : f.program off (e.hdr c off).encode x = f x :=
    program_outside _ _ _ (by omega)
  constructor
  · rw [bytes_congr fun x h₁ h₂ => hout (by omega)]
    exact h.index
  · intro _
    have hsplit : (e.withStage .closed).size = (e.hdr c off).encode.length + e.payload.length := by
      rw [hlen]
      exact Nat.add_comm ..
    have hrest : bytes (f.program off (e.hdr c off).encode) (off + (e.hdr c off).encode.length) e.payload.length =
        e.payload := by
      rw [hlen, bytes_congr fun x h₁ h₂ => hout (by omega)]
      exact hpay
    rw [hsplit, bytes_append, hhdr, hrest]
    rfl
  · intro hh
    exact absurd hh.symm Bool.false_ne_true

/-- The state byte makes a closed entry valid. -/
theorem EntryRep.validate {a off : Nat} {e : Entry} (h : EntryRep c f a off (e.withStage .closed))
    (hapart : a + sizeofNvInfoIdx c ≤ off) (hst : e.stage = .valid) :
    EntryRep c (f.program (a + staOffset) [(e.validIdx off).usedState]) a off e := by
  have hstate : staOffset + [(e.validIdx off).usedState].length ≤ sizeofNvInfoIdx c := staOffset_lt c
  have hout {x : Nat} (hx : x < a ∨ a + sizeofNvInfoIdx c ≤ x) :
      f.program (a + staOffset) [(e.validIdx off).usedState] x = f x := program_outside _ _ _ (by omega)
  constructor
  · rw [Entry.validIdx_of_valid hst]
    exact bytes_program_state h.index (Entry.state_valid_over hst)
  · intro _
    exact (bytes_congr fun x h₁ h₂ => hout (by omega)).trans (h.item rfl)
  · intro hh
    rw [hst] at hh
    exact absurd hh (by decide)

/-- `f` with the entry `e` written behind the log `es`. -/
structure Added (c : NvCfg) (id s : Nat) (es : List Entry) (f g : Flash) (e : Entry) : Prop where
  same : ∀ x, x < idxAddr c id s es.length ∨ idxAddr c id s es.length + sizeofNvInfoIdx c ≤ x →
    x < itemOff c id s es ∨ itemOff c id s es + e.size ≤ x → g x = f x
  entry : EntryRep c g (idxAddr c id s es.length) (itemOff c id s es) e

theorem slot_lt_item (hn : es.length < moduleIdxNum c id) :
    idxAddr c id s es.length + sizeofNvInfoIdx c ≤ itemOff c id s es := by
  have hup := @idxAddr_upper c id s es.length hn
  have hctx := contextStart_le_itemOff c id s es
  omega

section Writes
variable {e : Entry} (h : SectorRep c id s false f es) (hn : es.length < moduleIdxNum c id)
  (hfit : itemOff c id s es + e.size ≤ moduleSectEnd c id s)
include h hn hfit

theorem Added.opened_cut (ha : Added c id s es f g (e.withStage .opened)) : AppendCut c id s es e g :=
  .inr (.inl ⟨_, .opened e.resv, h.push hn hfit ha.same ha.entry⟩)

theorem Added.closed_cut (ha : Added c id s es f g (e.withStage .closed)) : AppendCut c id s es e g :=
  .inr (.inl ⟨_, .closed, h.push hn hfit ha.same ha.entry⟩)

omit h hfit in
/-- Storing the payload leaves the entry open. -/
theorem Added.stored {g' : Flash} (ha : Added c id s es f g (e.withStage .opened))
    (hg : ∀ x, ¬ (itemOff c id s es + 8 ≤ x ∧ x < itemOff c id s es + 8 + e.payload.length) → g' x = g x) :
    Added c id s es f g' (e.withStage .opened) := by
  have hapart := @slot_lt_item c id s es hn
  have hsize := e.size_eq
  have hopened : (e.withStage .opened).size = e.size := rfl
  constructor
  · exact fun x hx hx' => (hg x (by omega)).trans (ha.same x hx hx')
  · exact ha.entry.opened_congr (fun x h₁ h₂ => hg x (by omega)) (hg _ (by omega))

/-- The first write of `nv_write_item` opens the slot. -/
theorem openSlot_wp (hresv : e.resv.length = sizeofNvInfoIdx c - 8) :
    wp (fun x => idxAddr c id s es.length ≤ x ∧ x < idxAddr c id s es.length + sizeofNvInfoIdx c)
      (flashWriteWithCheck (idxAddr c id s es.length) ((e.withStage .opened).idx (itemOff c id s es)).encode)
      (fun ok g => ok = true ∧ Added c id s es f g (e.withStage .opened)) (AppendCut c id s es e) f := by
  have hapart := @slot_lt_item c id s es hn
  have hctx := contextStart_le_itemOff c id s es
  have hsize := e.size_eq
  have hsz : 8 ≤ sizeofNvInfoIdx c ∧ sizeofNvInfoIdx c ≤ 16 := by
    rcases sizeofNvInfoIdx_cases c with h | h <;> omega
  have henc : ((e.withStage .opened).idx (itemOff c id s es)).encode.length = sizeofNvInfoIdx c := by
    rw [NvInfoIdx.encode_length]
    change 8 + e.resv.length = _
    omega
  obtain ⟨⟨hback, -⟩, hcut⟩ := h.openSlot (e := e.withStage .opened) hn rfl hresv hfit
  have hout {x : Nat} (hx : x < idxAddr c id s es.length ∨ idxAddr c id s es.length + sizeofNvInfoIdx c ≤ x) :
      f.program (idxAddr c id s es.length) ((e.withStage .opened).idx (itemOff c id s es)).encode x = f x :=
    program_outside _ _ _ (by omega)
  apply flashWriteWithCheck_wp (by omega)
  · intro x h₁ h₂
    omega
  · intro m hm
    rcases hcut m hm with hr | ⟨resv, hr⟩
    · exact .inl hr
    · exact .inr (.inl ⟨_, .opened resv, hr⟩)
  constructor
  · exact decide_eq_true hback
  constructor
  · exact fun x hx _ => hout hx
  constructor
  · rw [← henc]
    exact hback
  · exact fun hh => absurd hh Bool.false_ne_true
  · intro _
    rw [hout (by omega)]
    exact h.blank _ (by omega) (by omega)

/-- The second write closes the entry whose payload is stored. -/
theorem closeEntry_wp (ha : Added c id s es f g (e.withStage .opened))
    (hblank : ∀ x, itemOff c id s es ≤ x → x < itemOff c id s es + 8 → g x = 0xff)
    (hpay : bytes g (itemOff c id s es + 8) e.payload.length = e.payload) :
    wp (fun x => itemOff c id s es ≤ x ∧ x < itemOff c id s es + 8)
      (flashWriteWithCheck (itemOff c id s es) (e.hdr c (itemOff c id s es)).encode)
      (fun ok g => ok = true ∧ Added c id s es f g (e.withStage .closed)) (AppendCut c id s es e) g := by
  have hapart := @slot_lt_item c id s es hn
  have hsize := e.size_eq
  have hhdr : (e.hdr c (itemOff c id s es)).encode.length = 8 := ItemHdr.encode_length _
  have hback := @bytes_program_erased g (itemOff c id s es) (e.hdr c (itemOff c id s es)).encode hblank
  have hsame (k : Nat) : ∀ x, x < idxAddr c id s es.length ∨ idxAddr c id s es.length + sizeofNvInfoIdx c ≤ x →
      x < itemOff c id s es ∨ itemOff c id s es + e.size ≤ x →
      g.program (itemOff c id s es) ((e.hdr c (itemOff c id s es)).encode.take k) x = f x := by
    intro x hx hx'
    have hk := List.length_take_le' k (e.hdr c (itemOff c id s es)).encode
    rw [program_outside _ _ _ (by omega)]
    exact ha.same x hx hx'
  have hclosed : Added c id s es f (g.program (itemOff c id s es) (e.hdr c (itemOff c id s es)).encode)
      (e.withStage .closed) := ⟨hsame 8, ha.entry.close hapart hback hpay⟩
  apply flashWriteWithCheck_wp (by omega)
  · intro x h₁ h₂
    omega
  · intro m hm
    rw [hhdr] at hm
    have hpart {k : Nat} (hk : k ≤ 4) := Added.opened_cut h hn hfit ⟨hsame k, ha.entry.cutHdr hapart hk⟩
    rcases pageCut_hdr hm with rfl | rfl | rfl
    · exact hpart (by decide)
    · exact hpart (by decide)
    · exact hclosed.closed_cut h hn hfit
  · exact ⟨decide_eq_true hback, hclosed⟩

/-- The third write makes the entry valid. -/
theorem validateEntry_wp (hst : e.stage = .valid) (ha : Added c id s es f g (e.withStage .closed)) :
    wp (fun x => idxAddr c id s es.length ≤ x ∧ x < idxAddr c id s es.length + sizeofNvInfoIdx c)
      (flashWriteWithCheck (idxAddr c id s es.length + staOffset) [(e.validIdx (itemOff c id s es)).usedState])
      (fun _ g => SectorRep c id s false g (es ++ [e])) (AppendCut c id s es e) g := by
  have hstate : staOffset + [(e.validIdx (itemOff c id s es)).usedState].length ≤ sizeofNvInfoIdx c := staOffset_lt c
  have hfinal : SectorRep c id s false
      (g.program (idxAddr c id s es.length + staOffset) [(e.validIdx (itemOff c id s es)).usedState]) (es ++ [e]) := by
    apply h.push hn hfit
    · intro x hx hx'
      rw [program_outside _ _ _ (by omega)]
      exact ha.same x hx hx'
    · exact ha.entry.validate (slot_lt_item hn) hst
  apply flashWriteWithCheck_wp (by rw [List.length_singleton]; omega)
  · intro x h₁ h₂
    omega
  · intro m hm
    obtain ⟨hm, -⟩ := hm
    simp only [List.length_singleton] at hm
    obtain rfl | rfl : m = 0 ∨ m = 1 := by omega
    · rw [List.take_zero, program_nil]
      exact ha.closed_cut h hn hfit
    · exact .inr (.inr hfinal)
  · exact hfinal

end Writes

/-- The bounds check of `nv_write_item` on the place behind the log. -/
theorem itemOftCheck_next (c : NvCfg) (id s : Nat) (es : List Entry) {size : Nat} (hsize : 0 < size) :
    itemOftCheck c (itemOff c id s es) size id s = decide (itemOff c id s es + size ≤ moduleSectEnd c id s) := by
  have hctx := contextStart_le_itemOff c id s es
  rw [Bool.eq_iff_iff]
  simp only [itemOftCheck, Bool.and_eq_true, decide_eq_true_eq]
  omega

variable (hid : id < dsMaxModuls) (hs : s < 2)
include hid hs

/-- `nv_write_item` on the slot behind the log. -/
theorem nvWriteItem_wp (h : SectorRep c id s false f es) (hn : es.length < moduleIdxNum c id)
    {e : Entry} (hst : e.stage = .valid) (hresv : e.resv = nextResv c es) (hsize : e.size < 65536)
    {src : ItemSource}
    (hsrc : ∀ g, (∀ x, x < moduleSectStart c id s ∨ moduleSectEnd c id s ≤ x → g x = f x) →
      (∀ x, itemOff c id s es + 8 ≤ x → x < itemOff c id s es + 8 + e.payload.length → g x = 0xff) →
      StoresPayload e (itemOff c id s es + 8)
        (nvItemPayload e.itemId (itemOff c id s es + 8) e.payload.length src) g) :
    wp (fun x => moduleSectStart c id s + 4 ≤ x ∧ x < moduleSectEnd c id s)
      (nvWriteItem c e.single id e.itemId s es.length e.payload.length src)
      (fun r g =>
        if Accepts c id s e.payload.length es then
          r = .succ ∧ SectorRep c id s false g (es ++ [e])
        else r = .itemCheckError ∧ g = f)
      (AppendCut c id s es e) f := by
  obtain ⟨base, hbase, hplace⟩ := nvItemPlace_eq hid hs h.toSectorTable
  have hf : AppendCut c id s es e f := .inl h
  have hsize' := e.size_eq
  have hmod : (e.payload.length + sizeofItemHdr) % 65536 = e.size := Nat.mod_eq_of_lt hsize
  apply wp_bind
  refine wp_query ?_ hf
  rw [hplace]
  by_cases hchain : chainOk c id s es = true
  swap
  · rw [if_neg hchain]
    exact wp_pure (by rw [if_neg fun hc => hchain hc.chain]; exact ⟨rfl, rfl⟩) hf
  rw [if_pos hchain]
  dsimp only
  rw [hmod, itemOftCheck_next c id s es (by omega)]
  by_cases hfit : itemOff c id s es + e.size ≤ moduleSectEnd c id s
  swap
  · rw [decide_eq_false hfit]
    exact wp_pure (by rw [if_neg fun hc => hfit hc.fits]; exact ⟨rfl, rfl⟩) hf
  have hacc : Accepts c id s e.payload.length es := ⟨hchain, hfit⟩
  rw [decide_eq_true hfit, hbase, ← hresv]
  simp only [Bool.not_true, Bool.false_eq_true, if_false, hacc, if_true]
  have hlow := idxAddr_lower c id s es.length
  have hup := @idxAddr_upper c id s es.length hn
  have hctx := contextStart_le_itemOff c id s es
  have hend := contextStart_le_sectEnd c id s
  have hresvLen : e.resv.length = sizeofNvInfoIdx c - 8 := by
    rw [hresv]
    exact h.nextResv_length
  -- the index entry
  have hidx : (⟨itemOff c id s es, e.size, e.itemId, itemFieldOperation, e.resv⟩ : NvInfoIdx) =
      (e.withStage .opened).idx (itemOff c id s es) := rfl
  rw [hidx]
  apply wp_seq (openSlot_wp h hn hfit hresvLen)
  · intro x hx
    omega
  · exact fun g hcut _ => hcut
  intro ok g₁ hpost hframe₁
  obtain ⟨rfl, hopened⟩ := hpost
  simp only [Bool.not_true, Bool.false_eq_true, if_false]
  -- the payload
  have hlen : e.size - sizeofItemHdr = e.payload.length := Nat.add_sub_cancel ..
  have hblank : ∀ x, itemOff c id s es ≤ x → x < itemOff c id s es + e.size → g₁ x = 0xff := by
    intro x h₁ h₂
    rw [hframe₁ x (by omega)]
    exact h.blank x h₁ (by omega)
  rw [hlen]
  apply wp_seq (hsrc g₁ (fun x hx => hframe₁ x (by omega)) fun x h₁ h₂ => hblank x (by omega) (by omega))
  · intro x hx
    omega
  · exact fun g _ hframe => (hopened.stored hn hframe).opened_cut h hn hfit
  intro r g₂ hpost hframe₂
  obtain ⟨hpay, checkSum, rfl⟩ := hpost
  -- the header
  have hfree : ∀ x, itemOff c id s es ≤ x → x < itemOff c id s es + 8 → g₂ x = 0xff := by
    intro x h₁ h₂
    rw [hframe₂ x (by omega)]
    exact hblank x h₁ (by omega)
  change wp _ (flashWriteWithCheck (itemOff c id s es) (e.hdr c (itemOff c id s es)).encode >>= _) _ _ g₂
  apply wp_seq (closeEntry_wp h hn hfit (hopened.stored hn hframe₂) hfree hpay)
  · intro x hx
    omega
  · exact fun g hcut _ => hcut
  intro ok g₃ hpost _
  obtain ⟨rfl, hclosed⟩ := hpost
  simp only [Bool.not_true, Bool.false_eq_true, if_false]
  -- the state byte
  apply wp_seq (validateEntry_wp h hn hfit hst hclosed)
  · intro x hx
    omega
  · exact fun g hcut _ => hcut
  intro _ g₄ hrep _
  exact wp_pure ⟨rfl, hrep⟩ (.inr (.inr hrep))

end Push

end Rf4ce.Nv

import Rf4ce.Nv.CrashSafety

/-! The CRC of an index entry over the life of the entry. In the 16-byte layout the state byte lies
inside the CRC range, so that the CRC written with the item only fits the valid state. -/
namespace Rf4ce.Nv
open Crash Drv Common

/-! ### Deleting an entry of the table -/

section Delete
variable {c : NvCfg} {id s i : Nat} {f : Flash}

theorem delete_outside {x : Nat} (hx : x ≠ idxAddr c id s i + staOffset) :
    f.program (idxAddr c id s i + staOffset) [itemFieldInvalid] x = f x := by
  apply program_outside
  rw [List.length_singleton]
  omega

theorem HasTable.delete (h : HasTable c id s f) (hi : i < moduleIdxNum c id) :
    HasTable c id s (f.program (idxAddr c id s i + staOffset) [itemFieldInvalid]) := by
  obtain ⟨marked, es, htable⟩ := h
  by_cases hin : i < es.length
  · exact ⟨marked, _, htable.drop hin⟩
  · exact ⟨true, es, htable.mark (Nat.le_of_not_lt hin) hi⟩

/-- Deleting any index of the module keeps the logs of both sectors in order. -/
theorem ModuleRep.delete {m : Contents} (h : ModuleRep c id true f m) (hs : s < moduleSectorNum)
    (hi : i < moduleIdxNum c id) :
    ∃ m', ModuleRep c id true (f.program (idxAddr c id s i + staOffset) [itemFieldInvalid]) m' := by
  have hbyte := @idxAddr_state_region c id s i hi
  have hend := contextStart_le_sectEnd c id s
  have hfar {s' x : Nat} (hs' : s' ≠ s) (h₁ : moduleSectStart c id s' ≤ x) (h₂ : x < moduleSectEnd c id s') :
      f.program (idxAddr c id s i + staOffset) [itemFieldInvalid] x = f x := by
    have hapart := sect_apart c id hs'
    exact delete_outside (by omega)
  have hhead {s' x : Nat} (h₁ : moduleSectStart c id s' ≤ x) (h₂ : x < moduleSectStart c id s' + 4) :
      f.program (idxAddr c id s i + staOffset) [itemFieldInvalid] x = f x := by
    have hin := sect_inner c id s'
    by_cases hs' : s' = s
    · subst hs'
      exact delete_outside (by omega)
    · exact hfar hs' h₁ (by omega)
  have htable {s' : Nat} (h : HasTable c id s' f) :
      HasTable c id s' (f.program (idxAddr c id s i + staOffset) [itemFieldInvalid]) := by
    have hend' := contextStart_le_sectEnd c id s'
    by_cases hs' : s' = s
    · subst hs'
      exact h.delete hi
    · exact h.congr fun x h₁ h₂ => hfar hs' (by omega) (by omega)
  cases h with
  | fresh dead₀ dead₁ table₀ table₁ =>
    exact ⟨_, .fresh (dead₀.congr fun x => hhead) (dead₁.congr fun x => hhead) (htable table₀)
      (htable table₁)⟩
  | @active q es headers rep used table =>
    have hrep : ∃ es', SectorRep c id (sectOf q) true
        (f.program (idxAddr c id s i + staOffset) [itemFieldInvalid]) es' ∧ es' ≠ [] := by
      by_cases hq : sectOf q = s
      · rw [hq] at rep ⊢
        by_cases hin : i < es.length
        · exact ⟨_, rep.drop hin, fun hnil => used (List.modify_eq_nil_iff.mp hnil)⟩
        · exact ⟨es, rep.mark (Nat.le_of_not_lt hin) hi, used⟩
      · exact ⟨es, rep.congr fun x h₁ h₂ => hfar hq (by omega) (by omega), used⟩
    obtain ⟨es', hrep, hused⟩ := hrep
    exact ⟨_, .active (headers.congr fun _ _ _ => hhead) hrep hused (htable table)⟩

/-- Every sector in use keeps a log. -/
theorem Logs.delete (h : Logs c id true f) (hi : i < moduleIdxNum c id) :
    Logs c id true (f.program (idxAddr c id s i + staOffset) [itemFieldInvalid]) := by
  have hbyte := @idxAddr_state_region c id s i hi
  have hin := sect_inner c id s
  intro s' hs' q hvalid
  have hin := sect_inner c id s'
  by_cases heq : s' = s
  · subst heq
    have hold : SectValid c id f s' q := hvalid.congr fun x h₁ h₂ => (delete_outside (by omega)).symm
    obtain ⟨es, hused, hrep⟩ := h s' hs' q hold
    by_cases hin : i < es.length
    · exact ⟨_, fun hnil => hused (List.modify_eq_nil_iff.mp hnil), hrep.drop hin⟩
    · exact ⟨es, hused, hrep.mark (Nat.le_of_not_lt hin) hi⟩
  · have hapart := sect_apart c id heq
    have hold : SectValid c id f s' q := hvalid.congr fun x h₁ h₂ => (delete_outside (by omega)).symm
    obtain ⟨es, hused, hrep⟩ := h s' hs' q hold
    exact ⟨es, hused, hrep.congr fun x h₁ h₂ => delete_outside (by omega)⟩

end Delete

/-! ### Runs with any calls -/

/-- Every write and every read, and deletes of indexes that the module has. -/
def InTable (c : NvCfg) (id : Nat) : Call → Prop
  | .write .. => True
  | .read .. => True
  | .delete opSect opIdx => opSect < moduleSectorNum ∧ opIdx < moduleIdxNum c id

section Run
variable {c : NvCfg} {id : Nat} {f : Flash}
variable (hid : id < dsMaxModuls)
include hid

/-- A read deletes at most one index of the module. -/
theorem nvFlashReadNew_keeps {m : Contents} (h : ModuleRep c id true f m) (g : NvItemLenCheck)
    (itemId : Byte) (len : Nat) :
    wp (InModule c id) (nvFlashReadNew c g id itemId len)
      (fun _ t => (∃ m', ModuleRep c id true t m') ∧ (Logs c id true f → Logs c id true t))
      (fun t => (∃ m', ModuleRep c id true t m') ∧ (Logs c id true f → Logs c id true t)) f := by
  have hid' : id < 256 := Nat.lt_trans hid (by decide)
  have hnow : (∃ m', ModuleRep c id true f m') ∧ (Logs c id true f → Logs c id true f) := ⟨⟨m, h⟩, fun h => h⟩
  unfold nvFlashReadNew
  split_ifs
  · exact wp_pure hnow hnow
  apply wp_bind
  cases h with
  | fresh dead₀ dead₁ table₀ table₁ =>
    apply wp_mono (nvSectorRead_fresh dead₀ dead₁)
    · intro r t hpost
      obtain ⟨rfl, rfl⟩ := hpost
      exact wp_pure hnow hnow
    · intro t ht
      rw [ht]
      exact hnow
  | @active q es headers rep used table =>
    have h : ModuleRep c id true f (.active q es) := .active headers rep used table
    apply wp_mono (nvSectorRead_read hid' headers)
    swap
    · intro t ht
      rw [ht]
      exact hnow
    intro r t hpost
    obtain ⟨rfl, rfl⟩ := hpost
    dsimp only
    rw [mkSectInfo_sect headers.seq]
    refine wp_bind (wp_query ?_ hnow)
    have hlast := nvIndexRead_last c t id itemId len (sectOf q) (moduleIdxNum c id)
    cases hidx : nvIndexRead c t id itemId len (sectOf q) (moduleIdxNum c id) with
    | none => exact wp_pure hnow hnow
    | some opIdx =>
      rw [hidx] at hlast
      have hs := sectOf_lt q
      have hin := sect_inner c id (sectOf q)
      have hbyte := @idxAddr_state_region c id (sectOf q) opIdx hlast.1
      have hdelete : (∃ m', ModuleRep c id true (Flash.program t (idxAddr c id (sectOf q) opIdx + staOffset)
            [itemFieldInvalid]) m') ∧
          (Logs c id true t → Logs c id true (Flash.program t (idxAddr c id (sectOf q) opIdx + staOffset)
            [itemFieldInvalid])) := ⟨h.delete hs hlast.1, fun hlogs => hlogs.delete hlast.1⟩
      have hin : InModule c id (idxAddr c id (sectOf q) opIdx + staOffset) :=
        inModule_of_sect hs (by omega) (by omega)
      refine wp_bind (wp_query ?_ hnow)
      by_cases herr : (nvFlashReadByIndex c g t id itemId (sectOf q) opIdx len).1 = .checkSumError
      · rw [if_pos herr]
        exact wp_bind (nvItemDeleteByIndex_wp hin hnow hdelete (wp_pure hdelete hdelete))
      · rw [if_neg herr]
        exact wp_pure hnow hnow

/-- The step lemma: any call, cut anywhere. -/
theorem ModuleRep.cut {m : Contents} (h : ModuleRep c id true f m) {k : Call} (hk : InTable c id k)
    {t : Flash} (ht : k.Cut c id f t) : ∃ m', ModuleRep c id true t m' := by
  cases k with
  | write alloc single itemId buf =>
    by_cases hfc : id = dsNwkFramecountModule
    · have hpure : wp (fun _ => True) (nvFlashWriteNew c alloc single id itemId buf)
          (fun _ t => t = f) (fun t => t = f) f := by
        rw [nvFlashWriteNew, if_pos hfc]
        exact wp_pure rfl rfl
      obtain rfl := wp_cut hpure ht
      exact ⟨m, h⟩
    · obtain ⟨m', -, hrep⟩ := wp_cut (nvFlashWriteNew_wp hid h hfc alloc) ht
      exact ⟨m', hrep⟩
  | read g itemId len => exact (wp_cut (nvFlashReadNew_keeps hid h g itemId len) ht).1
  | delete opSect opIdx =>
    have hdelete := h.delete hk.1 hk.2
    have hwp : wp (fun _ => True) (nvItemDeleteByIndex c id opSect opIdx)
        (fun _ t => ∃ m', ModuleRep c id true t m') (fun t => ∃ m', ModuleRep c id true t m') f :=
      nvItemDeleteByIndex_wp trivial ⟨m, h⟩ hdelete hdelete
    exact wp_cut hwp ht

theorem Reach.moduleRep_any (hf : Reach c id (InTable c id) f) : ∃ m, ModuleRep c id true f m := by
  induction hf with
  | erased h => exact ⟨.fresh, moduleRep_erased h true⟩
  | call _ hk ht ih =>
    obtain ⟨m, h⟩ := ih
    exact h.cut hid hk ht

omit hid in
/-- Both sectors hold a log at any time. -/
theorem ModuleRep.hasTable {m : Contents} {marked : Bool} (h : ModuleRep c id marked f m) {s : Nat}
    (hs : s < moduleSectorNum) : HasTable c id s f := by
  change s < 2 at hs
  cases h with
  | fresh dead₀ dead₁ table₀ table₁ =>
    obtain rfl | rfl : s = 0 ∨ s = 1 := by omega
    · exact table₀
    · exact table₁
  | @active q es headers rep used table =>
    have hq := sectOf_lt q
    by_cases hsq : s = sectOf q
    · subst hsq
      exact ⟨marked, es, rep.toSectorTable⟩
    · rwa [show s = 1 - sectOf q by omega]

end Run

/-! ### The CRC and the state byte -/

/-- The state bytes of an entry that is not valid differ from those of a valid one in the index CRC,
when that covers the state byte. -/
theorem crcIdx_state_ne {c : NvCfg} (hc : c.idxResv = true) {i : NvInfoIdx} (hresv : i.resv.length = 8)
    {a b : Byte} (ha : a = itemFieldOperation ∨ a = itemFieldInvalid)
    (hb : b = itemFieldValid ∨ b = itemFieldValidSingle) :
    crcIdx c { i with usedState := a } &&& 0xffff#32 ≠ crcIdx c { i with usedState := b } &&& 0xffff#32 := by
  have hsplit (st : Byte) : crcIdx c { i with usedState := st } =
      xcrc32 (i.resv.take 7) (crcStep (xcrc32 (le32 i.offset ++ le16 i.size ++ [i.itemId]) 0xffffffff) st) := by
    simp [crcIdx, sizeofNvInfoIdx, hc, NvInfoIdx.encode, le32, le16]
  have hlen : (i.resv.take 7).length = 7 := by
    rw [List.length_take, hresv]
    rfl
  intro heq
  have hdiff : (crcIdx c { i with usedState := a } ^^^ crcIdx c { i with usedState := b }) &&& 0xffff#32 = 0 := by
    refine BitVec.eq_of_getLsbD_eq fun j _ => ?_
    have hj := congrArg (fun v => BitVec.getLsbD v j) heq
    simp only [BitVec.getLsbD_and] at hj
    rw [BitVec.getLsbD_and, BitVec.getLsbD_xor, Bool.and_xor_distrib_right, hj, Bool.xor_self]
    exact BitVec.getLsbD_zero.symm
  rw [hsplit, hsplit, xcrc32_xor, hlen, ← crcStep_xor, BitVec.xor_self] at hdiff
  revert hdiff
  rcases ha with rfl | rfl <;> rcases hb with rfl | rfl <;> decide +kernel

/-- An entry with its header passes the check in the 8-byte layout always, in the 16-byte layout
when it is valid. -/
theorem Entry.crc_iff {e : Entry} {c : NvCfg} (hresv : e.resv.length = sizeofNvInfoIdx c - 8)
    (off : Nat) : idxCrcCheck c (e.idx off) (e.hdr c off) = true ↔
      c.idxResv = false ∨ itemValidFlagCheck e.state = true := by
  rw [Entry.idxCrcCheck_eq, decide_eq_true_eq, Entry.state_validFlag, decide_eq_true_eq]
  cases hc : c.idxResv with
  | false =>
    refine iff_of_true ?_ (.inl rfl)
    exact congrArg (· &&& 0xffff#32) (crcIdx_state hc (e.idx off) _).symm
  | true =>
    by_cases hv : e.stage = .valid
    · refine iff_of_true ?_ (.inr hv)
      rw [Entry.validIdx_of_valid hv]
    · refine iff_of_false ?_ (by simp [hv])
      have hstate : e.state = itemFieldOperation ∨ e.state = itemFieldInvalid := by
        cases hst : e.stage <;> simp_all [Entry.state]
      have hvalid : (if e.single then itemFieldValidSingle else itemFieldValid) = itemFieldValid ∨
          (if e.single then itemFieldValidSingle else itemFieldValid) = itemFieldValidSingle := by
        cases e.single
        · exact .inl rfl
        · exact .inr rfl
      have hlen : (e.idx off).resv.length = 8 := by
        change e.resv.length = 8
        rw [hresv, sizeofNvInfoIdx, hc]
        rfl
      exact crcIdx_state_ne hc hlen hstate hvalid

section Run
variable {c : NvCfg} {id : Nat} {f : Flash}

/-- **When an index entry passes its CRC check.** In every state reached by any calls, cut anywhere,
an entry with an item passes the check, and lets the next item follow it, in the 8-byte layout
always, in the 16-byte layout exactly while its state byte says that it is valid. -/
theorem idxCrcCheck_iff (hid : id < dsMaxModuls) (hf : Reach c id (InTable c id) f) {s i : Nat}
    (hs : s < moduleSectorNum) (hi : i < moduleIdxNum c id) {idx : NvInfoIdx}
    (hidx : readInfoIdx c f (idxAddr c id s i) = idx) (hflag : itemFlagCheck idx.usedState = true)
    (hoft : itemOftCheck c idx.offset idx.size id s = true)
    (hhdr : (readItemHdr f idx.offset).used = itemHdrFieldValidCheckcrc) :
    (idxCrcCheck c idx (readItemHdr f idx.offset) = true ↔
        c.idxResv = false ∨ itemValidFlagCheck idx.usedState = true) ∧
      ((nvItemPlace c f id s (i + 1)).isSome = true ↔
        c.idxResv = false ∨ itemValidFlagCheck idx.usedState = true) := by
  obtain ⟨m, hrep⟩ := hf.moduleRep_any hid
  obtain ⟨marked, es, htable⟩ := hrep.hasTable hs
  have hcrc : idxCrcCheck c idx (readItemHdr f idx.offset) = true ↔
      c.idxResv = false ∨ itemValidFlagCheck idx.usedState = true := by
    by_cases hin : i < es.length
    · obtain rfl := (htable.readInfoIdx_entry hid hs hin).symm.trans hidx
      have hhas : es[i].stage.hasHdr = true := by
        by_contra hno
        rw [Bool.not_eq_true] at hno
        rw [show (es[i].idx (itemOff c id s (es.take i))).offset = itemOff c id s (es.take i) from rfl,
          htable.readItemHdr_noHdr hin hno] at hhdr
        exact absurd hhdr (by decide)
      have hread := htable.readItemHdr_entry hin hhas
      have hiff := Entry.crc_iff (htable.resv_length hin) (itemOff c id s (es.take i))
      rw [← hread] at hiff
      exact hiff
    · -- a free slot fails the check of its place
      obtain ⟨o, st, hread, -, -⟩ := htable.readInfoIdx_idle hid hs (Nat.le_of_not_lt hin) hi
      obtain rfl := hread.symm.trans hidx
      exact absurd (hoft.symm.trans (idleIdx_oft c o st s)) (by decide)
  refine ⟨hcrc, ?_⟩
  rw [← hcrc, nvItemPlace, if_neg (Nat.succ_ne_zero i), Nat.add_sub_cancel, hidx]
  simp only [hhdr, hflag, hoft, decide_true, Bool.true_and, Bool.and_self, if_true]
  cases idxCrcCheck c idx (readItemHdr f idx.offset) <;> rfl

end Run

/-- The item of a first write to an erased module. -/
theorem idxCrcCheck_iff_first :
    idxCrcCheck ⟨false, true⟩
        (readInfoIdx ⟨false, true⟩ ((nvFlashWriteNew ⟨false, true⟩ true true 0 1 [0x42]).final fun _ => 0xff)
          (idxAddr ⟨false, true⟩ 0 0 0))
        (readItemHdr ((nvFlashWriteNew ⟨false, true⟩ true true 0 1 [0x42]).final fun _ => 0xff) 0x34100) =
        true ↔
      (⟨false, true⟩ : NvCfg).idxResv = false ∨ itemValidFlagCheck
        (readInfoIdx ⟨false, true⟩ ((nvFlashWriteNew ⟨false, true⟩ true true 0 1 [0x42]).final fun _ => 0xff)
          (idxAddr ⟨false, true⟩ 0 0 0)).usedState = true :=
  (@idxCrcCheck_iff ⟨false, true⟩ 0 _ (by decide)
    (.call (k := .write true true 1 [0x42]) (.erased (f := fun _ => 0xff) fun _ _ => rfl) trivial
      (Prog.cut_final _ _)) 0 0 (by decide) (by decide) _ rfl (by decide +kernel) (by decide +kernel)
    (by decide +kernel)).1

/-- In the 16-byte layout, item 1 of module 0 is written and its index 0 deleted: the entry fails
the check and the next write of any item is refused. -/
theorem idxCrcCheck_deleted : ∃ f, Reach ⟨false, true⟩ 0 (InTable ⟨false, true⟩ 0) f ∧
    (readItemHdr f 0x34100).used = itemHdrFieldValidCheckcrc ∧
    idxCrcCheck ⟨false, true⟩ (readInfoIdx ⟨false, true⟩ f (idxAddr ⟨false, true⟩ 0 0 0))
      (readItemHdr f 0x34100) = false ∧
    (nvFlashWriteNew ⟨false, true⟩ true true 0 2 [0x43]).value f = .itemCheckError := by
  refine ⟨(nvItemDeleteByIndex ⟨false, true⟩ 0 0 0).final
    ((nvFlashWriteNew ⟨false, true⟩ true true 0 1 [0x42]).final fun _ => 0xff), ?_, ?_⟩
  · exact .call (k := .delete 0 0) (.call (k := .write true true 1 [0x42])
      (.erased (f := fun _ => 0xff) fun _ _ => rfl) trivial (Prog.cut_final _ _))
      ⟨by decide, by decide⟩ (Prog.cut_final _ _)
  · decide +kernel

end Rf4ce.Nv

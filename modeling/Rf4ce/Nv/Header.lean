import Rf4ce.Nv.Records

/-! Sector headers: which of the two sectors `nv_sector_read` selects. -/
namespace Rf4ce.Nv
open Crash Drv Common

theorem mkSectInfo_opSect {id : Nat} {q : Byte} (hq : q < 4) :
    (mkSectInfo id q).opSect &&& 0x03 = q := by
  simp only [mkSectInfo]
  generalize (xcrc32 [BitVec.ofNat 8 id, q] 0xffffffff).setWidth 8 = x
  revert x q
  decide

theorem mkSectInfo_crcCheck {id : Nat} {q : Byte} (hq : q < 4) :
    nvSectInfoCrcCheck (mkSectInfo id q) = true := by
  simp only [nvSectInfoCrcCheck, mkSectInfo_opSect hq, decide_eq_true_eq]
  simp only [mkSectInfo]
  generalize xcrc32 [BitVec.ofNat 8 id, q] 0xffffffff = x
  have hbits : ((x.setWidth 8 <<< 2 ||| q) >>> 2 &&& 0x3f : Byte) = x.setWidth 8 &&& 0x3f := by
    generalize x.setWidth 8 = y
    revert y q
    decide
  have hmask (n : Nat) : n &&& 63 = n % 64 := Nat.and_two_pow_sub_one_eq_mod n 6
  have h32 : (0x3f : BitVec 32).toNat = 63 := rfl
  have h8 : (0x3f : Byte).toNat = 63 := rfl
  rw [hbits]
  refine BitVec.eq_of_toNat_eq ?_
  simp only [BitVec.toNat_and, BitVec.toNat_setWidth, h32, h8, hmask]
  omega

/-- The successor of a 2-bit sequence number. -/
def seqNext (q : Byte) : Byte := (q + 1) &&& 0x03

def seqPrev (q : Byte) : Byte := (q + 3) &&& 0x03

/-- A sector whose header is complete and current. -/
def SectValid (c : NvCfg) (id : Nat) (f : Flash) (s : Nat) (q : Byte) : Prop :=
  bytes f (moduleSectStart c id s) 4 = (mkSectInfo id q).encode

/-- A sector that the selection passes over: erased, unfinished or invalidated. -/
def SectDead (c : NvCfg) (id : Nat) (f : Flash) (s : Nat) : Prop :=
  let u := (readSectInfo f (moduleSectStart c id s)).usedFlag
  u ≠ nvSectorValid ∧ u ≠ nvSectorValidCheckcrc ∧ u ≠ nvSectorValidReadyCheckcrc

/-- The sector that carries the sequence number `q`. -/
def sectOf (q : Byte) : Nat := q.toNat % 2

/-- Headers with the current sector numbered `q`: the other one is out of use, or its
invalidation is still to come. -/
structure Headers (c : NvCfg) (id : Nat) (f : Flash) (q : Byte) : Prop where
  seq : q < 4
  op : SectValid c id f (sectOf q) q
  other : SectDead c id f (1 - sectOf q) ∨ SectValid c id f (1 - sectOf q) (seqPrev q)

theorem sectOf_lt (q : Byte) : sectOf q < 2 := Nat.mod_lt _ (by decide)

theorem seqNext_lt (q : Byte) : seqNext q < 4 := by
  revert q
  decide

theorem seqPrev_lt (q : Byte) : seqPrev q < 4 := by
  revert q
  decide

theorem seqPrev_seqNext {q : Byte} (hq : q < 4) : seqPrev (seqNext q) = q := by
  revert q
  decide

theorem sectOf_seqNext (q : Byte) : sectOf (seqNext q) = 1 - sectOf q := by
  revert q
  decide

theorem sectOf_seqPrev (q : Byte) : sectOf (seqPrev q) = 1 - sectOf q := by
  revert q
  decide

theorem readSectInfo_valid {c : NvCfg} {id : Nat} {f : Flash} {s : Nat} {q : Byte}
    (h : SectValid c id f s q) : readSectInfo f (moduleSectStart c id s) = mkSectInfo id q :=
  readSectInfo_of_bytes h (show nvSectorValidCheckcrc < 65536 by decide)

theorem SectDead.of_erased {c : NvCfg} {id : Nat} {f : Flash} {s : Nat}
    (h : ∀ x, moduleSectStart c id s ≤ x → x < moduleSectStart c id s + 4 → f x = 0xff) :
    SectDead c id f s := by
  have hb : bytes f (moduleSectStart c id s) 4 = (⟨0xffff, 0xff, 0xff⟩ : NvSectInfo).encode :=
    bytes_const h
  unfold SectDead
  rw [readSectInfo_of_bytes hb (by decide)]
  decide

/-- The header of an invalidated sector. -/
theorem SectDead.of_flag {c : NvCfg} {id : Nat} {f : Flash} {s : Nat}
    (h : bytes f (moduleSectStart c id s) 2 = le16 nvSectorInvalid) : SectDead c id f s := by
  have hu : (readSectInfo f (moduleSectStart c id s)).usedFlag = nvSectorInvalid := by
    simp only [readSectInfo, flashRead_eq, NvSectInfo.decode, sizeofNvSectInfo]
    rw [bytes_append f _ 2 2, h, List.take_left' (le16_length _), ofLe_le16 (by decide)]
  unfold SectDead
  rw [hu]
  decide

theorem SectValid.congr {c : NvCfg} {id : Nat} {f g : Flash} {s : Nat} {q : Byte}
    (h : SectValid c id f s q)
    (hg : ∀ x, moduleSectStart c id s ≤ x → x < moduleSectStart c id s + 4 → g x = f x) :
    SectValid c id g s q := by
  unfold SectValid at h ⊢
  rw [bytes_congr hg, h]

theorem SectDead.congr {c : NvCfg} {id : Nat} {f g : Flash} {s : Nat} (h : SectDead c id f s)
    (hg : ∀ x, moduleSectStart c id s ≤ x → x < moduleSectStart c id s + 4 → g x = f x) :
    SectDead c id g s := by
  have hr : readSectInfo g (moduleSectStart c id s) = readSectInfo f (moduleSectStart c id s) := by
    unfold readSectInfo sizeofNvSectInfo
    rw [flashRead_eq, flashRead_eq, bytes_congr hg]
  unfold SectDead at h ⊢
  rwa [hr]

theorem Headers.congr {c : NvCfg} {id : Nat} {f g : Flash} {q : Byte} (h : Headers c id f q)
    (hg : ∀ s, s < 2 → ∀ x, moduleSectStart c id s ≤ x → x < moduleSectStart c id s + 4 → g x = f x) :
    Headers c id g q := by
  have hs := sectOf_lt q
  refine ⟨h.seq, h.op.congr (hg _ hs), ?_⟩
  rcases h.other with hother | hother
  · exact .inl (hother.congr (hg _ (by omega)))
  · exact .inr (hother.congr (hg _ (by omega)))

theorem nvSectorScan_dead {id : Nat} {s : NvSectInfo} {rest : List NvSectInfo} {n prev vn : Nat}
    (h : s.usedFlag ≠ nvSectorValid ∧ s.usedFlag ≠ nvSectorValidCheckcrc ∧
      s.usedFlag ≠ nvSectorValidReadyCheckcrc) :
    nvSectorScan id (s :: rest) n prev vn = nvSectorScan id rest n prev vn := by
  simp [nvSectorScan, sectValidCheck, h]

theorem nvSectorScan_valid {id : Nat} (hid : id < 256) {q : Byte} (hq : q < 4)
    {rest : List NvSectInfo} {n prev vn : Nat} :
    nvSectorScan id (mkSectInfo id q :: rest) n prev vn =
      if n + 1 ≥ 2 then
        if max q.toNat prev - min q.toNat prev = 1 then max q.toNat prev else min q.toNat prev
      else nvSectorScan id rest (n + 1) q.toNat q.toNat := by
  have hflag : (mkSectInfo id q).usedFlag = nvSectorValidCheckcrc := rfl
  have hname : (mkSectInfo id q).idName.toNat = id := by
    simp only [mkSectInfo, BitVec.toNat_ofNat]
    omega
  rw [nvSectorScan]
  simp only [mkSectInfo_opSect hq, mkSectInfo_crcCheck hq, hflag, hname, sectValidCheck]
  simp [nvSectorValid, nvSectorValidCheckcrc, nvSectorValidReadyCheckcrc]

theorem readSectInfos_eq (c : NvCfg) (f : Flash) (id : Nat) :
    readSectInfos c f id =
      [readSectInfo f (moduleSectStart c id 0), readSectInfo f (moduleSectStart c id 1)] := by
  simp [readSectInfos, moduleSectorNum, moduleSectStart, List.range_succ]

/-- With no sector in use the scan finds none. -/
theorem nvSectorScan_fresh {c : NvCfg} {id : Nat} {f : Flash} (h₀ : SectDead c id f 0)
    (h₁ : SectDead c id f 1) : nvSectorScan id (readSectInfos c f id) 0 0 0xff = 0xff := by
  rw [readSectInfos_eq, nvSectorScan_dead h₀, nvSectorScan_dead h₁]
  rfl

private theorem seq_pick {q : Byte} (hq : q < 4) :
    (if max q.toNat (seqPrev q).toNat - min q.toNat (seqPrev q).toNat = 1 then
      max q.toNat (seqPrev q).toNat else min q.toNat (seqPrev q).toNat) = q.toNat := by
  revert q
  decide

/-- Of two valid sectors the scan selects the later one, also across the wrap from 3 to 0. -/
theorem nvSectorScan_headers {c : NvCfg} {id : Nat} (hid : id < 256) {f : Flash} {q : Byte}
    (h : Headers c id f q) : nvSectorScan id (readSectInfos c f id) 0 0 0xff = q.toNat := by
  obtain ⟨hq, hop, hother⟩ := h
  have hop' := readSectInfo_valid hop
  have hp := seqPrev_lt q
  rw [readSectInfos_eq]
  obtain hs | hs : sectOf q = 0 ∨ sectOf q = 1 := by
    have := sectOf_lt q
    omega
  · rw [hs] at hop' hother
    rw [hop', nvSectorScan_valid hid hq]
    rcases hother with hdead | hvalid
    · rw [nvSectorScan_dead hdead]
      rfl
    · rw [readSectInfo_valid hvalid, nvSectorScan_valid hid hp, Nat.max_comm (seqPrev q).toNat,
        Nat.min_comm (seqPrev q).toNat]
      exact seq_pick hq
  · rw [hs] at hop' hother
    rw [hop']
    rcases hother with hdead | hvalid
    · rw [nvSectorScan_dead hdead, nvSectorScan_valid hid hq]
      rfl
    · rw [readSectInfo_valid hvalid, nvSectorScan_valid hid hp, nvSectorScan_valid hid hq]
      exact seq_pick hq

/-! ### `nv_sector_read` -/

theorem mkSectInfo_sect {id : Nat} {q : Byte} (hq : q < 4) :
    (mkSectInfo id q).opSect.toNat % moduleSectorNum = sectOf q := by
  have h := @mkSectInfo_opSect id q hq
  generalize (mkSectInfo id q).opSect = x at h
  revert x q
  decide

theorem program_invalid {f : Flash} {a : Nat} {s : NvSectInfo} (h : bytes f a 4 = s.encode)
    (hs : s.usedFlag = nvSectorValidCheckcrc) :
    bytes (f.program a (le16 nvSectorInvalid)) a 2 = le16 nvSectorInvalid := by
  have h0 : bytes f a 2 = le16 nvSectorValidCheckcrc := by
    have h1 := bytes_sub h 0 2 (by omega)
    rwa [NvSectInfo.encode, hs, List.drop_zero, List.take_left' (le16_length _)] at h1
  exact bytes_program h0 rfl (by decide)

/-- Programming the invalid mark over a valid header takes the sector out of use. -/
theorem SectValid.invalidate {c : NvCfg} {id : Nat} {f : Flash} {s : Nat} {q : Byte}
    (h : SectValid c id f s q) :
    SectDead c id (f.program (moduleSectStart c id s) (le16 nvSectorInvalid)) s :=
  .of_flag (program_invalid h rfl)

/-- A two-byte mark at a sector start is one page program. -/
theorem pageCut_mark {c : NvCfg} {id s m : Nat} (h : PageCut (moduleSectStart c id s) 2 m) :
    m = 0 ∨ m = 2 := by
  have := moduleSectStart_mod c id s
  obtain ⟨h₁, h₂⟩ := h
  omega

/-- The headers of the two sectors do not meet. -/
theorem sectStart_apart (c : NvCfg) (id : Nat) (q : Byte) :
    moduleSectStart c id (sectOf q) + 4096 ≤ moduleSectStart c id (1 - sectOf q) ∨
      moduleSectStart c id (1 - sectOf q) + 4096 ≤ moduleSectStart c id (sectOf q) := by
  have hs := sectOf_lt q
  have hend (s : Nat) : moduleSectStart c id s + 4096 ≤ moduleSectEnd c id s := by
    rw [moduleSectEnd_eq]
    rcases moduleInfoSize_cases id with ⟨-, h⟩ | ⟨-, h⟩ <;> omega
  obtain h | h : sectOf q = 0 ∨ sectOf q = 1 := by omega
  · rw [h]
    exact .inl (Nat.le_trans (hend 0) (moduleSect_disjoint c id (by decide)))
  · rw [h]
    exact .inr (Nat.le_trans (hend 0) (moduleSect_disjoint c id (by decide)))

/-- Without a sector in use nothing is found and nothing is programmed. -/
theorem nvSectorRead_fresh {c : NvCfg} {id : Nat} {f : Flash} {fw : Bool} {R : Nat → Prop}
    (h₀ : SectDead c id f 0) (h₁ : SectDead c id f 1) :
    wp R (nvSectorRead c fw id) (fun r g => r = (.itemNotFound, none) ∧ g = f) (fun g => g = f) f := by
  refine wp_bind (wp_query ?_ rfl)
  rw [nvSectorScan_fresh h₀ h₁]
  exact wp_pure ⟨rfl, rfl⟩ rfl

theorem seq_toNat_ne {q : Byte} (hq : q < 4) : ¬ q.toNat = 0xff := by
  revert q
  decide

/-- The two headers that `nv_sector_read` looks up again after the scan. -/
theorem readSectInfos_getD {c : NvCfg} {id : Nat} {f : Flash} {q : Byte} (h : Headers c id f q) :
    (readSectInfos c f id).getD (q.toNat % moduleSectorNum) default = mkSectInfo id q ∧
      (q.toNat + 1) % moduleSectorNum = 1 - sectOf q ∧
      (readSectInfos c f id).getD (1 - sectOf q) default =
        readSectInfo f (moduleSectStart c id (1 - sectOf q)) := by
  have hs := sectOf_lt q
  have hop := readSectInfo_valid h.op
  rw [readSectInfos_eq]
  obtain hs' | hs' : sectOf q = 0 ∨ sectOf q = 1 := by omega
  · rw [hs'] at hop ⊢
    refine ⟨?_, ?_, rfl⟩
    · change List.getD _ (sectOf q) default = _
      rw [hs', ← hop]
      rfl
    · unfold sectOf at hs'
      unfold moduleSectorNum
      omega
  · rw [hs'] at hop ⊢
    refine ⟨?_, ?_, rfl⟩
    · change List.getD _ (sectOf q) default = _
      rw [hs', ← hop]
      rfl
    · unfold sectOf at hs'
      unfold moduleSectorNum
      omega

theorem mkSectInfo_not_ready (id : Nat) (q : Byte) :
    ¬ (mkSectInfo id q).usedFlag = nvSectorValidReadyCheckcrc := by
  change ¬ nvSectorValidCheckcrc = nvSectorValidReadyCheckcrc
  decide

/-- A reader finds the current sector. -/
theorem nvSectorRead_read {c : NvCfg} {id : Nat} (hid : id < 256) {f : Flash} {q : Byte}
    (h : Headers c id f q) {R : Nat → Prop} :
    wp R (nvSectorRead c false id) (fun r g => r = (.succ, some (mkSectInfo id q)) ∧ g = f)
      (fun g => g = f) f := by
  obtain ⟨hop, -, -⟩ := readSectInfos_getD h
  refine wp_bind (wp_query ?_ rfl)
  rw [nvSectorScan_headers hid h]
  simp only [hop, seq_toNat_ne h.seq, if_false, Bool.false_and, Bool.false_eq_true]
  refine wp_bind (wp_pure ?_ rfl)
  exact wp_pure ⟨rfl, rfl⟩ rfl

/-- A writer finds the current sector and first invalidates the other one if that is still to
be done. -/
theorem nvSectorRead_write {c : NvCfg} {id : Nat} (hid : id < 256) {f : Flash} {q : Byte}
    (h : Headers c id f q) :
    wp (fun x => moduleSectStart c id (1 - sectOf q) ≤ x ∧ x < moduleSectStart c id (1 - sectOf q) + 2)
      (nvSectorRead c true id)
      (fun r g => r = (.succ, some (mkSectInfo id q)) ∧ Headers c id g q ∧ SectDead c id g (1 - sectOf q))
      (fun g => Headers c id g q ∧ (g = f ∨ SectDead c id g (1 - sectOf q))) f := by
  obtain ⟨hop, hdel', hdel⟩ := readSectInfos_getD h
  have hready := mkSectInfo_not_ready id q
  have hnow : Headers c id f q ∧ (f = f ∨ SectDead c id f (1 - sectOf q)) := ⟨h, .inl rfl⟩
  refine wp_bind (wp_query ?_ hnow)
  rw [nvSectorScan_headers hid h]
  simp only [hop, hdel, hdel', hready, seq_toNat_ne h.seq, if_false, decide_false, Bool.and_false,
    Bool.false_eq_true]
  refine wp_bind (wp_pure ?_ hnow)
  rcases h.other with hdead | hvalid
  · have hflag : sectValidCheck (readSectInfo f (moduleSectStart c id (1 - sectOf q))) = false := by
      simp [sectValidCheck, hdead.1, hdead.2.1]
    rw [hflag]
    exact wp_pure ⟨rfl, h, hdead⟩ hnow
  · -- the other sector still carries its old header
    have hdead := hvalid.invalidate
    have hg : Headers c id (f.program (moduleSectStart c id (1 - sectOf q)) (le16 nvSectorInvalid)) q := by
      refine ⟨h.seq, h.op.congr fun x h₁ h₂ => ?_, .inl hdead⟩
      have happart := sectStart_apart c id q
      exact program_outside _ _ _ (by rw [le16_length]; omega)
    have hflag : sectValidCheck (readSectInfo f (moduleSectStart c id (1 - sectOf q))) = true := by
      rw [readSectInfo_valid hvalid]
      rfl
    rw [hflag]
    refine wp_bind (flashWrite_wp (fun x h₁ h₂ => ⟨h₁, h₂⟩) ?_ ?_)
    · intro m hm
      rcases pageCut_mark hm with rfl | rfl
      · rw [List.take_zero, program_nil]
        exact hnow
      · exact ⟨hg, .inr hdead⟩
    · exact wp_pure ⟨rfl, hg, hdead⟩ ⟨hg, .inr hdead⟩

end Rf4ce.Nv

import Rf4ce.Nv.Cleanup

/-! What a refused `nv_flashWriteNew` leaves of the items: before it gives up, the change of the
sector has cleaned the old one up. -/
namespace Rf4ce.Nv
open Crash Drv Common

/-! ### The statuses of the parts -/

theorem nvStorePayload_yields (itemId : Byte) (addr : Nat) (buf : List Byte) :
    (nvStorePayload itemId addr buf).Yields fun r => ∀ ret, r = .error ret → ret ≠ .notEnoughSapce := by
  apply yields_bind
  apply yields_any
  intro _
  apply yields_bind
  apply yields_any
  intro crcDst
  split_ifs
  · exact yields_pure fun ret h => by cases h
  · refine yields_pure fun ret h => ?_
    cases h
    exact fun h => by cases h

theorem nvWriteItem_yields (c : NvCfg) (single : Bool) (id : Nat) (itemId : Byte) (opSect i len : Nat)
    (buf : List Byte) :
    (nvWriteItem c single id itemId opSect i len (.ram buf)).Yields fun r => r ≠ .notEnoughSapce := by
  apply yields_bind
  apply yields_any
  intro place
  cases place with
  | none => exact yields_pure (by simp)
  | some place =>
    apply yields_ite
    · intro _
      exact yields_pure (by simp)
    · intro _
      apply yields_bind
      apply yields_any
      intro ok
      cases ok with
      | false => exact yields_pure (by simp)
      | true =>
        apply yields_bind
        refine (nvStorePayload_yields itemId _ buf).mono fun r hr => ?_
        cases r with
        | error ret => exact yields_pure (hr ret rfl)
        | ok p =>
          apply yields_bind
          apply yields_any
          intro ok
          cases ok with
          | false => exact yields_pure (by simp)
          | true =>
            apply yields_bind
            apply yields_any
            intro _
            exact yields_pure (by simp)

theorem nvPutItem_yields (c : NvCfg) (single : Bool) (id : Nat) (itemId : Byte) (opSect i : Nat)
    (buf : List Byte) : (nvPutItem c single id itemId opSect i buf).Yields fun r => r ≠ .notEnoughSapce := by
  apply yields_bind
  apply yields_any
  intro deleteIdx
  apply yields_bind
  refine (nvWriteItem_yields c single id itemId opSect i _ buf).mono fun r hr => ?_
  split_ifs
  · exact yields_pure hr
  · apply yields_bind
    apply yields_any
    intro ok
    cases ok <;> exact yields_pure (by simp)

theorem nvCommitItem_yields (c : NvCfg) (id opSect i : Nat) :
    (nvCommitItem c id opSect i).Yields fun r => r ≠ .notEnoughSapce := by
  unfold nvCommitItem
  split_ifs
  · apply yields_bind
    apply yields_any
    intro _
    exact yields_pure (by simp)
  · exact yields_pure (by simp)

theorem nvCommitUpdate_yields (c : NvCfg) (id oldSect opSect : Nat) (seq : Byte) :
    (nvCommitUpdate c id oldSect opSect seq).Yields fun r => r ≠ .notEnoughSapce := by
  apply yields_bind
  apply yields_any
  intro ok
  cases ok with
  | false => exact yields_pure (by simp)
  | true =>
    apply yields_bind
    apply yields_any
    intro _
    exact yields_pure (by simp)

/-- Putting an item and committing it never ends for want of space. -/
theorem putAndCommit_yields (c : NvCfg) (single : Bool) (id : Nat) (itemId : Byte) (opSect i : Nat)
    (buf : List Byte) {commit : FlashM NvSts} (hc : commit.Yields fun r => r ≠ .notEnoughSapce) :
    (do
      let ret ← nvPutItem c single id itemId opSect i buf
      if ret ≠ .succ then pure ret else commit : FlashM NvSts).Yields fun r => r ≠ .notEnoughSapce := by
  apply yields_bind
  refine (nvPutItem_yields c single id itemId opSect i buf).mono fun r hr => ?_
  split_ifs
  · exact yields_pure hr
  · exact hc

/-! ### What a full sector costs -/

section Update
variable {c : NvCfg} {id s s' : Nat} {marked single : Bool} {itemId : Byte} {f : Flash} {es : List Entry}
variable (hid : id < dsMaxModuls) (hs : s < 2) (hs' : s' < 2) (hne : s ≠ s')

/-- The clean-up has been here: what it deletes in `f` is invalid. -/
def Invalidated (c : NvCfg) (id s : Nat) (single : Bool) (itemId : Byte) (f g : Flash) : Prop :=
  ∀ i, Deleted c f id s single itemId i → g (stateAddr c id s i) = itemFieldInvalid

/-- The index table of a sector lies between its header and its items. -/
theorem idxEntry_outside {g : Flash}
    (hg : ∀ x, moduleSectStart c id s + 4 ≤ x → x < moduleContextStart c id s → g x = f x) :
    ∀ i < moduleIdxNum c id, idxEntry c g id s i = idxEntry c f id s i := by
  intro i hi
  have hlow := idxAddr_lower c id s i
  have hup := @idxAddr_upper c id s i hi
  exact idxEntry_congr fun x h₁ h₂ => hg x (by omega) (by omega)

theorem Invalidated.congr {g g' : Flash} (h : Invalidated c id s single itemId f g)
    (hg : ∀ x, moduleSectStart c id s + 4 ≤ x → x < moduleContextStart c id s → g' x = g x) :
    Invalidated c id s single itemId f g' := by
  intro i hdel
  obtain ⟨hlow, hup⟩ := @idxAddr_state_region c id s i hdel.lt
  exact (hg _ hlow hup).trans (h i hdel)

include hid hs hs' hne in
/-- A sector change invalidates what the clean-up deletes in the old sector. -/
theorem nvSectorUpdate_invalidated (hrep : SectorRep c id s marked f es) (len : Nat) :
    wp (fun _ => True) (nvSectorUpdate c true single id itemId len s s')
      (fun _ => Invalidated c id s single itemId f) (fun _ => True) f := by
  have happart := sect_apart c id hne
  have hin := sect_inner c id s
  have hin' := sect_inner c id s'
  apply wp_seq (eraseSect_wp c id s' f)
  · exact fun _ _ => trivial
  · exact fun _ _ _ => trivial
  intro _ g₁ herased hframe
  have hrep₁ : SectorRep c id s marked g₁ es := hrep.congr fun x h₁ h₂ => hframe x (by omega)
  have hclean : wp (fun _ => True) (nvExceptionDataHandler c true single s id itemId)
      (fun _ => Invalidated c id s single itemId f) (fun _ => True) g₁ := by
    refine wp_of_result fun i hdel => ?_
    have hdel₁ : Deleted c g₁ id s single itemId i :=
      hdel.congr (idxEntry_outside fun x h₁ h₂ => hframe x (by omega))
    exact (nvExceptionDataHandler_cleaned c id s single itemId g₁).invalid i (Nat.zero_le i) hdel.lt hdel₁
  apply wp_seq (wp_and (nvExceptionDataHandler_wp hid hs hrep₁ true single itemId) hclean)
  · exact fun _ _ => trivial
  · exact fun _ _ _ => trivial
  intro _ g₂ hpost hframe₂
  obtain ⟨⟨es', -, hrep₂⟩, hinv⟩ := hpost
  have hempty : SectorRep c id s' false g₂ [] := by
    refine .of_erased fun x h₁ h₂ => ?_
    rw [hframe₂ x fun hd => ?_, herased x (by omega) h₂]
    have hidx := hd.index hrep₁.count
    omega
  apply wp_bind
  refine wp_query ?_ trivial
  -- the copy does not touch the old sector, and no write follows it
  have hlast (p : Prop) [Decidable p] (r r' : Except NvSts Nat) {g : Flash}
      (hg : Invalidated c id s single itemId f g) :
      wp (fun _ => True) (if p then (pure r : FlashM (Except NvSts Nat)) else pure r')
        (fun _ => Invalidated c id s single itemId f) (fun _ => True) g := by
    split_ifs
    · exact wp_pure hg trivial
    · exact wp_pure hg trivial
  cases nvSectInfoCheck c g₂ s id with
  | false =>
    refine wp_bind (wp_pure ?_ trivial)
    exact hlast _ _ _ hinv
  | true =>
    apply wp_seq (nvCompactLoop_all hid hs hs' hne hrep₂.toSectorTable hempty)
    · exact fun _ _ => trivial
    · exact fun _ _ _ => trivial
    intro r g₃ _ hframe₃
    have hinv₃ := hinv.congr fun x h₁ h₂ => hframe₃ x (by omega)
    cases r with
    | fail ret => exact wp_pure hinv₃ trivial
    | next st => exact hlast _ _ _ hinv₃
    | stop st => exact hlast _ _ _ hinv₃

end Update

section Full
variable {c : NvCfg} {id : Nat} {alloc single : Bool} {itemId : Byte} {buf : List Byte} {f : Flash}

/-- The flash a call for want of space may have changed. -/
def GivenUp (c : NvCfg) (id s : Nat) (alloc single : Bool) (itemId : Byte) (es : List Entry) (x : Nat) :
    Prop :=
  moduleSectStart c id (1 - s) ≤ x ∧ x < moduleSectEnd c id (1 - s) ∨
    DuplicateByte c id s alloc single itemId es x

variable (hid : id < dsMaxModuls)
include hid

theorem nvStoreItem_full {q : Byte} {es : List Entry} (h : ModuleRep c id false f (.active q es))
    (hdead : SectDead c id f (1 - sectOf q)) (hlen : itemTotalLen buf.length ≤ 65536) (seq : Byte)
    (slot : Option Nat) :
    wp (fun _ => True) (nvStoreItem c alloc single id itemId buf (sectOf q) seq slot)
      (fun r g => r = .notEnoughSapce →
        (∀ x, ¬ GivenUp c id (sectOf q) alloc single itemId es x → g x = f x) ∧
        (alloc = true → Invalidated c id (sectOf q) single itemId f g))
      (fun _ => True) f := by
  have hs := sectOf_lt q
  have hnum : (sectOf q + 1) % moduleSectorNum = 1 - sectOf q := by
    unfold moduleSectorNum
    omega
  cases slot with
  | some w =>
    have hyields := putAndCommit_yields c single id itemId (sectOf q) w buf
      (nvCommitItem_yields c id (sectOf q) w)
    exact wp_mono (hyields.wp f) (fun r g hr hfull => absurd hfull hr) fun _ h => h
  | none =>
    rw [nvStoreItem, hnum]
    cases h with
    | active headers rep used table =>
      have hupdate := @nvSectorUpdate_wp c id (sectOf q) (1 - sectOf q) false single itemId f es hid hs
        (by omega) (by omega) alloc _ hlen q headers.op rep hdead table
      have hinv : wp (fun _ => True) (nvSectorUpdate c alloc single id itemId buf.length (sectOf q) (1 - sectOf q))
          (fun _ g => alloc = true → Invalidated c id (sectOf q) single itemId f g) (fun _ => True) f := by
        cases alloc with
        | false => exact wp_of_result fun halloc => absurd halloc Bool.false_ne_true
        | true =>
          have hne : sectOf q ≠ 1 - sectOf q := by omega
          apply wp_mono (nvSectorUpdate_invalidated hid hs (by omega) hne rep buf.length)
          · exact fun _ _ hg _ => hg
          · exact fun _ h => h
      apply wp_seq (wp_and hupdate hinv)
      · exact fun _ _ => trivial
      · exact fun _ _ _ => trivial
      intro r g hpost hframe
      cases r with
      | error ret => exact wp_pure (fun _ => ⟨fun x hx => hframe x hx, hpost.2⟩) trivial
      | ok i =>
        have hyields := putAndCommit_yields c single id itemId (1 - sectOf q) i buf
          (nvCommitUpdate_yields c id (sectOf q) (1 - sectOf q) (seq + 1))
        exact wp_mono (hyields.wp g) (fun r g hr hfull => absurd hfull hr) fun _ h => h

/-- A call that ends for want of space has touched the spare sector and the duplicates, and has
invalidated these. -/
theorem nvFlashWriteNew_full {q : Byte} {es : List Entry} (h : ModuleRep c id false f (.active q es))
    (hlen : ¬ nvSectorSize id < itemTotalLen buf.length + moduleInfoSize id) :
    wp (fun _ => True) (nvFlashWriteNewHandler c alloc single id itemId buf)
      (fun r g => r = .notEnoughSapce →
        (∀ x, ¬ GivenUp c id (sectOf q) alloc single itemId es x → g x = f x) ∧
        (alloc = true → Invalidated c id (sectOf q) single itemId f g))
      (fun _ => True) f := by
  have hs := sectOf_lt q
  have hlen' : itemTotalLen buf.length ≤ 65536 := by
    rcases moduleInfoSize_cases id with ⟨h, h'⟩ | ⟨h, h'⟩ <;> omega
  have happart := sect_apart c id (show sectOf q ≠ 1 - sectOf q by omega)
  have hin := sect_inner c id (sectOf q)
  have hin' := sect_inner c id (1 - sectOf q)
  rw [nvFlashWriteNewHandler, if_neg hlen]
  apply wp_seq (nvOperationSector_active hid h)
  · exact fun _ _ => trivial
  · exact fun _ _ _ => trivial
  intro r g hpost hframe
  obtain ⟨rfl, hmod, hdead⟩ := hpost
  apply wp_bind
  refine wp_query ?_ trivial
  apply wp_mono (nvStoreItem_full hid hmod hdead hlen' _ _)
  · intro r g₂ hpost hfull
    obtain ⟨hkeep, hinv⟩ := hpost hfull
    constructor
    · intro x hx
      rw [hkeep x hx, hframe x]
      intro hspare
      exact hx (.inl (by omega))
    · intro halloc i hdel
      have htable : ∀ j < moduleIdxNum c id, idxEntry c g id (sectOf q) j = idxEntry c f id (sectOf q) j :=
        idxEntry_outside fun x h₁ h₂ => hframe x (by omega)
      exact hinv halloc i (hdel.congr htable)
  · exact fun _ h => h

end Full

/-! ### What is still read -/

/-- Entry `j` is the next match below `i` that the clean-up leaves. -/
def NextKept (c : NvCfg) (f : Flash) (id s : Nat) (single : Bool) (itemId b : Byte) (len i j : Nat) : Prop :=
  j < i ∧ nvIndexMatch b len (idxEntry c f id s j) = true ∧ ¬ Deleted c f id s single itemId j ∧
    ∀ k, j < k → k < i → nvIndexMatch b len (idxEntry c f id s k) = true → Deleted c f id s single itemId k

/-- Where a search ends at an entry that the clean-up deletes, the next match it leaves reads the
same. Under the id of a free slot the search ends at the last entry, which stays. -/
def LeavesReads (c : NvCfg) (g : NvItemLenCheck) (f : Flash) (id s : Nat) (single : Bool) (itemId : Byte) :
    Prop :=
  ∀ b len i, b ≠ itemFieldIdle → nvIndexRead c f id b len s (moduleIdxNum c id) = some i →
    Deleted c f id s single itemId i → ∃ j, NextKept c f id s single itemId b len i j ∧
      nvFlashReadByIndex c g f id b s j len = nvFlashReadByIndex c g f id b s i len

/-- If the call has to change the sector, the clean-up costs no read. -/
def FailsQuietly (c : NvCfg) (g : NvItemLenCheck) (f : Flash) (alloc single : Bool) (id : Nat)
    (itemId : Byte) (len : Nat) : Prop :=
  alloc = true → itemTotalLen len + moduleInfoSize id ≤ nvSectorSize id →
    ∀ s, nvOpSect c f id = some s → nvFindSlot c f id len s = none → LeavesReads c g f id s single itemId

/-- The log `es'` is `es` with the duplicates deleted and nothing else. -/
structure CleanedLog (single : Bool) (itemId : Byte) (es es' : List Entry) : Prop extends
    Shadowed es es' where
  kept : ∀ i (h : i < es.length) (h' : i < es'.length), ¬ Duplicate single itemId es i → es'[i] = es[i]
  dropped : ∀ i (h : i < es'.length), Duplicate single itemId es i → es'[i].stage ≠ .valid

section Log
variable {single : Bool} {itemId b : Byte} {es es' : List Entry} {p : Entry → Bool}

theorem Entry.found_valid {len : Nat} {e : Entry} (h : e.found itemId len = true) : e.stage = .valid := by
  simp only [found, Bool.and_eq_true, decide_eq_true_eq] at h
  exact h.1.1

theorem CleanedLog.test_iff (h : CleanedLog single itemId es es') (hp : ∀ e, p e = true → e.stage = .valid)
    {i : Nat} (hi : i < es.length) (hi' : i < es'.length) :
    p es'[i] = true ↔ p es[i] = true ∧ ¬ Duplicate single itemId es i := by
  constructor
  · intro hpi
    have hstay : ¬ Duplicate single itemId es i := fun hdup => h.dropped i hi' hdup (hp _ hpi)
    rw [h.kept i hi hi' hstay] at hpi
    exact ⟨hpi, hstay⟩
  · intro hpi
    rw [h.kept i hi hi' hpi.2]
    exact hpi.1

/-- The last match is deleted: the one that takes its place. -/
theorem CleanedLog.lastEntry_iff (h : CleanedLog single itemId es es')
    (hp : ∀ e, p e = true → e.stage = .valid) {i : Nat} (hi : LastEntry p es (some i))
    (hdup : Duplicate single itemId es i) (j : Nat) :
    LastEntry p es' (some j) ↔ j < i ∧ (∃ hj : j < es.length, p es[j] = true) ∧
      ¬ Duplicate single itemId es j ∧
      ∀ k (hk : k < es.length), j < k → k < i → p es[k] = true → Duplicate single itemId es k := by
  have hlen := h.length
  obtain ⟨hin, -, hlast⟩ := hi
  constructor
  · rintro ⟨hj', hpj, hlast'⟩
    have hj : j < es.length := by omega
    obtain ⟨hpj, hstay⟩ := (h.test_iff hp hj hj').mp hpj
    refine ⟨?_, ⟨hj, hpj⟩, hstay, fun k hk hjk _ hpk => ?_⟩
    · by_contra hij
      rcases Nat.eq_or_lt_of_le (Nat.le_of_not_lt hij) with rfl | hlt
      · exact hstay hdup
      · exact absurd ((hlast j hj hlt).symm.trans hpj) Bool.false_ne_true
    · by_contra hk'
      have hpk' := (h.test_iff hp hk (by omega)).mpr ⟨hpk, hk'⟩
      exact absurd ((hlast' k (by omega) hjk).symm.trans hpk') Bool.false_ne_true
  · rintro ⟨hji, ⟨hj, hpj⟩, hstay, hbetween⟩
    refine ⟨by omega, (h.test_iff hp hj (by omega)).mpr ⟨hpj, hstay⟩, fun k hk' hjk => ?_⟩
    by_contra hpk'
    rw [Bool.not_eq_false] at hpk'
    have hk : k < es.length := by omega
    obtain ⟨hpk, hk'⟩ := (h.test_iff hp hk hk').mp hpk'
    rcases Nat.lt_trichotomy k i with hlt | rfl | hgt
    · exact hk' (hbetween k hk hjk hlt hpk)
    · exact hk' hdup
    · exact absurd ((hlast k hk hgt).symm.trans hpk) Bool.false_ne_true

/-- Under the id of a free slot the clean-up does not show. -/
theorem Shadowed.newest_idle (h : Shadowed es es') (len : Nat) :
    newest itemFieldIdle len es' = newest itemFieldIdle len es := by
  have hlen := h.length
  have hlast : es'.getLast? = es.getLast? := by
    by_cases hnil : es.length = 0
    · rw [List.eq_nil_of_length_eq_zero hnil, List.eq_nil_of_length_eq_zero (hlen.trans hnil)]
    · have hi : es.length - 1 < es.length := by omega
      have hi' : es.length - 1 < es'.length := by omega
      rw [getLast?_eq_some hi (by omega), getLast?_eq_some hi' (by omega)]
      rcases h.entry _ hi hi' with heq | ⟨-, -, j, hj, hij, -⟩
      · rw [heq]
      · omega
  rw [newest, newest, if_pos rfl, if_pos rfl, hlast]

theorem newest_last (hne : b ≠ itemFieldIdle) {len : Nat} {r : Option Nat}
    (hr : LastEntry (Entry.found b len) es r) : newest b len es = r.bind fun i => es[i]? := by
  rw [newest, if_neg hne, lastEntry_filter hr]

end Log

section Visible
variable {c : NvCfg} {id s : Nat} {alloc single : Bool} {itemId b : Byte} {f g : Flash} {es es' : List Entry}
variable (hid : id < dsMaxModuls) (hs : s < 2)
include hid hs

/-- Only duplicates are deleted when the flash changes as a call for want of space changes it. -/
theorem SectorTable.kept (hf : SectorTable c id s false f es) (hg : SectorTable c id s false g es')
    (h : Shadowed es es')
    (hframe : ∀ x, ¬ GivenUp c id s alloc single itemId es x → g x = f x) {i : Nat}
    (hi : i < es.length) (hi' : i < es'.length) (hdup : ¬ (alloc = true ∧ Duplicate single itemId es i)) :
    es'[i] = es[i] := by
  have hcount := hf.count
  have hrecord : readInfoIdx c g (idxAddr c id s i) = readInfoIdx c f (idxAddr c id s i) := by
    have hlow := idxAddr_lower c id s i
    have hup := @idxAddr_upper c id s i (by omega)
    have hend := contextStart_le_sectEnd c id s
    have happart := sect_apart c id (show s ≠ 1 - s by omega)
    refine idxEntry_congr fun x h₁ h₂ => hframe x ?_
    rintro (hspare | ⟨halloc, j, hj, rfl⟩)
    · omega
    · -- the state byte of another entry lies outside the record
      have hij : i ≠ j := by
        rintro rfl
        exact hdup ⟨halloc, hj⟩
      exact ne_stateAddr hij h₁ h₂ rfl
  rcases h.entry i hi hi' with heq | ⟨hv, hdrop, -⟩
  · exact heq
  · rw [hf.readInfoIdx_entry hid hs hi, hg.readInfoIdx_entry hid hs hi'] at hrecord
    have hstate : es'[i].state = es[i].state := congrArg NvInfoIdx.usedState hrecord
    have hflag := congrArg itemValidFlagCheck hstate
    rw [Entry.state_validFlag, Entry.state_validFlag, hv, hdrop] at hflag
    simp [Entry.drop] at hflag

theorem SectorTable.idxEntry_eq (h : SectorTable c id s false f es) {i : Nat} (hi : i < es.length) :
    idxEntry c f id s i = es[i].idx (itemOff c id s (es.take i)) := h.readInfoIdx_entry hid hs hi

theorem SectorTable.keptOnce_idxEntry (h : SectorTable c id s false f es) {i : Nat} (hi : i < es.length) :
    nvKeptOnce single itemId (idxEntry c f id s i) = es[i].keptOnce single itemId := by
  rw [h.idxEntry_eq hid hs hi]
  exact Entry.keptOnce_idx single itemId es[i] _

theorem SectorTable.match_idxEntry (h : SectorTable c id s false f es) (hne : b ≠ itemFieldIdle) (len : Nat)
    {i : Nat} (hi : i < es.length) :
    nvIndexMatch b len (idxEntry c f id s i) = es[i].found b len := by
  rw [h.idxEntry_eq hid hs hi]
  exact nvIndexMatch_entry hne len (h.size_lt hi) _

/-- The entries the clean-up deletes are the duplicates of the log. -/
theorem SectorTable.deleted_iff (h : SectorTable c id s false f es) (i : Nat) :
    Deleted c f id s single itemId i ↔ Duplicate single itemId es i := by
  have hcount := h.count
  have hused {j : Nat} (hj : j < moduleIdxNum c id)
      (hkept : nvKeptOnce single itemId (idxEntry c f id s j) = true) : j < es.length := by
    by_contra hout
    obtain ⟨o, st, hread, -, hst⟩ := h.readInfoIdx_idle hid hs (Nat.le_of_not_lt hout) hj
    rcases hst with rfl | ⟨hm, -⟩
    · have hflag : itemValidFlagCheck (idleIdx c o itemFieldIdle).usedState = false := rfl
      rw [idxEntry, hread, nvKeptOnce, hflag, Bool.false_and] at hkept
      exact Bool.false_ne_true hkept
    · exact absurd hm Bool.false_ne_true
  have hitem {j : Nat} (hj : j < es.length) : (idxEntry c f id s j).itemId = es[j].itemId := by
    rw [h.idxEntry_eq hid hs hj]
    rfl
  constructor
  · intro hdel
    have hi := hdel.lt
    obtain ⟨hkept, j, hij, hj, hkept', hsame⟩ := hdel
    have hi := hused hi hkept
    have hj := hused hj hkept'
    rw [h.keptOnce_idxEntry hid hs hi] at hkept
    rw [h.keptOnce_idxEntry hid hs hj] at hkept'
    rw [hitem hi, hitem hj] at hsame
    exact ⟨hi, hkept, j, hj, hij, hkept', hsame⟩
  · intro hdup
    obtain ⟨hi, hkept, j, hj, hij, hkept', hsame⟩ := hdup
    rw [← h.keptOnce_idxEntry hid hs hi] at hkept
    rw [← h.keptOnce_idxEntry hid hs hj] at hkept'
    rw [← hitem hi, ← hitem hj] at hsame
    exact ⟨hkept, j, hij, by omega, hkept', hsame⟩

/-- A call for want of space leaves the log with its duplicates deleted. -/
theorem SectorTable.cleanedLog (hf : SectorTable c id s false f es) (hg : SectorTable c id s false g es')
    (h : Shadowed es es') (hframe : ∀ x, ¬ GivenUp c id s true single itemId es x → g x = f x)
    (hinv : Invalidated c id s single itemId f g) : CleanedLog single itemId es es' := by
  refine ⟨h, fun i hi hi' hstay => ?_, fun i hi' hdup hv => ?_⟩
  · exact hf.kept hid hs hg h hframe hi hi' fun hdup => hstay hdup.2
  · have hstate := hinv i ((hf.deleted_iff hid hs i).mpr hdup)
    rw [← idxEntry_usedState c id s g i, hg.idxEntry_eq hid hs hi'] at hstate
    have hflag : itemValidFlagCheck es'[i].state = true := by
      rw [Entry.state_validFlag, hv]
      rfl
    rw [show es'[i].state = itemFieldInvalid from hstate] at hflag
    exact absurd hflag (by decide)

/-- The match that takes the place of a deleted one. -/
theorem SectorTable.nextKept_iff (h : SectorTable c id s false f es) (hclean : CleanedLog single itemId es es')
    (hne : b ≠ itemFieldIdle) {len i : Nat} (hi : LastEntry (Entry.found b len) es (some i))
    (hdup : Duplicate single itemId es i) (j : Nat) :
    NextKept c f id s single itemId b len i j ↔ LastEntry (Entry.found b len) es' (some j) := by
  rw [hclean.lastEntry_iff (fun _ => Entry.found_valid) hi hdup j]
  have hin : i < es.length := hi.1
  constructor
  · rintro ⟨hji, hmatch, hstay, hbetween⟩
    have hj : j < es.length := by omega
    rw [h.match_idxEntry hid hs hne len hj] at hmatch
    rw [h.deleted_iff hid hs] at hstay
    refine ⟨hji, ⟨hj, hmatch⟩, hstay, fun k hk hjk hki hfound => ?_⟩
    rw [← h.match_idxEntry hid hs hne len hk] at hfound
    exact (h.deleted_iff hid hs k).mp (hbetween k hjk hki hfound)
  · rintro ⟨hji, ⟨hj, hfound⟩, hstay, hbetween⟩
    rw [← h.match_idxEntry hid hs hne len hj] at hfound
    rw [← h.deleted_iff hid hs] at hstay
    refine ⟨hji, hfound, hstay, fun k hjk hki hmatch => ?_⟩
    have hk : k < es.length := by omega
    rw [h.match_idxEntry hid hs hne len hk] at hmatch
    exact (h.deleted_iff hid hs k).mpr (hbetween k hk hjk hki hmatch)

/-- A read whose match is deleted goes to the next one that stays. -/
theorem SectorTable.read_deleted_iff (h : SectorTable c id s false f es)
    (hclean : CleanedLog single itemId es es') (g : NvItemLenCheck) (hne : b ≠ itemFieldIdle) {len i : Nat}
    (hi : LastEntry (Entry.found b len) es (some i)) (hdup : Duplicate single itemId es i) :
    readEntry g b (newest b len es') = readEntry g b (newest b len es) ↔
      ∃ j, NextKept c f id s single itemId b len i j ∧
        nvFlashReadByIndex c g f id b s j len = nvFlashReadByIndex c g f id b s i len := by
  have hin : i < es.length := hi.1
  have hread := nvFlashReadByIndex_entry hid hs h g hin hi.2.1
  have hnext (j : Nat) := h.nextKept_iff hid hs hclean hne hi hdup j
  have hold : readEntry g b (newest b len es) = nvFlashReadByIndex c g f id b s i len := by
    rw [newest_last hne hi, hread, Option.bind_some, List.getElem?_eq_getElem hin]
    rfl
  obtain ⟨r, hr⟩ := exists_lastEntry (Entry.found b len) es'
  rw [hold, newest_last hne hr]
  cases r with
  | none =>
    -- nothing is left to read
    rw [hread]
    refine iff_of_false (by simp [readEntry]) ?_
    rintro ⟨j, hj, -⟩
    exact absurd (LastEntry.unique hr ((hnext j).mp hj)) (by simp)
  | some j =>
    obtain ⟨-, ⟨hj, hfound⟩, hstay, -⟩ :=
      (hclean.lastEntry_iff (fun _ => Entry.found_valid) hi hdup j).mp hr
    have hj' : j < es'.length := hr.1
    have hread' := nvFlashReadByIndex_entry hid hs h g hj hfound
    have hnow : readEntry g b ((some j).bind fun i => es'[i]?) = nvFlashReadByIndex c g f id b s j len := by
      rw [Option.bind_some, List.getElem?_eq_getElem hj', hclean.kept j hj hj' hstay, hread']
      rfl
    rw [hnow]
    constructor
    · exact fun hsame => ⟨j, (hnext j).mpr hr, hsame⟩
    · rintro ⟨k, hk, hsame⟩
      obtain rfl := Option.some.inj (LastEntry.unique hr ((hnext k).mp hk))
      exact hsame

/-- The reads of one id and length. -/
theorem SectorTable.read_iff (h : SectorTable c id s false f es) (hclean : CleanedLog single itemId es es')
    (g : NvItemLenCheck) (hne : b ≠ itemFieldIdle) (len : Nat) :
    readEntry g b (newest b len es') = readEntry g b (newest b len es) ↔
      ∀ i, nvIndexRead c f id b len s (moduleIdxNum c id) = some i → Deleted c f id s single itemId i →
        ∃ j, NextKept c f id s single itemId b len i j ∧
          nvFlashReadByIndex c g f id b s j len = nvFlashReadByIndex c g f id b s i len := by
  have hlast := nvIndexRead_item hid hs h hne len
  generalize nvIndexRead c f id b len s (moduleIdxNum c id) = r at hlast
  by_cases hdel : ∃ i, r = some i ∧ Duplicate single itemId es i
  · obtain ⟨i, rfl, hdup⟩ := hdel
    rw [h.read_deleted_iff hid hs hclean g hne hlast hdup]
    simp only [Option.some.injEq, forall_eq', (h.deleted_iff hid hs i).mpr hdup, forall_const]
  · -- what the search finds stays
    have hstays : newest b len es' = newest b len es := by
      rw [newest, newest, if_neg hne, if_neg hne]
      refine hclean.toShadowed.filter_getLast? (fun _ => Entry.found_valid) fun i hi hi' hr => ?_
      exact hclean.kept i hi hi' fun hdup => hdel ⟨i, hlast.unique hr, hdup⟩
    rw [hstays]
    refine iff_of_true rfl fun i hi hdup => ?_
    exact absurd ⟨i, hi, (h.deleted_iff hid hs i).mp hdup⟩ hdel

/-- The clean-up costs no read exactly where every deleted match has a copy behind it. -/
theorem SectorTable.reads_iff (h : SectorTable c id s false f es) (hclean : CleanedLog single itemId es es')
    (g : NvItemLenCheck) :
    (∀ b len, readEntry g b (newest b len es') = readEntry g b (newest b len es)) ↔
      LeavesReads c g f id s single itemId := by
  constructor
  · intro hreads b len i hne
    exact (h.read_iff hid hs hclean g hne len).mp (hreads b len) i
  · intro hleaves b len
    by_cases hidle : b = itemFieldIdle
    · rw [hidle, hclean.toShadowed.newest_idle]
    · exact (h.read_iff hid hs hclean g hidle len).mpr fun i => hleaves b len i hidle

end Visible

section Failed
variable {c : NvCfg} {id : Nat} {alloc single : Bool} {itemId : Byte} {buf : List Byte} {f : Flash}
variable (hid : id < dsMaxModuls) (hfc : id ≠ dsNwkFramecountModule)
include hid hfc

/-- **Failed writes.** A call that fails leaves every read as it was exactly when it fails quietly. -/
theorem nvFlashWriteNew_failed_unchanged_iff (hf : Reach c id AnyItem f)
    (hfail : (nvFlashWriteNew c alloc single id itemId buf).value f ≠ .succ) (g : NvItemLenCheck) :
    (∀ other len,
      (nvFlashReadNew c g id other len).value ((nvFlashWriteNew c alloc single id itemId buf).final f) =
        (nvFlashReadNew c g id other len).value f) ↔
      FailsQuietly c g f alloc single id itemId buf.length := by
  obtain ⟨m, hrep⟩ := hf.contents hid hfc
  have hcall : nvFlashWriteNew c alloc single id itemId buf =
      nvFlashWriteNewHandler c alloc single id itemId buf := by rw [nvFlashWriteNew, if_neg hfc]
  by_cases hlong : nvSectorSize id < itemTotalLen buf.length + moduleInfoSize id
  · rw [hcall, nvFlashWriteNewHandler, if_pos hlong]
    exact iff_of_true (fun _ _ => rfl) fun _ hfits => absurd hfits (Nat.not_le_of_lt hlong)
  obtain ⟨m', hend, hrep'⟩ :=
    wp_result (@nvFlashWriteNew_wp c id false single itemId buf f hid m hrep hfc alloc)
  have hreads (other : Byte) (len : Nat) :
      ((nvFlashReadNew c g id other len).value ((nvFlashWriteNew c alloc single id itemId buf).final f) =
        (nvFlashReadNew c g id other len).value f) ↔
        readEntry g other (m'.newest other len) = readEntry g other (m.newest other len) := by
    rw [(wp_result (nvFlashReadNew_newest hid hfc hrep g other len)).1,
      (wp_result (nvFlashReadNew_newest hid hfc hrep' g other len)).1]
  simp only [hreads]
  have hlen : itemTotalLen buf.length ≤ 65536 := by
    rcases moduleInfoSize_cases id with ⟨h, h'⟩ | ⟨h, h'⟩ <;> omega
  generalize hr : (nvFlashWriteNew c alloc single id itemId buf).value f = r at hend hfail
  cases hend with
  | tooLong h => exact absurd h hlong
  | first => exact absurd rfl hfail
  | added => exact absurd rfl hfail
  | changed => exact absurd rfl hfail
  | @refused q es hroom =>
    -- a call that finds a slot does not clean up
    refine iff_of_true (fun _ _ => rfl) fun _ _ s hs hslot => ?_
    rw [nvOpSect_active hid hrep, Option.some.injEq] at hs
    subst hs
    rw [nvFindSlot_unmarked hid (sectOf_lt q) hrep.sectorTable hlen, if_pos hroom] at hslot
    cases hslot
  | @full q es es' hroom hshadow hfull =>
    have hs := sectOf_lt q
    have htable := hrep.sectorTable
    have htable' := hrep'.sectorTable
    have hframe := wp_result (@nvFlashWriteNew_full c id alloc single itemId buf f hid q es hrep hlong)
    rw [← hcall] at hframe
    obtain ⟨hkeep, hinv⟩ := hframe hr
    have hslot : nvFindSlot c f id buf.length (sectOf q) = none := by
      rw [nvFindSlot_unmarked hid hs htable hlen, if_neg (hroom rfl)]
    cases alloc with
    | false =>
      -- without a buffer there is no clean-up
      have hsame : es' = es := by
        refine List.ext_getElem hshadow.length fun i hi' hi => ?_
        exact htable.kept hid hs htable' hshadow hkeep hi hi' fun hdup => Bool.false_ne_true hdup.1
      rw [hsame]
      exact iff_of_true (fun _ _ => rfl) fun halloc => absurd halloc Bool.false_ne_true
    | true =>
      have hclean := htable.cleanedLog hid hs htable' hshadow hkeep (hinv rfl)
      refine (htable.reads_iff hid hs hclean g).trans ?_
      constructor
      · intro hleaves _ _ s hsect _
        rw [nvOpSect_active hid hrep, Option.some.injEq] at hsect
        exact hsect ▸ hleaves
      · exact fun hquiet => hquiet rfl (Nat.le_of_not_lt hlong) _ (nvOpSect_active hid hrep) hslot

end Failed

/-- An item one byte too long for the sector that holds item 1 already. -/
def longItem : List Byte := List.replicate 3832 0

/-- Item 1 written twice without `single`, which leaves both, and then with it, which retires the
second; a version of two bytes follows. -/
def copiedItem : Flash :=
  (nvFlashWriteNew ⟨false, false⟩ true true 0 1 [0x44, 0x45]).final
    ((nvFlashWriteNew ⟨false, false⟩ true true 0 1 [0x41, 0x42, 0x43]).final
      ((nvFlashWriteNew ⟨false, false⟩ true false 0 1 [0x41, 0x42, 0x43]).final
        ((nvFlashWriteNew ⟨false, false⟩ true false 0 1 [0x41, 0x42, 0x43]).final fun _ => 0xff)))

theorem copiedItem_reach : Reach ⟨false, false⟩ 0 AnyItem copiedItem := by
  refine .call (k := .write true true 1 [0x44, 0x45]) ?_ trivial (Prog.cut_final _ _)
  refine .call (k := .write true true 1 [0x41, 0x42, 0x43]) ?_ trivial (Prog.cut_final _ _)
  refine .call (k := .write true false 1 [0x41, 0x42, 0x43]) ?_ trivial (Prog.cut_final _ _)
  exact .call (k := .write true false 1 [0x41, 0x42, 0x43]) (.erased fun _ _ => rfl) trivial (Prog.cut_final _ _)

/-- The entries 2 and 3 count as single, and entry 0 is a copy of entry 2. -/
theorem copiedItem_table :
    (∀ j < moduleIdxNum ⟨false, false⟩ 0,
      nvKeptOnce true 2 (idxEntry ⟨false, false⟩ copiedItem 0 0 j) = true → j = 2 ∨ j = 3) ∧
    (idxEntry ⟨false, false⟩ copiedItem 0 0 2).itemId = 1 ∧
    (idxEntry ⟨false, false⟩ copiedItem 0 0 2).size = itemTotalLen 3 ∧
    itemValidFlagCheck (idxEntry ⟨false, false⟩ copiedItem 0 0 1).usedState = false ∧
    ∀ len ∈ [1, 3], nvIndexMatch 1 len (idxEntry ⟨false, false⟩ copiedItem 0 0 0) = true ∧
      nvFlashReadByIndex ⟨false, false⟩ .initial copiedItem 0 1 0 0 len =
        nvFlashReadByIndex ⟨false, false⟩ .initial copiedItem 0 1 0 2 len := by
  decide +kernel

/-- The clean-up deletes entry 2, and entry 0 stands in for it. -/
theorem copiedItem_leavesReads : LeavesReads ⟨false, false⟩ .initial copiedItem 0 0 true 2 := by
  intro b len i hne hread hdel
  obtain ⟨honly, hitem, hsize, hgone, hcopy⟩ := copiedItem_table
  obtain rfl : i = 2 := by
    have hi := honly i hdel.lt hdel.1
    obtain ⟨-, j, hij, hj, hkept, -⟩ := hdel
    have hj := honly j hj hkept
    omega
  have hlast := nvIndexRead_last ⟨false, false⟩ copiedItem 0 b len 0 (moduleIdxNum ⟨false, false⟩ 0)
  rw [hread] at hlast
  obtain ⟨-, hmatch, -⟩ := hlast
  change nvIndexMatch b len (idxEntry ⟨false, false⟩ copiedItem 0 0 2) = true at hmatch
  rw [nvIndexMatch, if_pos hne, hitem, hsize, Bool.and_eq_true, Bool.and_eq_true, decide_eq_true_iff] at hmatch
  obtain ⟨⟨-, rfl⟩, hmod⟩ := hmatch
  change decide (3 % len = 0) = true at hmod
  rw [decide_eq_true_iff] at hmod
  have hle : len ≤ 3 := Nat.le_of_dvd (by decide) (Nat.dvd_of_mod_eq_zero hmod)
  have hlen : len ∈ [1, 3] := (by decide : ∀ n ≤ 3, 3 % n = 0 → n ∈ [1, 3]) len hle hmod
  refine ⟨0, ⟨by decide, (hcopy len hlen).1, fun h => ?_, fun k hk hk' hmatch => ?_⟩, (hcopy len hlen).2⟩
  · exact absurd (honly 0 h.lt h.1) (by decide)
  · obtain rfl : k = 1 := by omega
    rw [nvIndexMatch, if_pos hne, hgone] at hmatch
    cases hmatch

/-- Item 1 is still read after item 2 was refused, from the copy, but not without one. -/
theorem nvFlashWriteNew_failed_unchanged_iff_copied :
    (∀ other len,
      (nvFlashReadNew ⟨false, false⟩ .initial 0 other len).value
          ((nvFlashWriteNew ⟨false, false⟩ true true 0 2 longItem).final copiedItem) =
        (nvFlashReadNew ⟨false, false⟩ .initial 0 other len).value copiedItem) ∧
    ¬ FailsQuietly ⟨false, false⟩ .initial resizedItem true true 0 2 longItem.length := by
  constructor
  · apply (nvFlashWriteNew_failed_unchanged_iff (by decide) (by decide) copiedItem_reach (by decide +kernel)
      .initial).mpr
    intro _ _ s hs _
    obtain rfl : 0 = s := Option.some.inj ((by decide +kernel : some 0 = nvOpSect _ copiedItem 0).trans hs)
    exact copiedItem_leavesReads
  · intro hquiet
    have hread := (nvFlashWriteNew_failed_unchanged_iff (by decide) (by decide) resizedItem_reach
      (by decide +kernel) .initial).mpr hquiet 1 3
    exact absurd hread (by decide +kernel)

/-- The refused item 2 costs the three-byte version of item 1. -/
theorem nvFlashWriteNew_failed_deletes :
    Reach ⟨false, false⟩ 0 AnyItem resizedItem ∧
      (nvFlashWriteNew ⟨false, false⟩ true true 0 2 longItem).value resizedItem = .notEnoughSapce ∧
      (nvFlashReadNew ⟨false, false⟩ .initial 0 1 3).value resizedItem =
        (.succ, some [0x41, 0x42, 0x43]) ∧
      (nvFlashReadNew ⟨false, false⟩ .initial 0 1 3).value
        ((nvFlashWriteNew ⟨false, false⟩ true true 0 2 longItem).final resizedItem) = (.itemNotFound, none) :=
  ⟨resizedItem_reach, by decide +kernel, by decide +kernel, by decide +kernel⟩

end Rf4ce.Nv

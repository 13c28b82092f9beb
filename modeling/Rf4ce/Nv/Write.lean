import Rf4ce.Nv.Compaction

/-! `nv_flashWriteNew` on the abstract contents of a module: what a completed call does, and
what may be left when the power fails. -/
namespace Rf4ce.Nv
open Crash Drv Common

/-- The contents of a module: nothing written yet, or the log of the current sector. -/
inductive Contents where
  | fresh
  | active (q : Byte) (es : List Entry)

/-- The flash of a module with the given contents. -/
inductive ModuleRep (c : NvCfg) (id : Nat) (marked : Bool) (f : Flash) : Contents → Prop where
  | fresh (dead₀ : SectDead c id f 0) (dead₁ : SectDead c id f 1)
      (table₀ : HasTable c id 0 f) (table₁ : HasTable c id 1 f) : ModuleRep c id marked f .fresh
  | active {q : Byte} {es : List Entry} (headers : Headers c id f q)
      (rep : SectorRep c id (sectOf q) marked f es) (used : es ≠ [])
      (table : HasTable c id (1 - sectOf q) f) : ModuleRep c id marked f (.active q es)

/-- A sector with a current header holds a log, also when it is only waiting to be
invalidated. -/
def Logs (c : NvCfg) (id : Nat) (marked : Bool) (f : Flash) : Prop :=
  ∀ s < 2, ∀ q, SectValid c id f s q → ∃ es, es ≠ [] ∧ SectorRep c id s marked f es

theorem SectDead.not_valid {c : NvCfg} {id : Nat} {f : Flash} {s : Nat} (h : SectDead c id f s) (q : Byte) :
    ¬ SectValid c id f s q := by
  intro hvalid
  unfold SectDead at h
  rw [readSectInfo_valid hvalid] at h
  exact h.2.1 rfl

theorem ModuleRep.logs_fresh {c : NvCfg} {id : Nat} {marked : Bool} {f : Flash}
    (h : ModuleRep c id marked f .fresh) : Logs c id marked f := by
  intro s hs q hvalid
  cases h with
  | fresh dead₀ dead₁ =>
    obtain rfl | rfl : s = 0 ∨ s = 1 := by omega
    · exact absurd hvalid (dead₀.not_valid q)
    · exact absurd hvalid (dead₁.not_valid q)

theorem ModuleRep.logs_active {c : NvCfg} {id : Nat} {marked : Bool} {f : Flash} {q : Byte} {es : List Entry}
    (h : ModuleRep c id marked f (.active q es)) (hdead : SectDead c id f (1 - sectOf q)) :
    Logs c id marked f := by
  intro s hs p hvalid
  cases h with
  | active headers rep used table =>
    have hq := sectOf_lt q
    by_cases hsq : s = sectOf q
    · subst hsq
      exact ⟨es, used, rep⟩
    · obtain rfl : s = 1 - sectOf q := by omega
      exact absurd hvalid (hdead.not_valid p)

/-- The flash that belongs to a module. -/
def InModule (c : NvCfg) (id x : Nat) : Prop := moduleSectStart c id 0 ≤ x ∧ x < moduleSectEnd c id 1

theorem inModule_of_sect {c : NvCfg} {id s x : Nat} (hs : s < 2) (h₁ : moduleSectStart c id s ≤ x)
    (h₂ : x < moduleSectEnd c id s) : InModule c id x := by
  have hdisj := moduleSect_disjoint c id (show 0 < 1 by decide)
  have hin := sect_inner c id 0
  have hin' := sect_inner c id 1
  unfold InModule
  obtain rfl | rfl : s = 0 ∨ s = 1 := by omega
  all_goals omega

/-- The entry a call adds behind the log `es`. -/
def newEntry (c : NvCfg) (single : Bool) (itemId : Byte) (buf : List Byte) (es : List Entry) : Entry :=
  ⟨itemId, single, .valid, nextResv c es, buf⟩

def retireAt (es : List Entry) : Option Nat → List Entry
  | none => es
  | some d => es.modify d Entry.drop

@[simp] theorem retireAt_length (es : List Entry) (d : Option Nat) : (retireAt es d).length = es.length := by
  cases d with
  | none => rfl
  | some d => exact List.length_modify ..

theorem retireAt_getElem {es : List Entry} {d k : Nat} (hk : k < es.length)
    (hk' : k < (retireAt es (some d)).length) :
    (retireAt es (some d))[k] = if d = k then es[k].drop else es[k] := List.getElem_modify ..

theorem modify_append (es es' : List Entry) {d : Nat} (hd : d < es.length) :
    (es ++ es').modify d Entry.drop = es.modify d Entry.drop ++ es' := by
  induction es generalizing d with
  | nil => exact absurd hd (Nat.not_lt_zero d)
  | cons e es ih =>
    cases d with
    | zero => rfl
    | succ d =>
      have hd' : d < es.length := Nat.lt_of_succ_lt_succ hd
      simp only [List.cons_append, List.modify_succ_cons, ih hd']

/-- The entry that a new item replaces. -/
structure Retires (single : Bool) (itemId : Byte) (len : Nat) (es : List Entry) (r : Option Nat) :
    Prop where
  inside : ∀ d, r = some d → d < es.length
  multi : single = false → r = none
  last : single = true → itemId ≠ itemFieldIdle → LastEntry (Entry.found itemId len) es r

section Put
variable {c : NvCfg} {id s : Nat} {single : Bool} {itemId : Byte} {g : Flash} {es : List Entry}
variable (hid : id < dsMaxModuls) (hs : s < 2)
include hid hs

theorem nvIndexRead_retires (h : SectorTable c id s false g es) (len : Nat) :
    Retires single itemId len es
      (if single then nvIndexRead c g id itemId len s (moduleIdxNum c id) else none) := by
  cases single with
  | false => exact ⟨fun d hd => (by cases hd), fun _ => rfl, fun hf => absurd hf Bool.false_ne_true⟩
  | true =>
    rw [if_pos rfl]
    by_cases hne : itemId = itemFieldIdle
    · subst hne
      refine ⟨fun d hd => ?_, fun hf => absurd hf.symm Bool.false_ne_true, fun _ hf => absurd rfl hf⟩
      rcases nvIndexRead_idle hid hs h len rfl with ⟨-, hr⟩ | ⟨hm, -⟩
      · rw [hd] at hr
        split_ifs at hr with hnil
        have hpos := List.length_pos_iff.mpr hnil
        have := Option.some.inj hr
        omega
      · exact absurd hm Bool.false_ne_true
    · have hlast := nvIndexRead_item hid hs h hne len
      refine ⟨fun d hd => ?_, fun hf => absurd hf.symm Bool.false_ne_true, fun _ _ => hlast⟩
      rw [hd] at hlast
      exact hlast.1

/-- The sector while an item is put into it. -/
inductive PutCut (c : NvCfg) (id s : Nat) (single : Bool) (itemId : Byte) (buf : List Byte)
    (es : List Entry) (g : Flash) : Prop where
  | append (h : AppendCut c id s es (newEntry c single itemId buf es) g)
  | retire (d : Option Nat) (hd : Retires single itemId buf.length es d)
      (h : SectorRep c id s false g (retireAt es d ++ [newEntry c single itemId buf es]))

omit hid hs in
theorem PutCut.rep {buf : List Byte} (h : PutCut c id s single itemId buf es g) :
    ∃ es', SectorRep c id s false g es' := by
  cases h with
  | append h =>
    rcases h with hr | ⟨e, -, hr⟩ | hr
    · exact ⟨_, hr⟩
    · exact ⟨_, hr⟩
    · exact ⟨_, hr⟩
  | retire d hd hr => exact ⟨_, hr⟩

omit hid hs in
/-- The mark that deletes an entry. -/
theorem dropEntry_wp (h : SectorRep c id s false g es) {d : Nat} (hd : d < es.length) :
    wp (fun x => idxAddr c id s d + staOffset ≤ x ∧ x < idxAddr c id s d + staOffset + 1)
      (flashWriteWithCheck (idxAddr c id s d + staOffset) [itemFieldInvalid])
      (fun ok g' => ok = true ∧ SectorRep c id s false g' (es.modify d Entry.drop))
      (fun g' => g' = g ∨ SectorRep c id s false g' (es.modify d Entry.drop)) g := by
  have hdrop := h.drop hd
  have hback : bytes (Flash.program g (idxAddr c id s d + staOffset) [itemFieldInvalid])
      (idxAddr c id s d + staOffset) [itemFieldInvalid].length = [itemFieldInvalid] := by
    have hbyte := bytes_sub (h.entry d hd).index staOffset 1 (staOffset_lt c)
    refine bytes_program hbyte rfl ?_
    change Programmable [(es[d]).state] [itemFieldInvalid]
    simp [Programmable, Entry.state_drop]
  apply flashWriteWithCheck_wp (by decide)
  · exact fun x h₁ h₂ => ⟨h₁, h₂⟩
  · intro m hm
    obtain ⟨hm₁, -⟩ := hm
    rw [List.length_singleton] at hm₁
    obtain rfl | rfl : m = 0 ∨ m = 1 := by omega
    · rw [List.take_zero, program_nil]
      exact .inl rfl
    · exact .inr hdrop
  · exact ⟨decide_eq_true hback, hdrop⟩

theorem nvPutItem_wp (h : SectorRep c id s false g es) (hn : es.length < moduleIdxNum c id)
    {buf : List Byte} (hlen : itemTotalLen buf.length < 65536) :
    wp (fun x => moduleSectStart c id s + 4 ≤ x ∧ x < moduleSectEnd c id s)
      (nvPutItem c single id itemId s es.length buf)
      (fun r g' =>
        if Accepts c id s buf.length es then
          r = .succ ∧ ∃ d, Retires single itemId buf.length es d ∧
            SectorRep c id s false g' (retireAt es d ++ [newEntry c single itemId buf es])
        else r = .itemCheckError ∧ g' = g)
      (PutCut c id s single itemId buf es) g := by
  have hd := @nvIndexRead_retires c id s single itemId g es hid hs h.toSectorTable buf.length
  apply wp_bind
  apply wp_query _ (.append (.inl h))
  generalize (if single then nvIndexRead c g id itemId buf.length s (moduleIdxNum c id) else none) = d at hd
  have hwrite := @nvWriteItem_wp c id s g es hid hs h hn (newEntry c single itemId buf es) rfl rfl hlen
    (.ram buf) fun g' _ hblank => nvStorePayload_stores (newEntry c single itemId buf es) hblank
  apply wp_bind
  apply wp_mono hwrite
  swap
  · exact fun g' hcut => .append hcut
  intro r g₁ hpost
  change if Accepts c id s buf.length es then _ else _ at hpost
  by_cases hacc : Accepts c id s buf.length es
  swap
  · rw [if_neg hacc] at hpost
    obtain ⟨rfl, rfl⟩ := hpost
    exact wp_pure (by rw [if_neg hacc]; exact ⟨rfl, rfl⟩) (.append (.inl h))
  rw [if_pos hacc] at hpost
  obtain ⟨rfl, hrep⟩ := hpost
  have hadded : PutCut c id s single itemId buf es g₁ := .append (.inr (.inr hrep))
  simp only [hacc, ne_eq, not_true_eq_false, if_false, if_true]
  cases d with
  | none =>
    apply wp_bind
    apply wp_pure _ hadded
    exact wp_pure ⟨rfl, none, hd, hrep⟩ hadded
  | some d =>
    have hin := hd.inside d rfl
    have hin' : d < (es ++ [newEntry c single itemId buf es]).length := by
      rw [List.length_append]
      omega
    have hmod : (es ++ [newEntry c single itemId buf es]).modify d Entry.drop =
        retireAt es (some d) ++ [newEntry c single itemId buf es] := by
      rw [modify_append _ _ hin]
      rfl
    have hstate := @idxAddr_state_region c id s d (by omega)
    have hend := contextStart_le_sectEnd c id s
    have hdrop := dropEntry_wp hrep hin'
    rw [hmod] at hdrop
    apply wp_seq hdrop
    · intro x hx
      omega
    · intro g₂ hcut _
      rcases hcut with rfl | hrep₂
      · exact hadded
      · exact .retire (some d) hd hrep₂
    intro ok g₂ hpost _
    obtain ⟨rfl, hrep₂⟩ := hpost
    exact wp_pure ⟨rfl, some d, hd, hrep₂⟩ (.retire (some d) hd hrep₂)

end Put

/-! ### The contents after a call -/

/-- The contents left when the power fails during a call. -/
inductive WriteCut (c : NvCfg) (single : Bool) (itemId : Byte) (buf : List Byte) :
    Contents → Contents → Prop where
  | same (m : Contents) : WriteCut c single itemId buf m m
  | cleaned {q : Byte} {es es' : List Entry} (h : Shadowed es es') :
      WriteCut c single itemId buf (.active q es) (.active q es')
  | unfinished {q : Byte} {es : List Entry} {e : Entry}
      (h : Unfinished (newEntry c single itemId buf es) e) :
      WriteCut c single itemId buf (.active q es) (.active q (es ++ [e]))
  | added {q : Byte} {es : List Entry} :
      WriteCut c single itemId buf (.active q es) (.active q (es ++ [newEntry c single itemId buf es]))
  | retired {q : Byte} {es : List Entry} {d : Option Nat} (h : Retires single itemId buf.length es d) :
      WriteCut c single itemId buf (.active q es)
        (.active q (retireAt es d ++ [newEntry c single itemId buf es]))
  | first : WriteCut c single itemId buf .fresh (.active 0 [newEntry c single itemId buf []])
  | changed {q : Byte} {es es' : List Entry} {d : Option Nat} (h : Shadowed es es')
      (hd : Retires single itemId buf.length (survivors c single itemId es') d) :
      WriteCut c single itemId buf (.active q es)
        (.active (seqNext q) (retireAt (survivors c single itemId es') d ++
          [newEntry c single itemId buf (survivors c single itemId es')]))

/-- The status and the contents after a completed call. -/
inductive WriteEnd (c : NvCfg) (id : Nat) (marked single : Bool) (itemId : Byte) (buf : List Byte) :
    Contents → NvSts → Contents → Prop where
  | tooLong {m : Contents} (h : nvSectorSize id < itemTotalLen buf.length + moduleInfoSize id) :
      WriteEnd c id marked single itemId buf m .notEnoughSapce m
  | first (h : itemTotalLen buf.length + moduleInfoSize id ≤ nvSectorSize id) :
      WriteEnd c id marked single itemId buf .fresh .succ (.active 0 [newEntry c single itemId buf []])
  | refused {q : Byte} {es : List Entry} (hroom : HasRoom c id (sectOf q) buf.length es)
      (hacc : ¬ Accepts c id (sectOf q) buf.length es) :
      WriteEnd c id marked single itemId buf (.active q es) .itemCheckError (.active q es)
  | added {q : Byte} {es : List Entry} {d : Option Nat} (hroom : HasRoom c id (sectOf q) buf.length es)
      (hacc : Accepts c id (sectOf q) buf.length es) (hd : Retires single itemId buf.length es d) :
      WriteEnd c id marked single itemId buf (.active q es) .succ
        (.active q (retireAt es d ++ [newEntry c single itemId buf es]))
  | full {q : Byte} {es es' : List Entry} (hroom : marked = false → ¬ HasRoom c id (sectOf q) buf.length es)
      (h : Shadowed es es')
      (hfull : (survivors c single itemId es').length = moduleIdxNum c id ∨
        itemOff c id (1 - sectOf q) (survivors c single itemId es') + itemTotalLen buf.length >
          moduleSectEnd c id (1 - sectOf q)) :
      WriteEnd c id marked single itemId buf (.active q es) .notEnoughSapce (.active q es')
  | changed {q : Byte} {es es' : List Entry} {d : Option Nat}
      (hroom : marked = false → ¬ HasRoom c id (sectOf q) buf.length es) (h : Shadowed es es')
      (hfits : (survivors c single itemId es').length < moduleIdxNum c id ∧
        itemOff c id (1 - sectOf q) (survivors c single itemId es') + itemTotalLen buf.length ≤
          moduleSectEnd c id (1 - sectOf q))
      (hd : Retires single itemId buf.length (survivors c single itemId es') d) :
      WriteEnd c id marked single itemId buf (.active q es) .succ
        (.active (seqNext q) (retireAt (survivors c single itemId es') d ++
          [newEntry c single itemId buf (survivors c single itemId es')]))

section Write
variable {c : NvCfg} {id : Nat} {marked single : Bool} {itemId : Byte} {buf : List Byte} {f : Flash}

/-- A header written to an erased place. -/
theorem program_header {s : Nat} (h : ∀ x, moduleSectStart c id s ≤ x → x < moduleSectStart c id s + 4 →
    f x = 0xff) (q : Byte) :
    SectValid c id (f.program (moduleSectStart c id s) (mkSectInfo id q).encode) s q :=
  bytes_program_erased h

theorem pageCut_header {s m : Nat} (h : PageCut (moduleSectStart c id s) 4 m) : m = 0 ∨ m = 4 := by
  have := moduleSectStart_mod c id s
  obtain ⟨h₁, h₂⟩ := h
  omega

/-- `nv_sector_read` changes at most the header of the sector out of use. -/
theorem ModuleRep.of_header {q : Byte} {es : List Entry} (h : ModuleRep c id marked f (.active q es))
    {g : Flash} (hhead : Headers c id g q)
    (hg : ∀ x, ¬ (moduleSectStart c id (1 - sectOf q) ≤ x ∧ x < moduleSectStart c id (1 - sectOf q) + 2) →
      g x = f x) : ModuleRep c id marked g (.active q es) := by
  cases h with
  | active headers rep used table =>
    have hapart := sectStart_apart c id q
    have hs := sectOf_lt q
    have hne : sectOf q ≠ 1 - sectOf q := by omega
    have happart := sect_apart c id hne
    have hin := sect_inner c id (sectOf q)
    have hin' := sect_inner c id (1 - sectOf q)
    exact .active hhead (rep.congr fun x h₁ h₂ => hg x (by omega)) used
      (table.congr fun x h₁ h₂ => hg x (by omega))

/-- Changes within the item area of the current sector. -/
theorem ModuleRep.of_rep {q : Byte} {es es' : List Entry} (h : ModuleRep c id marked f (.active q es))
    {g : Flash} (hrep : SectorRep c id (sectOf q) marked g es') (hused : es' ≠ [])
    (hg : ∀ x, ¬ (moduleSectStart c id (sectOf q) + 4 ≤ x ∧ x < moduleSectEnd c id (sectOf q)) →
      g x = f x) : ModuleRep c id marked g (.active q es') := by
  cases h with
  | active headers rep used table =>
    have hs := sectOf_lt q
    have hne : sectOf q ≠ 1 - sectOf q := by omega
    have happart := sect_apart c id hne
    have hin := sect_inner c id (1 - sectOf q)
    have hin' := sect_inner c id (sectOf q)
    refine .active (headers.congr fun s hs' x h₁ h₂ => hg x ?_) hrep hused
      (table.congr fun x h₁ h₂ => hg x (by omega))
    obtain rfl | rfl : s = sectOf q ∨ s = 1 - sectOf q := by omega
    all_goals omega

/-- The header of the next sector continues the numbering. -/
theorem mkSectInfo_next {q : Byte} (hq : q < 4) :
    ((mkSectInfo id q).opSect + 1) &&& 0x03 = seqNext q := by
  have h := @mkSectInfo_opSect id q hq
  generalize (mkSectInfo id q).opSect = x at h
  revert x q
  decide

/-- Until the new header is written the old sector counts. -/
theorem ModuleRep.of_old {q : Byte} {es : List Entry} (hq : q < 4) (hrep : SectorRep c id (sectOf q) marked f es)
    (hused : es ≠ []) (hvalid : SectValid c id f (sectOf q) q) (hdead : SectDead c id f (1 - sectOf q))
    (htable : HasTable c id (1 - sectOf q) f) :
    ModuleRep c id marked f (.active q es) ∧ Logs c id marked f := by
  have hmod : ModuleRep c id marked f (.active q es) := .active ⟨hq, hvalid, .inl hdead⟩ hrep hused htable
  exact ⟨hmod, hmod.logs_active hdead⟩

/-- The header of a sector is written as a whole or not at all. -/
theorem writeHeader_wp {s : Nat} (hhead : ∀ x, moduleSectStart c id s ≤ x → x < moduleSectStart c id s + 4 →
    f x = 0xff) (q : Byte) :
    wp (fun x => moduleSectStart c id s ≤ x ∧ x < moduleSectStart c id s + 4)
      (flashWriteWithCheck (moduleSectStart c id s) (mkSectInfo id q).encode)
      (fun ok g => ok = true ∧ SectValid c id g s q) (fun g => g = f ∨ SectValid c id g s q) f := by
  have hsel := program_header hhead q
  apply flashWriteWithCheck_wp (by rw [NvSectInfo.encode_length]; decide)
  · exact fun x h₁ h₂ => ⟨h₁, h₂⟩
  · intro m hm
    rcases pageCut_header hm with rfl | rfl
    · rw [List.take_zero, program_nil]
      exact .inl rfl
    · exact .inr hsel
  · exact ⟨decide_eq_true hsel, hsel⟩

/-- The header of the next sector makes it the current one. -/
theorem Headers.commit {q : Byte} (hq : q < 4) (hvalid : SectValid c id f (sectOf q) q)
    (hnew : SectValid c id f (1 - sectOf q) (seqNext q)) : Headers c id f (seqNext q) := by
  have hsect : sectOf (seqNext q) = 1 - sectOf q := sectOf_seqNext q
  have hback : 1 - (1 - sectOf q) = sectOf q := by
    have hs := sectOf_lt q
    omega
  constructor
  · exact seqNext_lt q
  · rw [hsect]
    exact hnew
  · rw [hsect, hback, seqPrev_seqNext hq]
    exact .inr hvalid

theorem commitHeader_wp {q : Byte} (hq : q < 4) (hvalid : SectValid c id f (sectOf q) q)
    (hhead : ∀ x, moduleSectStart c id (1 - sectOf q) ≤ x → x < moduleSectStart c id (1 - sectOf q) + 4 →
      f x = 0xff) :
    wp (fun x => moduleSectStart c id (1 - sectOf q) ≤ x ∧ x < moduleSectStart c id (1 - sectOf q) + 4)
      (flashWriteWithCheck (moduleSectStart c id (1 - sectOf q)) (mkSectInfo id (seqNext q)).encode)
      (fun ok g => ok = true ∧ Headers c id g (seqNext q) ∧ SectValid c id g (sectOf q) q)
      (fun g => g = f ∨ Headers c id g (seqNext q)) f := by
  have hapart := sectStart_apart c id q
  have hkeep {g : Flash} (hg : ∀ x, ¬ (moduleSectStart c id (1 - sectOf q) ≤ x ∧
      x < moduleSectStart c id (1 - sectOf q) + 4) → g x = f x) : SectValid c id g (sectOf q) q :=
    hvalid.congr fun x h₁ h₂ => hg x (by omega)
  apply wp_mono (wp_frame (writeHeader_wp hhead (seqNext q)))
  · intro ok g hpost
    obtain ⟨⟨hok, hnew⟩, hg⟩ := hpost
    exact ⟨hok, .commit hq (hkeep hg) hnew, hkeep hg⟩
  · intro g hcut
    obtain ⟨rfl | hnew, hg⟩ := hcut
    · exact .inl rfl
    · exact .inr (.commit hq (hkeep hg) hnew)

/-- The old sector is given up. -/
theorem Headers.giveUp {q : Byte} (h : Headers c id f (seqNext q)) (hvalid : SectValid c id f (sectOf q) q) :
    Headers c id (f.program (moduleSectStart c id (sectOf q)) (le16 nvSectorInvalid)) (seqNext q) := by
  have hapart := sectStart_apart c id q
  have hop := h.op
  have hsect : sectOf (seqNext q) = 1 - sectOf q := sectOf_seqNext q
  have hback : 1 - (1 - sectOf q) = sectOf q := by
    have hs := sectOf_lt q
    omega
  have hinv : (le16 nvSectorInvalid).length = 2 := rfl
  rw [hsect] at hop
  constructor
  · exact h.seq
  · rw [hsect]
    exact hop.congr fun x h₁ h₂ => program_outside _ _ _ (by omega)
  · rw [hsect, hback]
    exact .inl hvalid.invalidate

theorem giveUp_wp {q : Byte} (h : Headers c id f (seqNext q)) (hvalid : SectValid c id f (sectOf q) q) :
    wp (fun x => moduleSectStart c id (sectOf q) ≤ x ∧ x < moduleSectStart c id (sectOf q) + 2)
      (flashWriteWithCheck (moduleSectStart c id (sectOf q)) (le16 nvSectorInvalid))
      (fun ok g => ok = true ∧ Headers c id g (seqNext q)) (fun g => Headers c id g (seqNext q)) f := by
  have hlast := h.giveUp hvalid
  apply flashWriteWithCheck_wp (by decide)
  · exact fun x h₁ h₂ => ⟨h₁, h₂⟩
  · intro m hm
    rcases pageCut_mark hm with rfl | rfl
    · rw [List.take_zero, program_nil]
      exact h
    · exact hlast
  · exact ⟨decide_eq_true (program_invalid hvalid rfl), hlast⟩

/-- With its header the new sector counts, whether the old one is invalidated or not. -/
theorem ModuleRep.of_new {q : Byte} {es news : List Entry} (headers : Headers c id f (seqNext q))
    (hold : SectorRep c id (sectOf q) marked f es) (hused : es ≠ [])
    (hrep : SectorRep c id (1 - sectOf q) marked f news) (hused' : news ≠ []) :
    ModuleRep c id marked f (.active (seqNext q) news) ∧ Logs c id marked f := by
  have hs := sectOf_lt q
  have hsect : sectOf (seqNext q) = 1 - sectOf q := sectOf_seqNext q
  have hback : 1 - (1 - sectOf q) = sectOf q := by omega
  constructor
  · apply ModuleRep.active headers _ hused'
    · rw [hsect, hback]
      exact ⟨_, _, hold.toSectorTable⟩
    · rw [hsect]
      exact hrep
  · intro s hs' p _
    by_cases hsq : s = sectOf q
    · subst hsq
      exact ⟨es, hused, hold⟩
    · obtain rfl : s = 1 - sectOf q := by omega
      exact ⟨news, hused', hrep⟩

/-- The end of a sector change, and what is there when the power fails on the way. -/
theorem nvCommitUpdate_wp {q : Byte} {es news : List Entry} (hq : q < 4)
    (hold : SectorRep c id (sectOf q) marked f es) (hused : es ≠ [])
    (hrep : SectorRep c id (1 - sectOf q) false f news) (hused' : news ≠ [])
    (hvalid : SectValid c id f (sectOf q) q) (hhead : ∀ x, moduleSectStart c id (1 - sectOf q) ≤ x →
      x < moduleSectStart c id (1 - sectOf q) + 4 → f x = 0xff) :
    wp (InModule c id) (nvCommitUpdate c id (sectOf q) (1 - sectOf q) ((mkSectInfo id q).opSect + 1))
      (fun r g => r = .succ ∧ ModuleRep c id marked g (.active (seqNext q) news) ∧ Logs c id marked g)
      (fun g => g = f ∨ ModuleRep c id marked g (.active (seqNext q) news) ∧ Logs c id marked g) f := by
  have hs := sectOf_lt q
  have hs' : 1 - sectOf q < 2 := by omega
  have hne : sectOf q ≠ 1 - sectOf q := by omega
  have hapart := sect_apart c id hne
  have hin := sect_inner c id (sectOf q)
  have hin' := sect_inner c id (1 - sectOf q)
  -- both logs stay where they are
  have hnew {g : Flash} (headers : Headers c id g (seqNext q))
      (hg : ∀ x, ¬ (moduleSectStart c id (sectOf q) ≤ x ∧ x < moduleSectStart c id (sectOf q) + 4) →
        ¬ (moduleSectStart c id (1 - sectOf q) ≤ x ∧ x < moduleSectStart c id (1 - sectOf q) + 4) → g x = f x) :
      ModuleRep c id marked g (.active (seqNext q) news) ∧ Logs c id marked g :=
    ModuleRep.of_new headers (hold.congr fun x h₁ h₂ => hg x (by omega) (by omega)) hused
      (hrep.congr fun x h₁ h₂ => hg x (by omega) (by omega)).of_unmarked hused'
  rw [nvCommitUpdate, mkSectInfo_next hq]
  apply wp_seq (commitHeader_wp hq hvalid hhead)
  · exact fun x hx => inModule_of_sect hs' hx.1 (by omega)
  · intro g hcut hframe
    rcases hcut with rfl | headers
    · exact .inl rfl
    · exact .inr (hnew headers fun x _ hx => hframe x hx)
  intro ok g hpost hframe
  obtain ⟨rfl, headers, hvalid'⟩ := hpost
  simp only [Bool.not_true, Bool.false_eq_true, if_false]
  apply wp_seq (giveUp_wp headers hvalid')
  · exact fun x hx => inModule_of_sect hs hx.1 (by omega)
  · intro g' headers' hframe'
    exact .inr (hnew headers' fun x hx hx' => (hframe' x (by omega)).trans (hframe x hx'))
  intro ok g' hpost hframe'
  have hlast := hnew hpost.2 fun x hx hx' => (hframe' x (by omega)).trans (hframe x hx')
  exact wp_pure ⟨rfl, hlast⟩ (.inr hlast)

variable (hid : id < dsMaxModuls)
include hid

/-- A call that finds a slot in the current sector. -/
theorem nvStoreItem_append {q : Byte} {es : List Entry} (h : ModuleRep c id marked f (.active q es))
    (hdead : SectDead c id f (1 - sectOf q)) (htable : SectorTable c id (sectOf q) false f es)
    (hroom : HasRoom c id (sectOf q) buf.length es) (hlen : itemTotalLen buf.length < 65536) (alloc : Bool)
    (seq : Byte) :
    wp (InModule c id) (nvStoreItem c alloc single id itemId buf (sectOf q) seq (some es.length))
      (fun r g => ∃ m, WriteEnd c id marked single itemId buf (.active q es) r m ∧
        ModuleRep c id marked g m ∧ Logs c id marked g)
      (fun g => ∃ m, WriteCut c single itemId buf (.active q es) m ∧
        ModuleRep c id marked g m ∧ Logs c id marked g) f := by
  have hs := sectOf_lt q
  have hrep : SectorRep c id (sectOf q) false f es := by
    cases h with
    | active headers rep used table => exact ⟨htable, rep.blank⟩
  have hpos : 0 < es.length := by
    cases h with
    | active headers rep used table => exact List.length_pos_iff.mpr used
  have hin := sect_inner c id (1 - sectOf q)
  have hapart := sect_apart c id (show sectOf q ≠ 1 - sectOf q by omega)
  -- the other sector stays out of use
  have hmod {g : Flash} {es' : List Entry} (hr : SectorRep c id (sectOf q) false g es') (hused : es' ≠ [])
      (hframe : ∀ x, ¬ (moduleSectStart c id (sectOf q) + 4 ≤ x ∧ x < moduleSectEnd c id (sectOf q)) → g x = f x) :
      ModuleRep c id marked g (.active q es') ∧ Logs c id marked g := by
    have hmod := h.of_rep hr.of_unmarked hused hframe
    exact ⟨hmod, hmod.logs_active (hdead.congr fun x h₁ h₂ => hframe x (by omega))⟩
  have hput := @nvPutItem_wp c id _ single itemId f es hid hs hrep hroom.count_lt buf hlen
  apply wp_seq hput
  · exact fun x hx => inModule_of_sect hs (by omega) hx.2
  · intro g hcut hframe
    cases hcut with
    | append hcut =>
      rcases hcut with hr | ⟨e, he, hr⟩ | hr
      · exact ⟨_, .same _, hmod hr (List.length_pos_iff.mp hpos) hframe⟩
      · exact ⟨_, .unfinished he, hmod hr (by simp) hframe⟩
      · exact ⟨_, .added, hmod hr (by simp) hframe⟩
    | retire d hd hr => exact ⟨_, .retired hd, hmod hr (by simp) hframe⟩
  intro r g hpost hframe
  by_cases hacc : Accepts c id (sectOf q) buf.length es
  · rw [if_pos hacc] at hpost
    obtain ⟨rfl, d, hd, hrep'⟩ := hpost
    have hnew := hmod hrep' (by simp) hframe
    simp only [ne_eq, not_true_eq_false, if_false]
    rw [nvCommitItem, if_neg (by omega)]
    exact wp_pure ⟨_, .added hroom hacc hd, hnew⟩ ⟨_, .retired hd, hnew⟩
  · rw [if_neg hacc] at hpost
    obtain ⟨rfl, rfl⟩ := hpost
    have hsame : ModuleRep c id marked g (.active q es) ∧ Logs c id marked g := ⟨h, h.logs_active hdead⟩
    exact wp_pure ⟨_, .refused hroom hacc, hsame⟩ ⟨_, .same _, hsame⟩

/-- A call that changes the sector. -/
theorem nvStoreItem_update {q : Byte} {es : List Entry} (h : ModuleRep c id marked f (.active q es))
    (hdead : SectDead c id f (1 - sectOf q))
    (hroom : marked = false → ¬ HasRoom c id (sectOf q) buf.length es)
    (hlen : itemTotalLen buf.length < 65536) (alloc : Bool) :
    wp (InModule c id) (nvStoreItem c alloc single id itemId buf (sectOf q) (mkSectInfo id q).opSect none)
      (fun r g => ∃ m, WriteEnd c id marked single itemId buf (.active q es) r m ∧
        ModuleRep c id marked g m ∧ Logs c id marked g)
      (fun g => ∃ m, WriteCut c single itemId buf (.active q es) m ∧
        ModuleRep c id marked g m ∧ Logs c id marked g) f := by
  cases h with
  | active headers rep used table =>
  have hs := sectOf_lt q
  have hs' : 1 - sectOf q < 2 := by omega
  have hne : sectOf q ≠ 1 - sectOf q := by omega
  have hnum : (sectOf q + 1) % moduleSectorNum = 1 - sectOf q := by
    unfold moduleSectorNum
    omega
  have hapart := sect_apart c id hne
  have hin := sect_inner c id (sectOf q)
  have hin' := sect_inner c id (1 - sectOf q)
  have hnonempty {es' : List Entry} (hshadow : Shadowed es es') : es' ≠ [] := by
    intro hnil
    have hlen := hshadow.length
    rw [hnil] at hlen
    exact used (List.length_eq_zero_iff.mp hlen.symm)
  rw [nvStoreItem, hnum]
  have hupdate := wp_region (@nvSectorUpdate_wp c id _ _ marked single itemId f es hid hs hs' hne alloc _
    (Nat.le_of_lt hlen) q headers.op rep hdead table) fun x hx => hx.imp_right fun hd => hd.index rep.count
  apply wp_seq hupdate
  · intro x hx
    rcases hx with hx | hx
    · exact inModule_of_sect hs' hx.1 hx.2
    · exact inModule_of_sect hs (by omega) (by omega)
  · intro g hcut hframe
    obtain ⟨⟨es', hshadow, hrep⟩, hdead', htable⟩ := hcut
    have hvalid : SectValid c id g (sectOf q) q := headers.op.congr fun x h₁ h₂ => hframe x (by omega)
    exact ⟨_, .cleaned hshadow, ModuleRep.of_old headers.seq hrep (hnonempty hshadow) hvalid hdead' htable⟩
  intro r g hpost hframe
  obtain ⟨es', hshadow, hrep, hnews, hhead, rfl⟩ := hpost
  have hvalid : SectValid c id g (sectOf q) q := headers.op.congr fun x h₁ h₂ => hframe x (by omega)
  have hmod : ModuleRep c id marked g (.active q es') ∧ Logs c id marked g :=
    ModuleRep.of_old headers.seq hrep (hnonempty hshadow) hvalid (.of_erased hhead) ⟨_, _, hnews.toSectorTable⟩
  split_ifs with hfull
  · exact wp_pure ⟨_, .full hroom hshadow hfull, hmod⟩ ⟨_, .cleaned hshadow, hmod⟩
  -- the item goes behind the survivors
  have hn : (survivors c single itemId es').length < moduleIdxNum c id := by
    have hcount := hnews.count
    omega
  have hfits : itemOff c id (1 - sectOf q) (survivors c single itemId es') + itemTotalLen buf.length ≤
      moduleSectEnd c id (1 - sectOf q) := by omega
  have hchain : chainOk c id (1 - sectOf q) (survivors c single itemId es') = true :=
    chainOk_of_valid (fun e he => survivors_valid c single itemId he) id _
  have hput := @nvPutItem_wp c id _ single itemId g _ hid hs' hnews hn buf hlen
  -- the old sector does not change meanwhile
  have hkept {g₁ : Flash} (hframe₁ : ∀ x, ¬ (moduleSectStart c id (1 - sectOf q) + 4 ≤ x ∧
      x < moduleSectEnd c id (1 - sectOf q)) → g₁ x = g x) :
      SectorRep c id (sectOf q) marked g₁ es' ∧ SectValid c id g₁ (sectOf q) q ∧
        ∀ x, moduleSectStart c id (1 - sectOf q) ≤ x → x < moduleSectStart c id (1 - sectOf q) + 4 → g₁ x = 0xff := by
    refine ⟨hrep.congr fun x h₁ h₂ => hframe₁ x (by omega), hvalid.congr fun x h₁ h₂ => hframe₁ x (by omega), ?_⟩
    intro x h₁ h₂
    rw [hframe₁ x (by omega), hhead x h₁ h₂]
  apply wp_seq hput
  · intro x hx
    exact inModule_of_sect hs' (by omega) hx.2
  · intro g₁ hcut hframe₁
    obtain ⟨hrep₁, hvalid₁, hhead₁⟩ := hkept hframe₁
    obtain ⟨es₁, hr⟩ := hcut.rep
    have htable : HasTable c id (1 - sectOf q) g₁ := ⟨_, es₁, hr.toSectorTable⟩
    exact ⟨_, .cleaned hshadow, ModuleRep.of_old headers.seq hrep₁ (hnonempty hshadow) hvalid₁ (.of_erased hhead₁) htable⟩
  intro r g₁ hpost hframe₁
  rw [if_pos ⟨hchain, hfits⟩] at hpost
  obtain ⟨rfl, d, hd, hnews₁⟩ := hpost
  obtain ⟨hrep₁, hvalid₁, hhead₁⟩ := hkept hframe₁
  have hmod₁ : ModuleRep c id marked g₁ (.active q es') ∧ Logs c id marked g₁ :=
    ModuleRep.of_old headers.seq hrep₁ (hnonempty hshadow) hvalid₁ (.of_erased hhead₁) ⟨_, _, hnews₁.toSectorTable⟩
  simp only [ne_eq, not_true_eq_false, if_false]
  have hcommit := nvCommitUpdate_wp headers.seq hrep₁ (hnonempty hshadow) hnews₁ (by simp) hvalid₁ hhead₁
  apply wp_mono hcommit
  · rintro r g₂ ⟨rfl, hnew⟩
    exact ⟨_, .changed hroom hshadow ⟨hn, hfits⟩ hd, hnew⟩
  · rintro g₂ (rfl | hnew)
    · exact ⟨_, .cleaned hshadow, hmod₁⟩
    · exact ⟨_, .changed hshadow hd, hnew⟩

/-- The first item of a module goes into an erased sector. -/
theorem nvStoreItem_first (h : ModuleRep c id marked f .fresh)
    (hlen : itemTotalLen buf.length + moduleInfoSize id ≤ nvSectorSize id)
    (herased : ∀ x, moduleSectStart c id 0 ≤ x → x < moduleSectEnd c id 0 → f x = 0xff) (alloc : Bool) :
    wp (InModule c id) (nvStoreItem c alloc single id itemId buf 0 0 (some 0))
      (fun r g => ∃ m, WriteEnd c id marked single itemId buf .fresh r m ∧
        ModuleRep c id marked g m ∧ Logs c id marked g)
      (fun g => ∃ m, WriteCut c single itemId buf .fresh m ∧ ModuleRep c id marked g m ∧ Logs c id marked g) f := by
  cases h with
  | fresh dead₀ hdead table₀ htable =>
  have hs : 0 < 2 := by decide
  have happart := moduleSect_disjoint c id (show 0 < 1 by decide)
  have hin := sect_inner c id 0
  have hin' := sect_inner c id 1
  have hlen' : itemTotalLen buf.length < 65536 := by
    rcases moduleInfoSize_cases id with ⟨h, h'⟩ | ⟨h, h'⟩ <;> omega
  have hrep : SectorRep c id 0 false f [] := .of_erased fun x h₁ h₂ => herased x (by omega) h₂
  have hacc : Accepts c id 0 buf.length [] := by
    refine ⟨rfl, ?_⟩
    rw [itemOff_nil, moduleContextStart_eq, moduleSectEnd_eq]
    omega
  -- without the header nothing counts yet
  have hfresh {g : Flash} {es : List Entry} (hr : SectorRep c id 0 false g es)
      (hg : ∀ x, ¬ (moduleSectStart c id 0 + 4 ≤ x ∧ x < moduleSectEnd c id 0) → g x = f x) :
      ModuleRep c id marked g .fresh ∧ Logs c id marked g := by
    have hmod : ModuleRep c id marked g .fresh := by
      refine .fresh (.of_erased fun x h₁ h₂ => ?_) (hdead.congr fun x h₁ h₂ => hg x (by omega))
        ⟨_, _, hr.toSectorTable⟩ (htable.congr fun x h₁ h₂ => hg x (by omega))
      rw [hg x (by omega), herased x h₁ (by omega)]
    exact ⟨hmod, hmod.logs_fresh⟩
  have hput := @nvPutItem_wp c id 0 single itemId f [] hid hs hrep (moduleIdxNum_pos c id) buf hlen'
  apply wp_seq hput
  · exact fun x hx => inModule_of_sect hs (by omega) hx.2
  · intro g hcut hframe
    obtain ⟨es₁, hr⟩ := hcut.rep
    exact ⟨_, .same _, hfresh hr hframe⟩
  intro r g hpost hframe
  rw [if_pos hacc] at hpost
  obtain ⟨rfl, d, hd, hrep'⟩ := hpost
  obtain rfl : d = none := by
    cases d with
    | none => rfl
    | some d => exact absurd (hd.inside d rfl) (Nat.not_lt_zero d)
  change SectorRep c id 0 false g [newEntry c single itemId buf []] at hrep'
  have hhead' : ∀ x, moduleSectStart c id 0 ≤ x → x < moduleSectStart c id 0 + 4 → g x = 0xff := by
    intro x h₁ h₂
    rw [hframe x (by omega), herased x h₁ (by omega)]
  simp only [ne_eq, not_true_eq_false, if_false]
  rw [nvCommitItem, if_pos rfl]
  -- with the header the item is the contents
  have hfirst {g' : Flash} (hvalid : SectValid c id g' 0 0)
      (hg : ∀ x, ¬ (moduleSectStart c id 0 ≤ x ∧ x < moduleSectStart c id 0 + 4) → g' x = g x) :
      ModuleRep c id marked g' (.active 0 [newEntry c single itemId buf []]) ∧ Logs c id marked g' := by
    have hdead' : SectDead c id g' 1 :=
      hdead.congr fun x h₁ h₂ => (hg x (by omega)).trans (hframe x (by omega))
    have hmod : ModuleRep c id marked g' (.active 0 [newEntry c single itemId buf []]) := by
      refine .active ⟨by decide, hvalid, .inl hdead'⟩ (hrep'.of_unmarked.congr fun x h₁ h₂ => hg x ?_) (by simp) ?_
      · change moduleSectStart c id 0 + 4 ≤ x at h₁
        omega
      · exact htable.congr fun x h₁ h₂ => (hg x (by omega)).trans (hframe x (by omega))
    exact ⟨hmod, hmod.logs_active hdead'⟩
  apply wp_seq (writeHeader_wp hhead' 0)
  · exact fun x hx => inModule_of_sect hs hx.1 (by omega)
  · intro g' hcut hg
    rcases hcut with rfl | hvalid
    · exact ⟨_, .same _, hfresh hrep' hframe⟩
    · exact ⟨_, .first, hfirst hvalid hg⟩
  intro ok g' hpost hg
  have hlast := hfirst hpost.2 hg
  exact wp_pure ⟨_, .first hlen, hlast⟩ ⟨_, .first, hlast⟩

omit hid in
/-- A module without a sector in use starts in sector 0, which is erased. -/
theorem nvOperationSector_fresh (h : ModuleRep c id marked f .fresh) :
    wp (InModule c id) (nvOperationSector c id)
      (fun r g => r = (0, 0) ∧ ModuleRep c id marked g .fresh ∧
        ∀ x, moduleSectStart c id 0 ≤ x → x < moduleSectEnd c id 0 → g x = 0xff)
      (fun g => ModuleRep c id marked g .fresh) f := by
  cases h with
  | fresh dead₀ dead₁ table₀ table₁ =>
  have happart := moduleSect_disjoint c id (show 0 < 1 by decide)
  have hin := sect_inner c id 0
  have hin' := sect_inner c id 1
  have hstart : modulesStartAddr c id = moduleSectStart c id 0 := by simp [moduleSectStart]
  apply wp_bind
  apply wp_mono (nvSectorRead_fresh dead₀ dead₁)
  swap
  · rintro g rfl
    exact .fresh dead₀ dead₁ table₀ table₁
  intro r g hpost
  obtain ⟨rfl, rfl⟩ := hpost
  dsimp only
  rw [hstart]
  apply wp_seq (eraseSect_wp c id 0 g)
  · exact fun x hx => inModule_of_sect (by decide) hx.1 hx.2
  · intro g₁ hpost hframe
    rcases hpost with rfl | ⟨hdead, htable⟩
    · exact .fresh dead₀ dead₁ table₀ table₁
    · exact .fresh hdead (dead₁.congr fun x h₁ h₂ => hframe x (by omega)) htable
        (table₁.congr fun x h₁ h₂ => hframe x (by omega))
  intro _ g₁ herased hframe
  have hrep : SectorRep c id 0 false g₁ [] := .of_erased fun x h₁ h₂ => herased x (by omega) h₂
  have hfresh : ModuleRep c id marked g₁ .fresh :=
    .fresh (.of_erased fun x h₁ h₂ => herased x h₁ (by omega)) (dead₁.congr fun x h₁ h₂ => hframe x (by omega))
      ⟨_, _, hrep.toSectorTable⟩ (table₁.congr fun x h₁ h₂ => hframe x (by omega))
  exact wp_pure ⟨rfl, hfresh, herased⟩ hfresh

/-- A module in use works in the sector that its headers select; the other one is invalidated
where that is still to be done. -/
theorem nvOperationSector_active {q : Byte} {es : List Entry} (h : ModuleRep c id marked f (.active q es)) :
    wp (fun x => moduleSectStart c id (1 - sectOf q) ≤ x ∧ x < moduleSectStart c id (1 - sectOf q) + 2)
      (nvOperationSector c id)
      (fun r g => r = (sectOf q, (mkSectInfo id q).opSect) ∧ ModuleRep c id marked g (.active q es) ∧
        SectDead c id g (1 - sectOf q))
      (fun g => ModuleRep c id marked g (.active q es) ∧ (g = f ∨ SectDead c id g (1 - sectOf q))) f := by
  have hid' : id < 256 := Nat.lt_trans hid (by decide)
  have hheaders : Headers c id f q := by
    cases h with
    | active headers rep used table => exact headers
  apply wp_seq (nvSectorRead_write hid' hheaders)
  · exact fun _ hx => hx
  · intro g hpost hframe
    obtain ⟨hhead, hlog⟩ := hpost
    exact ⟨h.of_header hhead hframe, hlog⟩
  intro r g hpost hframe
  obtain ⟨rfl, hhead, hdead⟩ := hpost
  have hmod := h.of_header hhead hframe
  dsimp only
  rw [mkSectInfo_sect hheaders.seq]
  exact wp_pure ⟨rfl, hmod, hdead⟩ ⟨hmod, .inr hdead⟩

/-- A write call, whatever the contents: the status and the contents after it, and the
contents at every point the power may fail. Sectors that only wait to be invalidated keep
their logs. -/
theorem nvFlashWriteNewHandler_logs {m : Contents} (h : ModuleRep c id marked f m) (alloc : Bool) :
    wp (InModule c id) (nvFlashWriteNewHandler c alloc single id itemId buf)
      (fun r g => ∃ m', WriteEnd c id marked single itemId buf m r m' ∧ ModuleRep c id marked g m' ∧
        (Logs c id marked f → Logs c id marked g))
      (fun g => ∃ m', WriteCut c single itemId buf m m' ∧ ModuleRep c id marked g m' ∧
        (Logs c id marked f → Logs c id marked g)) f := by
  rw [nvFlashWriteNewHandler]
  split_ifs with hlong
  · exact wp_pure ⟨m, .tooLong hlong, h, fun hf => hf⟩ ⟨m, .same m, h, fun hf => hf⟩
  have hlen : itemTotalLen buf.length < 65536 := by
    rcases moduleInfoSize_cases id with ⟨h, h'⟩ | ⟨h, h'⟩ <;> omega
  apply wp_bind
  cases m with
  | fresh =>
    have hcut {g : Flash} (hfresh : ModuleRep c id marked g .fresh) :
        ∃ m', WriteCut c single itemId buf .fresh m' ∧ ModuleRep c id marked g m' ∧
          (Logs c id marked f → Logs c id marked g) := ⟨_, .same _, hfresh, fun _ => hfresh.logs_fresh⟩
    apply wp_mono (nvOperationSector_fresh h)
    swap
    · exact fun g hfresh => hcut hfresh
    intro r g hpost
    obtain ⟨rfl, hfresh, herased⟩ := hpost
    have hctx := sectStart_lt c id 0
    have hrep : SectorRep c id 0 false g [] := .of_erased fun x h₁ h₂ => herased x (by omega) h₂
    apply wp_bind
    refine wp_query ?_ (hcut hfresh)
    rw [nvFindSlot_unmarked hid (by decide) hrep.toSectorTable (Nat.le_of_lt hlen), if_pos (.inl rfl)]
    apply wp_mono (nvStoreItem_first hid hfresh (by omega) herased alloc)
    · rintro r g₂ ⟨m', hend, hmod, hlogs⟩
      exact ⟨m', hend, hmod, fun _ => hlogs⟩
    · rintro g₂ ⟨m', hcut', hmod, hlogs⟩
      exact ⟨m', hcut', hmod, fun _ => hlogs⟩
  | active q es =>
    have hs := sectOf_lt q
    have hin := sect_inner c id (1 - sectOf q)
    apply wp_region (wp_mono (nvOperationSector_active hid h) _ _)
    · exact fun x hx => inModule_of_sect (by omega) hx.1 (by omega)
    swap
    · rintro g ⟨hmod, rfl | hdead⟩
      · exact ⟨_, .same _, hmod, fun hf => hf⟩
      · exact ⟨_, .same _, hmod, fun _ => hmod.logs_active hdead⟩
    intro r g hpost
    obtain ⟨rfl, hmod, hdead⟩ := hpost
    have hrep : SectorRep c id (sectOf q) marked g es := by
      cases hmod with
      | active headers rep used table => exact rep
    apply wp_bind
    refine wp_query ?_ ⟨_, .same _, hmod, fun _ => hmod.logs_active hdead⟩
    cases hslot : nvFindSlot c g id buf.length (sectOf q) with
    | some w =>
      obtain ⟨htable, rfl, hroom⟩ := nvFindSlot_some hid hs hrep.toSectorTable (Nat.le_of_lt hlen) hslot
      apply wp_mono (nvStoreItem_append hid hmod hdead htable hroom hlen alloc _)
      · rintro r g₂ ⟨m', hend₂, hmod₂, hlogs⟩
        exact ⟨m', hend₂, hmod₂, fun _ => hlogs⟩
      · rintro g₂ ⟨m', hcut₂, hmod₂, hlogs⟩
        exact ⟨m', hcut₂, hmod₂, fun _ => hlogs⟩
    | none =>
      have hfull : marked = false → ¬ HasRoom c id (sectOf q) buf.length es := by
        intro hm hroom
        subst hm
        rw [nvFindSlot_unmarked hid hs hrep.toSectorTable (Nat.le_of_lt hlen), if_pos hroom] at hslot
        cases hslot
      apply wp_mono (nvStoreItem_update hid hmod hdead hfull hlen alloc)
      · rintro r g₂ ⟨m', hend₂, hmod₂, hlogs⟩
        exact ⟨m', hend₂, hmod₂, fun _ => hlogs⟩
      · rintro g₂ ⟨m', hcut₂, hmod₂, hlogs⟩
        exact ⟨m', hcut₂, hmod₂, fun _ => hlogs⟩

theorem nvFlashWriteNewHandler_wp {m : Contents} (h : ModuleRep c id marked f m) (alloc : Bool) :
    wp (InModule c id) (nvFlashWriteNewHandler c alloc single id itemId buf)
      (fun r g => ∃ m', WriteEnd c id marked single itemId buf m r m' ∧ ModuleRep c id marked g m')
      (fun g => ∃ m', WriteCut c single itemId buf m m' ∧ ModuleRep c id marked g m') f := by
  apply wp_mono (nvFlashWriteNewHandler_logs hid h alloc)
  · intro r g hpost
    obtain ⟨m', hend, hmod, -⟩ := hpost
    exact ⟨m', hend, hmod⟩
  · intro g hpost
    obtain ⟨m', hcut, hmod, -⟩ := hpost
    exact ⟨m', hcut, hmod⟩

theorem nvFlashWriteNew_wp {m : Contents} (h : ModuleRep c id marked f m)
    (hfc : id ≠ dsNwkFramecountModule) (alloc : Bool) :
    wp (InModule c id) (nvFlashWriteNew c alloc single id itemId buf)
      (fun r g => ∃ m', WriteEnd c id marked single itemId buf m r m' ∧ ModuleRep c id marked g m')
      (fun g => ∃ m', WriteCut c single itemId buf m m' ∧ ModuleRep c id marked g m') f := by
  rw [nvFlashWriteNew, if_neg hfc]
  exact nvFlashWriteNewHandler_wp hid h alloc

end Write

end Rf4ce.Nv

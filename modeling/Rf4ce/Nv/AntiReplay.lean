import Rf4ce.Nv.CrashSafety
import Rf4ce.Nv.FrameCount

/-! The frame counter never goes back: what a load returns after saves that may be cut anywhere. -/
namespace Rf4ce.Nv
open Crash Drv Common

/-! ### The counter log -/

/-- The counters in the current sector, or no sector in use. -/
inductive FrameLog where
  | fresh
  | active (q : Byte) (l : List Nat)

/-- One more counter; a full sector passes its last counter on to the other one. -/
def FrameLog.push (n : Nat) : FrameLog → FrameLog
  | .fresh => .active 0 [n]
  | .active q l =>
    if l.length < framecountNumPerSect then .active q (l ++ [n]) else .active (seqNext q) [l.getLastD 0, n]

/-- What a save returns: the status of the search for the sector in use, which the first save of an
erased module leaves as it is. -/
def FrameLog.saveStatus : FrameLog → NvSts
  | .fresh => .itemNotFound
  | .active _ _ => .succ

/-- The slots of a sector hold the counters `l` and nothing behind them. -/
structure SlotsRep (c : NvCfg) (s : Nat) (f : Flash) (l : List Nat) : Prop where
  count : l.length ≤ framecountNumPerSect
  slot : ∀ k (h : k < l.length), bytes f (framecountAddr c s k) 4 = le32 l[k]
  blank : ∀ x, framecountAddr c s l.length ≤ x → x < moduleSectEnd c dsNwkFramecountModule s → f x = 0xff
  bound : ∀ n ∈ l, n < 0xffffffff

inductive FrameRep (c : NvCfg) (f : Flash) : FrameLog → Prop where
  | fresh (dead₀ : SectDead c dsNwkFramecountModule f 0) (dead₁ : SectDead c dsNwkFramecountModule f 1) :
      FrameRep c f .fresh
  | active {q : Byte} {l : List Nat} (headers : Headers c dsNwkFramecountModule f q)
      (slots : SlotsRep c (sectOf q) f l) (used : l ≠ []) : FrameRep c f (.active q l)

section Slots
variable {c : NvCfg} {s : Nat} {f g : Flash} {l : List Nat}

theorem framecountAddr_eq (c : NvCfg) (s k : Nat) :
    framecountAddr c s k = moduleSectStart c dsNwkFramecountModule s + 4 + 4 * k := rfl

theorem framecountAddr_end (c : NvCfg) (s : Nat) :
    framecountAddr c s framecountNumPerSect = moduleSectEnd c dsNwkFramecountModule s := by
  rw [framecountSectEnd_eq]
  rfl

theorem framecountAddr_lt {k : Nat} (hk : k < framecountNumPerSect) :
    framecountAddr c s k + 4 ≤ moduleSectEnd c dsNwkFramecountModule s := by
  rw [← framecountAddr_end, framecountAddr_eq, framecountAddr_eq]
  omega

theorem SlotsRep.congr (h : SlotsRep c s f l)
    (hg : ∀ x, moduleSectStart c dsNwkFramecountModule s + 4 ≤ x →
      x < moduleSectEnd c dsNwkFramecountModule s → g x = f x) : SlotsRep c s g l := by
  refine ⟨h.count, fun k hk => ?_, fun x h₁ h₂ => ?_, h.bound⟩
  · have hend := @framecountAddr_lt c s k (Nat.lt_of_lt_of_le hk h.count)
    have haddr := framecountAddr_eq c s k
    rw [← h.slot k hk]
    exact bytes_congr fun x h₁ h₂ => hg x (by omega) (by omega)
  · have haddr := framecountAddr_eq c s l.length
    rw [hg x (by omega) h₂, h.blank x h₁ h₂]

theorem SlotsRep.of_erased
    (h : ∀ x, moduleSectStart c dsNwkFramecountModule s + 4 ≤ x →
      x < moduleSectEnd c dsNwkFramecountModule s → f x = 0xff) : SlotsRep c s f [] :=
  ⟨Nat.zero_le _, fun k hk => absurd hk (Nat.not_lt_zero k), fun x h₁ h₂ => h x h₁ h₂,
    fun _ hn => absurd hn List.not_mem_nil⟩

theorem SlotsRep.readWord_slot (h : SlotsRep c s f l) {k : Nat} (hk : k < l.length) :
    readWord f (framecountAddr c s k) = l[k] := by
  have hlt := h.bound _ (List.getElem_mem hk)
  rw [readWord, flashRead_eq, h.slot k hk, ofLe_le32 (by omega)]

theorem SlotsRep.usedSlots (h : SlotsRep c s f l) : UsedSlots c f s l.length := by
  intro k hk
  have haddr := framecountAddr_eq c s k
  have hend := @framecountAddr_lt c s k hk
  by_cases hin : k < l.length
  · have hlt := h.bound _ (List.getElem_mem hin)
    rw [h.readWord_slot hin]
    omega
  · have hblank : bytes f (framecountAddr c s k) 4 = List.replicate 4 0xff := by
      refine bytes_const fun x h₁ h₂ => h.blank x ?_ (by omega)
      rw [framecountAddr_eq] at h₁ ⊢
      omega
    refine iff_of_true ?_ (by omega)
    rw [readWord, flashRead_eq, hblank]
    rfl

theorem SlotsRep.search (h : SlotsRep c s f l) :
    nvNwkFrameCountSearch c f s = if l = [] then (none, framecountAddr c s 0)
      else (some (l.getLastD 0), framecountAddr c s l.length) := by
  rw [nvNwkFrameCountSearch_eq h.usedSlots h.count]
  by_cases hnil : l = []
  · rw [if_pos hnil, if_pos (List.length_eq_zero_iff.mpr hnil)]
  · have hpos := List.length_pos_iff.mpr hnil
    have hlast : l.getLastD 0 = l[l.length - 1] := by
      rw [List.getLastD_eq_getLast?, List.getLast?_eq_getElem?, List.getElem?_eq_getElem (by omega)]
      rfl
    rw [if_neg hnil, if_neg (by omega), h.readWord_slot (by omega), hlast]

theorem bytes_words {f : Flash} {a : Nat} {l : List Nat} (h : bytes f a (4 * l.length) = l.flatMap le32) (k : Nat)
    (hk : k < l.length) : bytes f (a + 4 * k) 4 = le32 l[k] := by
  induction l generalizing a k with
  | nil => exact absurd hk (Nat.not_lt_zero k)
  | cons n l ih =>
    have hsplit : 4 * (n :: l).length = 4 + 4 * l.length := by
      rw [List.length_cons]
      omega
    rw [hsplit, bytes_append, List.flatMap_cons] at h
    obtain ⟨hfirst, hrest⟩ := List.append_inj h (by rw [bytes_length, le32_length])
    cases k with
    | zero => exact hfirst
    | succ k =>
      rw [List.length_cons] at hk
      have haddr : a + 4 * (k + 1) = a + 4 + 4 * k := by omega
      rw [haddr, List.getElem_cons_succ]
      exact ih hrest k (by omega)

/-- The log of a sector, read off its bytes. -/
theorem SlotsRep.of_bytes (hcount : l.length ≤ framecountNumPerSect) (hbound : ∀ n ∈ l, n < 0xffffffff)
    (hused : bytes f (framecountPayloadStart c s) (4 * l.length) = l.flatMap le32)
    (hfree : ∀ x, framecountPayloadStart c s + 4 * l.length ≤ x →
      x < moduleSectEnd c dsNwkFramecountModule s → f x = 0xff) : SlotsRep c s f l := by
  rw [framecountPayloadStart_eq] at hused hfree
  exact ⟨hcount, bytes_words hused, hfree, hbound⟩

/-- The search finds the last counter of the log and the first free word behind it. -/
theorem nvNwkFrameCountSearch_log (hcount : l.length ≤ framecountNumPerSect)
    (hbound : ∀ n ∈ l, n < 2 ^ 32 ∧ n ≠ 0xffffffff)
    (hused : bytes f (framecountPayloadStart c s) (4 * l.length) = l.flatMap le32)
    (hfree : ∀ x, framecountPayloadStart c s + 4 * l.length ≤ x →
      x < moduleSectEnd c dsNwkFramecountModule s → f x = 0xff) :
    (l = [] → nvNwkFrameCountSearch c f s = (none, framecountPayloadStart c s)) ∧
      (∀ h : l ≠ [], nvNwkFrameCountSearch c f s =
        (some (l.getLast h), framecountPayloadStart c s + 4 * l.length)) ∧
      (l.length = framecountNumPerSect →
        framecountPayloadStart c s + 4 * l.length = moduleSectEnd c dsNwkFramecountModule s) := by
  have hrep : SlotsRep c s f l := by
    apply SlotsRep.of_bytes hcount _ hused hfree
    intro n hn
    have hword := hbound n hn
    omega
  have hslot (k : Nat) : framecountPayloadStart c s + 4 * k = framecountAddr c s k := by
    rw [framecountPayloadStart_eq, framecountAddr_eq]
  have hsearch := hrep.search
  constructor
  · intro hnil
    rw [if_pos hnil, ← hslot] at hsearch
    exact hsearch
  constructor
  · intro hne
    rw [if_neg hne, ← hslot] at hsearch
    rw [hsearch, List.getLastD_eq_getLast?, List.getLast?_eq_some_getLast hne]
    rfl
  · intro hfull
    rw [hslot, hfull]
    exact framecountAddr_end c s

/-- Two counters in an erased sector. -/
theorem nvNwkFrameCountSearch_log_two :
    nvNwkFrameCountSearch ⟨false, false⟩
      (Flash.program (fun _ => 0xff) (framecountPayloadStart ⟨false, false⟩ 1) ([5, 7].flatMap le32)) 1 =
        (some 7, framecountPayloadStart ⟨false, false⟩ 1 + 8) := by
  have hlog := @nvNwkFrameCountSearch_log ⟨false, false⟩ 1
    (Flash.program (fun _ => 0xff) (framecountPayloadStart ⟨false, false⟩ 1) ([5, 7].flatMap le32)) [5, 7]
    (by decide) (by decide) (bytes_program_erased fun _ _ _ => rfl)
    (fun x h₁ _ => program_outside _ _ _ fun hx => Nat.not_lt.mpr h₁ hx.2)
  exact hlog.2.1 (by decide)

/-- A counter word is one page program. -/
theorem pageCut_slot {k m : Nat} (h : PageCut (framecountAddr c s k) 4 m) : m = 0 ∨ m = 4 := by
  have hmod := moduleSectStart_mod c dsNwkFramecountModule s
  have haddr := framecountAddr_eq c s k
  obtain ⟨h₁, h₂⟩ := h
  omega

/-- The next counter goes to the first free slot. -/
theorem SlotsRep.push (h : SlotsRep c s f l) (hl : l.length < framecountNumPerSect) {n : Nat}
    (hn : n < 0xffffffff) : SlotsRep c s (f.program (framecountAddr c s l.length) (le32 n)) (l ++ [n]) := by
  have hend := @framecountAddr_lt c s _ hl
  have hout {x : Nat} (hx : x < framecountAddr c s l.length ∨ framecountAddr c s l.length + 4 ≤ x) :
      f.program (framecountAddr c s l.length) (le32 n) x = f x := by
    refine program_outside _ _ _ ?_
    rw [le32_length]
    omega
  refine ⟨?_, fun k hk => ?_, fun x h₁ h₂ => ?_, fun m hm => ?_⟩
  · rw [List.length_append]
    exact hl
  · rw [List.length_append, List.length_singleton] at hk
    by_cases hin : k < l.length
    · rw [List.getElem_append_left hin, ← h.slot k hin]
      refine bytes_congr fun x h₁ h₂ => hout (.inl ?_)
      rw [framecountAddr_eq] at h₂ ⊢
      omega
    · obtain rfl : k = l.length := by omega
      rw [List.getElem_concat_length rfl]
      refine bytes_program_erased fun x h₁ h₂ => h.blank x h₁ ?_
      rw [le32_length] at h₂
      omega
  · rw [List.length_append, List.length_singleton] at h₁
    rw [framecountAddr_eq] at h₁
    have haddr := framecountAddr_eq c s l.length
    rw [hout (by omega), h.blank x (by omega) h₂]
  · rcases List.mem_append.mp hm with hm | hm
    · exact h.bound m hm
    · rw [List.mem_singleton.mp hm]
      exact hn

/-- Writing the next counter: the log is as before or one longer. -/
theorem SlotsRep.push_wp (h : SlotsRep c s f l) (hl : l.length < framecountNumPerSect) {n : Nat}
    (hn : n < 0xffffffff) :
    wp (fun x => moduleSectStart c dsNwkFramecountModule s + 4 ≤ x ∧
        x < moduleSectEnd c dsNwkFramecountModule s)
      (flashWriteWithCheck (framecountAddr c s l.length) (le32 n))
      (fun ok g => ok = true ∧ SlotsRep c s g (l ++ [n])) (fun g => g = f ∨ SlotsRep c s g (l ++ [n])) f := by
  have hend := @framecountAddr_lt c s _ hl
  have haddr := framecountAddr_eq c s l.length
  have hpush := h.push hl hn
  apply flashWriteWithCheck_wp (by rw [le32_length]; decide)
  · intro x h₁ h₂
    rw [le32_length] at h₂
    omega
  · intro m hm
    rcases pageCut_slot hm with rfl | rfl
    · rw [List.take_zero, program_nil]
      exact .inl rfl
    · exact .inr hpush
  · have hk : l.length < (l ++ [n]).length := by
      rw [List.length_append]
      exact Nat.lt_succ_self _
    have hslot := hpush.slot l.length hk
    rw [List.getElem_concat_length rfl] at hslot
    exact ⟨decide_eq_true hslot, hpush⟩

end Slots

/-! ### Saving -/

section Save
variable {c : NvCfg} {f g : Flash} {q : Byte} {l : List Nat} {n : Nat} {ret : NvSts}

theorem inModule_frame {s x : Nat} (hs : s < 2) (h₁ : moduleSectStart c dsNwkFramecountModule s ≤ x)
    (h₂ : x < moduleSectEnd c dsNwkFramecountModule s) : InModule c dsNwkFramecountModule x :=
  inModule_of_sect hs h₁ h₂

/-- Without a sector in use both sectors are erased. -/
theorem nvFrameCountSector_fresh (dead₀ : SectDead c dsNwkFramecountModule f 0)
    (dead₁ : SectDead c dsNwkFramecountModule f 1) (errSect : Nat) :
    wp (InModule c dsNwkFramecountModule) (nvFrameCountSector c false errSect)
      (fun r g => r = (.itemNotFound, 0, 0) ∧ ∀ x, InModule c dsNwkFramecountModule x → g x = 0xff)
      (fun g => FrameRep c g .fresh) f := by
  have hnow : FrameRep c f .fresh := .fresh dead₀ dead₁
  have hstart : modulesStartAddr c dsNwkFramecountModule = moduleSectStart c dsNwkFramecountModule 0 := by
    simp [moduleSectStart]
  have hstart₁ : moduleSectStart c dsNwkFramecountModule 1 = moduleSectStart c dsNwkFramecountModule 0 + 4096 := by
    simp [moduleSectStart, nvSectorSize, dsNwkFramecountModule, dsIrLearnModule, flashSectorSize]
  have hend := framecountSectEnd_eq c 1
  have hmod := moduleSectStart_mod c dsNwkFramecountModule 0
  apply wp_bind
  apply wp_mono (nvSectorRead_fresh dead₀ dead₁)
  swap
  · intro g hg
    rw [hg]
    exact hnow
  intro r g hpost
  obtain ⟨rfl, rfl⟩ := hpost
  dsimp only
  rw [hstart]
  apply wp_bind
  apply wp_region (wp_mono (flashEraseSectors_wp g hmod moduleSectorNum) _ _)
  · intro x hx
    change _ ∧ x < _ + 4096 * 2 at hx
    exact ⟨hx.1, by omega⟩
  · intro _ g' hg'
    have herased : ∀ x, InModule c dsNwkFramecountModule x → g' x = 0xff := by
      intro x hx
      rw [hg']
      refine eraseRange_in hx.1 ?_
      have hx₂ := hx.2
      change x < _ + 4096 * 2
      omega
    refine wp_pure ⟨rfl, herased⟩ (.fresh (.of_erased fun x h₁ h₂ => herased x ?_)
      (.of_erased fun x h₁ h₂ => herased x ?_))
    · exact ⟨h₁, by omega⟩
    · exact ⟨by omega, by omega⟩
  · intro g' hg'
    obtain ⟨k, hk, rfl⟩ := hg'
    change k ≤ 2 at hk
    refine .fresh ?_ ?_
    · by_cases hk0 : k = 0
      · rw [hk0, eraseRange_zero]
        exact dead₀
      · exact .of_erased fun x h₁ h₂ => eraseRange_in h₁ (by omega)
    · by_cases hk2 : k = 2
      · exact .of_erased fun x h₁ h₂ => eraseRange_in (by omega) (by omega)
      · exact dead₁.congr fun x h₁ h₂ => eraseRange_out (by omega)

theorem nvFrameCountSector_active (h : Headers c dsNwkFramecountModule f q) (errSect : Nat) :
    wp (fun x => moduleSectStart c dsNwkFramecountModule (1 - sectOf q) ≤ x ∧
        x < moduleSectStart c dsNwkFramecountModule (1 - sectOf q) + 2)
      (nvFrameCountSector c false errSect)
      (fun r g => r = (.succ, sectOf q, (mkSectInfo dsNwkFramecountModule q).opSect) ∧
        Headers c dsNwkFramecountModule g q)
      (fun g => Headers c dsNwkFramecountModule g q) f := by
  apply wp_bind
  apply wp_mono (nvSectorRead_write (by decide) h)
  swap
  · exact fun _ h => h.1
  intro r g hpost
  obtain ⟨rfl, hhead, -⟩ := hpost
  dsimp only
  rw [if_neg Bool.false_ne_true, mkSectInfo_sect h.seq]
  exact wp_pure ⟨rfl, hhead⟩ hhead

/-- The first counter of a module brings the header with it. -/
theorem nvFrameCountPut_first (hn : n < 0xffffffff)
    (herased : ∀ x, InModule c dsNwkFramecountModule x → f x = 0xff) (errSect : Nat) :
    wp (InModule c dsNwkFramecountModule)
      (nvFrameCountPut c ret false errSect n 0 0 0 (framecountAddr c 0 0) false)
      (fun r g => r.1 = ret ∧ FrameRep c g (.active 0 [n]))
      (fun g => FrameRep c g .fresh ∨ FrameRep c g (.active 0 [n])) f := by
  have hs : 0 < 2 := by decide
  have hend := framecountSectEnd_eq c 0
  have hapart := moduleSect_disjoint c dsNwkFramecountModule (show 0 < 1 by decide)
  have hend₁ := framecountSectEnd_eq c 1
  have hin {x : Nat} (h₁ : moduleSectStart c dsNwkFramecountModule 0 ≤ x)
      (h₂ : x < moduleSectEnd c dsNwkFramecountModule 0) : f x = 0xff := herased x (inModule_frame hs h₁ h₂)
  have hslots : SlotsRep c 0 f [] := .of_erased fun x h₁ h₂ => hin (by omega) h₂
  have hfresh {g : Flash} (hg : ∀ x, ¬ (moduleSectStart c dsNwkFramecountModule 0 + 4 ≤ x ∧
      x < moduleSectEnd c dsNwkFramecountModule 0) → g x = f x) : FrameRep c g .fresh := by
    refine .fresh (.of_erased fun x h₁ h₂ => ?_) (.of_erased fun x h₁ h₂ => ?_)
    · rw [hg x (by omega), hin h₁ (by omega)]
    · rw [hg x (by omega), herased x (inModule_frame (by decide) h₁ (by omega))]
  rw [nvFrameCountPut]
  apply wp_seq (hslots.push_wp (by decide) hn)
  · intro x hx
    exact inModule_frame hs (by omega) hx.2
  · intro g _ hframe
    exact .inl (hfresh hframe)
  intro ok g hpost hframe
  obtain ⟨rfl, hpush⟩ := hpost
  have hstart : framecountAddr c 0 0 = framecountPayloadStart c 0 := (framecountPayloadStart_eq c 0).symm
  rw [decide_eq_true hstart]
  simp only [Bool.not_true, Bool.false_eq_true, if_false, Bool.or_true, if_true, Bool.or_self]
  have hhead : ∀ x, moduleSectStart c dsNwkFramecountModule 0 ≤ x →
      x < moduleSectStart c dsNwkFramecountModule 0 + 4 → g x = 0xff := by
    intro x h₁ h₂
    rw [hframe x (by omega), hin h₁ (by omega)]
  -- with the header the counter is the contents
  have hfirst {g' : Flash} (hvalid : SectValid c dsNwkFramecountModule g' 0 0)
      (hg : ∀ x, ¬ (moduleSectStart c dsNwkFramecountModule 0 ≤ x ∧
        x < moduleSectStart c dsNwkFramecountModule 0 + 4) → g' x = g x) : FrameRep c g' (.active 0 [n]) := by
    refine .active ⟨by decide, hvalid, .inl (.of_erased fun x h₁ h₂ => ?_)⟩ ?_ (by simp)
    · change moduleSectStart c dsNwkFramecountModule 1 ≤ x at h₁
      change x < moduleSectStart c dsNwkFramecountModule 1 + 4 at h₂
      rw [hg x (by omega), hframe x (by omega), herased x (inModule_frame (by decide) h₁ (by omega))]
    · refine hpush.congr fun x h₁ h₂ => hg x ?_
      change moduleSectStart c dsNwkFramecountModule 0 + 4 ≤ x at h₁
      omega
  apply wp_seq (writeHeader_wp hhead (0 : Byte))
  · exact fun x hx => inModule_frame hs hx.1 (by omega)
  · intro g' hcut hg
    rcases hcut with rfl | hvalid
    · exact .inl (hfresh hframe)
    · exact .inr (hfirst hvalid hg)
  intro ok g' hpost hg
  obtain ⟨rfl, hvalid⟩ := hpost
  have hlast := hfirst hvalid hg
  exact wp_pure ⟨rfl, hlast⟩ (.inr hlast)

/-- In a sector with room the new counter is one more word. -/
theorem nvFrameCountPut_append (h : FrameRep c f (.active q l)) (hl : l.length < framecountNumPerSect)
    (hn : n < 0xffffffff) (errSect : Nat) (seq : Byte) :
    wp (InModule c dsNwkFramecountModule)
      (nvFrameCountPut c ret false errSect n (sectOf q) (sectOf q) seq (framecountAddr c (sectOf q) l.length) false)
      (fun r g => r.1 = ret ∧ FrameRep c g (.active q (l ++ [n])))
      (fun g => FrameRep c g (.active q l) ∨ FrameRep c g (.active q (l ++ [n]))) f := by
  have hs := sectOf_lt q
  cases h with
  | active headers slots used =>
    have hrep {g : Flash} {l' : List Nat} (hslots : SlotsRep c (sectOf q) g l') (hused : l' ≠ [])
        (hg : ∀ x, ¬ (moduleSectStart c dsNwkFramecountModule (sectOf q) + 4 ≤ x ∧
          x < moduleSectEnd c dsNwkFramecountModule (sectOf q)) → g x = f x) :
        FrameRep c g (.active q l') := by
      refine .active (headers.congr fun s hs' x h₁ h₂ => hg x ?_) hslots hused
      have hapart := sectStart_apart c dsNwkFramecountModule q
      have hend := framecountSectEnd_eq c (sectOf q)
      obtain rfl | rfl : s = sectOf q ∨ s = 1 - sectOf q := by omega
      all_goals omega
    rw [nvFrameCountPut]
    apply wp_seq (slots.push_wp hl hn)
    · intro x hx
      exact inModule_frame hs (by omega) hx.2
    · intro g hcut hframe
      rcases hcut with rfl | hpush
      · exact .inl (.active headers slots used)
      · exact .inr (hrep hpush (by simp) hframe)
    intro ok g hpost hframe
    obtain ⟨rfl, hpush⟩ := hpost
    have hpos := List.length_pos_iff.mpr used
    have hne : ¬ framecountAddr c (sectOf q) l.length = framecountPayloadStart c (sectOf q) := by
      rw [framecountPayloadStart_eq, framecountAddr_eq]
      omega
    have hnew := hrep hpush (by simp) hframe
    rw [decide_eq_false hne]
    exact wp_pure ⟨rfl, hnew⟩ (.inr hnew)

/-- The other sector with the last and the new counter becomes the current one. -/
theorem nvFrameCountPut_roll (headers : Headers c dsNwkFramecountModule f q)
    (hold : SlotsRep c (sectOf q) f l) (used : l ≠ []) {last : Nat}
    (hnew : SlotsRep c (1 - sectOf q) f [last])
    (hhead : ∀ x, moduleSectStart c dsNwkFramecountModule (1 - sectOf q) ≤ x →
      x < moduleSectStart c dsNwkFramecountModule (1 - sectOf q) + 4 → f x = 0xff)
    (hn : n < 0xffffffff) (errSect : Nat) :
    wp (InModule c dsNwkFramecountModule)
      (nvFrameCountPut c ret false errSect n (sectOf q) (1 - sectOf q)
        ((mkSectInfo dsNwkFramecountModule q).opSect + 1) (framecountAddr c (1 - sectOf q) 1) true)
      (fun r g => r.1 = ret ∧ FrameRep c g (.active (seqNext q) [last, n]))
      (fun g => FrameRep c g (.active q l) ∨ FrameRep c g (.active (seqNext q) [last, n])) f := by
  have hs := sectOf_lt q
  have hs' : 1 - sectOf q < 2 := by omega
  have hapart := sectStart_apart c dsNwkFramecountModule q
  have hend := framecountSectEnd_eq c (sectOf q)
  have hend' := framecountSectEnd_eq c (1 - sectOf q)
  have hsect : sectOf (seqNext q) = 1 - sectOf q := sectOf_seqNext q
  rw [nvFrameCountPut, mkSectInfo_next headers.seq]
  apply wp_seq (hnew.push_wp (show 1 < framecountNumPerSect by decide) hn)
  · intro x hx
    exact inModule_frame hs' (by omega) hx.2
  · intro g _ hframe
    refine .inl (.active (headers.congr fun s hs'' x h₁ h₂ => hframe x ?_) (hold.congr fun x h₁ h₂ => hframe x ?_)
      used)
    · obtain rfl | rfl : s = sectOf q ∨ s = 1 - sectOf q := by omega
      all_goals omega
    · omega
  intro ok g hpost hframe
  obtain ⟨rfl, hpush⟩ := hpost
  simp only [Bool.not_true, Bool.false_eq_true, if_false, Bool.true_or, if_true]
  have hvalid : SectValid c dsNwkFramecountModule g (sectOf q) q :=
    headers.op.congr fun x h₁ h₂ => hframe x (by omega)
  have hhead' : ∀ x, moduleSectStart c dsNwkFramecountModule (1 - sectOf q) ≤ x →
      x < moduleSectStart c dsNwkFramecountModule (1 - sectOf q) + 4 → g x = 0xff := by
    intro x h₁ h₂
    rw [hframe x (by omega), hhead x h₁ h₂]
  have hkeep : FrameRep c g (.active q l) :=
    .active ⟨headers.seq, hvalid, .inl (.of_erased hhead')⟩ (hold.congr fun x h₁ h₂ => hframe x (by omega)) used
  -- the log of the new sector stays where it is
  have hcurrent {g₂ : Flash} (headers₂ : Headers c dsNwkFramecountModule g₂ (seqNext q))
      (hout : ∀ x, moduleSectStart c dsNwkFramecountModule (1 - sectOf q) + 4 ≤ x →
        x < moduleSectEnd c dsNwkFramecountModule (1 - sectOf q) → g₂ x = g x) :
      FrameRep c g₂ (.active (seqNext q) [last, n]) := by
    apply FrameRep.active headers₂ _ (by simp)
    rw [hsect]
    exact hpush.congr hout
  apply wp_seq (commitHeader_wp headers.seq hvalid hhead')
  · exact fun x hx => inModule_frame hs' hx.1 (by omega)
  · intro g₁ hcut hframe₁
    rcases hcut with rfl | headers₁
    · exact .inl hkeep
    · exact .inr (hcurrent headers₁ fun x h₁ h₂ => hframe₁ x (by omega))
  intro ok g₁ hpost hframe₁
  obtain ⟨rfl, headers₁, hvalid₁⟩ := hpost
  simp only [Bool.not_true, Bool.false_eq_true, if_false]
  apply wp_seq (giveUp_wp headers₁ hvalid₁)
  · exact fun x hx => inModule_frame hs hx.1 (by omega)
  · intro g₂ headers₂ hframe₂
    exact .inr (hcurrent headers₂ fun x h₁ h₂ => (hframe₂ x (by omega)).trans (hframe₁ x (by omega)))
  intro ok g₂ hpost hframe₂
  obtain ⟨rfl, headers₂⟩ := hpost
  have hlast := hcurrent headers₂ fun x h₁ h₂ => (hframe₂ x (by omega)).trans (hframe₁ x (by omega))
  exact wp_pure ⟨rfl, hlast⟩ (.inr hlast)

/-- A full sector is followed by the other one. -/
theorem nvFrameCountRoll_wp (headers : Headers c dsNwkFramecountModule f q)
    (hold : SlotsRep c (sectOf q) f l) (used : l ≠ []) (hn : n < 0xffffffff) (errSect : Nat) :
    wp (InModule c dsNwkFramecountModule)
      (nvFrameCountRoll c ret false errSect n (sectOf q) (mkSectInfo dsNwkFramecountModule q).opSect (l.getLastD 0))
      (fun r g => r.1 = ret ∧ FrameRep c g (.active (seqNext q) [l.getLastD 0, n]))
      (fun g => FrameRep c g (.active q l) ∨ FrameRep c g (.active (seqNext q) [l.getLastD 0, n])) f := by
  have hs := sectOf_lt q
  have hs' : 1 - sectOf q < 2 := by omega
  have hapart := sectStart_apart c dsNwkFramecountModule q
  have hend := framecountSectEnd_eq c (sectOf q)
  have hend' := framecountSectEnd_eq c (1 - sectOf q)
  have hnum : (sectOf q + 1) % moduleSectorNum = 1 - sectOf q := by
    unfold moduleSectorNum
    omega
  have hstart : modulesStartAddr c dsNwkFramecountModule + (1 - sectOf q) * flashSectorSize =
      moduleSectStart c dsNwkFramecountModule (1 - sectOf q) := rfl
  have hlast : l.getLastD 0 < 0xffffffff := by
    refine hold.bound _ ?_
    rw [List.getLastD_eq_getLast?, List.getLast?_eq_some_getLast used]
    exact List.getLast_mem used
  have hkeep {g : Flash} (hhead : Headers c dsNwkFramecountModule g q)
      (hg : ∀ x, ¬ (moduleSectStart c dsNwkFramecountModule (1 - sectOf q) ≤ x ∧
        x < moduleSectEnd c dsNwkFramecountModule (1 - sectOf q)) → g x = f x) :
      FrameRep c g (.active q l) := .active hhead (hold.congr fun x h₁ h₂ => hg x (by omega)) used
  rw [nvFrameCountRoll]
  dsimp only
  rw [hnum, hstart]
  generalize hg₁ : f.eraseSector (moduleSectStart c dsNwkFramecountModule (1 - sectOf q)) = g₁
  have hin : ∀ x, moduleSectStart c dsNwkFramecountModule (1 - sectOf q) ≤ x →
      x < moduleSectEnd c dsNwkFramecountModule (1 - sectOf q) → g₁ x = 0xff := by
    intro x h₁ h₂
    rw [← hg₁, eraseSector_apply (moduleSectStart_mod ..), if_pos (by omega)]
  have hout : ∀ x, ¬ (moduleSectStart c dsNwkFramecountModule (1 - sectOf q) ≤ x ∧
      x < moduleSectEnd c dsNwkFramecountModule (1 - sectOf q)) → g₁ x = f x := by
    intro x hx
    rw [← hg₁, eraseSector_apply (moduleSectStart_mod ..), if_neg (by omega)]
  have hhead₁ : Headers c dsNwkFramecountModule g₁ q :=
    ⟨headers.seq, headers.op.congr fun x h₁ h₂ => hout x (by omega),
      .inl (.of_erased fun x h₁ h₂ => hin x h₁ (by omega))⟩
  have herased : FrameRep c g₁ (.active q l) := hkeep hhead₁ hout
  apply wp_bind
  apply wp_issue
  · intro x hx
    have hmod := moduleSectStart_mod c dsNwkFramecountModule (1 - sectOf q)
    simp only [Device.foot, FlashOp.foot, flashSectorSize] at hx
    exact inModule_frame hs' (by omega) (by omega)
  · exact .inl (.active headers hold used)
  · rw [apply_erase, hg₁]
    exact .inl herased
  rw [apply_erase, hg₁]
  -- the last counter, so that the new sector never holds less than the old one
  have hslots : SlotsRep c (1 - sectOf q) g₁ [] := .of_erased fun x h₁ h₂ => hin x (by omega) h₂
  have hpayload : framecountPayloadStart c (1 - sectOf q) = framecountAddr c (1 - sectOf q) 0 :=
    framecountPayloadStart_eq ..
  rw [hpayload]
  have hpush := hslots.push_wp (show 0 < framecountNumPerSect by decide) hlast
  have hhead₂ {g : Flash} (hg : ∀ x, ¬ (moduleSectStart c dsNwkFramecountModule (1 - sectOf q) + 4 ≤ x ∧
      x < moduleSectEnd c dsNwkFramecountModule (1 - sectOf q)) → g x = g₁ x) :
      Headers c dsNwkFramecountModule g q := by
    refine hhead₁.congr fun s hs'' x h₁ h₂ => hg x ?_
    obtain rfl | rfl : s = sectOf q ∨ s = 1 - sectOf q := by omega
    all_goals omega
  apply wp_seq hpush
  · intro x hx
    exact inModule_frame hs' (by omega) hx.2
  · intro g _ hframe
    exact .inl (hkeep (hhead₂ hframe) fun x hx => (hframe x (by omega)).trans (hout x hx))
  intro ok g hpost hframe
  obtain ⟨rfl, hnew⟩ := hpost
  exact nvFrameCountPut_roll (hhead₂ hframe)
    (hold.congr fun x h₁ h₂ => (hframe x (by omega)).trans (hout x (by omega))) used hnew
    (fun x h₁ h₂ => (hframe x (by omega)).trans (hin x h₁ (by omega))) hn errSect

/-- A save: the counter is pushed, and if the power fails it is pushed or not. -/
theorem nvNwkFrameCountSaveToFlash_wp {m : FrameLog} (h : FrameRep c f m) (hn : n < 0xffffffff) :
    wp (InModule c dsNwkFramecountModule) (nvNwkFrameCountSaveToFlash c n)
      (fun r g => r = m.saveStatus ∧ FrameRep c g (m.push n))
      (fun g => FrameRep c g m ∨ FrameRep c g (m.push n)) f := by
  have hend {r : NvSts × Nat} {g : Flash} (hpost : r.1 = m.saveStatus ∧ FrameRep c g (m.push n)) :
      wp (InModule c dsNwkFramecountModule) (pure r.1 : FlashM NvSts)
        (fun r g => r = m.saveStatus ∧ FrameRep c g (m.push n))
        (fun g => FrameRep c g m ∨ FrameRep c g (m.push n)) g := wp_pure hpost (.inr hpost.2)
  apply wp_bind
  refine wp_mono ?_ (fun r g hpost => hend hpost) (fun _ h => h)
  rw [nvNwkFrameCountSaveToFlashHandler, Bool.false_and, if_neg Bool.false_ne_true]
  cases h with
  | fresh dead₀ dead₁ =>
    apply wp_seq (nvFrameCountSector_fresh dead₀ dead₁ 0xff)
    · exact fun _ hx => hx
    · exact fun g hg _ => .inl hg
    intro r g hpost _
    obtain ⟨rfl, herased⟩ := hpost
    have happart := moduleSect_disjoint c dsNwkFramecountModule (show 0 < 1 by decide)
    have hend := framecountSectEnd_eq c 0
    have hend₁ := framecountSectEnd_eq c 1
    have hslots : SlotsRep c 0 g [] :=
      .of_erased fun x h₁ h₂ => herased x (inModule_frame (by decide) (by omega) h₂)
    have hnow : FrameRep c g .fresh :=
      .fresh (.of_erased fun x h₁ h₂ => herased x (inModule_frame (by decide) h₁ (by omega)))
        (.of_erased fun x h₁ h₂ => herased x (inModule_frame (by decide) h₁ (by omega)))
    dsimp only
    apply wp_bind
    refine wp_query ?_ (.inl hnow)
    rw [hslots.search, if_pos rfl]
    exact nvFrameCountPut_first hn herased 0xff
  | @active q l headers slots used =>
    have hs := sectOf_lt q
    have hapart := sectStart_apart c dsNwkFramecountModule q
    have hend := framecountSectEnd_eq c (sectOf q)
    have hmod {g : Flash} (hhead : Headers c dsNwkFramecountModule g q)
        (hg : ∀ x, ¬ (moduleSectStart c dsNwkFramecountModule (1 - sectOf q) ≤ x ∧
          x < moduleSectStart c dsNwkFramecountModule (1 - sectOf q) + 2) → g x = f x) :
        FrameRep c g (.active q l) := .active hhead (slots.congr fun x h₁ h₂ => hg x (by omega)) used
    apply wp_seq (nvFrameCountSector_active headers 0xff)
    · intro x hx
      have hend' := framecountSectEnd_eq c (1 - sectOf q)
      exact inModule_frame (by omega) hx.1 (by omega)
    · intro g hhead hframe
      exact .inl (hmod hhead hframe)
    intro r g hpost hframe
    obtain ⟨rfl, hhead⟩ := hpost
    have hnow := hmod hhead hframe
    have hslots : SlotsRep c (sectOf q) g l := slots.congr fun x h₁ h₂ => hframe x (by omega)
    dsimp only
    apply wp_bind
    refine wp_query ?_ (.inl hnow)
    rw [hslots.search, if_neg used]
    dsimp only
    by_cases hl : l.length < framecountNumPerSect
    · have hlt := @framecountAddr_lt c (sectOf q) _ hl
      rw [FrameLog.push, if_pos hl, if_neg (by omega)]
      exact nvFrameCountPut_append hnow hl hn 0xff _
    · have hfull : framecountAddr c (sectOf q) l.length = moduleSectEnd c dsNwkFramecountModule (sectOf q) := by
        rw [Nat.le_antisymm slots.count (Nat.le_of_not_lt hl), framecountAddr_end]
      rw [FrameLog.push, if_neg hl, if_pos hfull]
      exact nvFrameCountRoll_wp hhead hslots used hn 0xff

end Save

/-! ### Loading -/

/-- Neighbouring counters of a log grow, by at most twice the update threshold. -/
def Steps (l : List Nat) : Prop :=
  ∀ k (h : k + 1 < l.length), l[k] ≤ l[k + 1] ∧ l[k + 1] ≤ l[k] + 2 * updateFramecountThres

theorem Steps.push {l : List Nat} (h : Steps l) {n : Nat}
    (hn : ∀ v, l.getLast? = some v → v ≤ n ∧ n ≤ v + 2 * updateFramecountThres) : Steps (l ++ [n]) := by
  intro k hk
  rw [List.length_append, List.length_singleton] at hk
  have hk' : k < l.length := by omega
  rw [List.getElem_append_left hk']
  by_cases hin : k + 1 < l.length
  · rw [List.getElem_append_left hin]
    exact h k hin
  · rw [List.getElem_concat_length (by omega)]
    exact hn l[k] (getLast?_eq_some hk' (by omega))

/-- The counter a load returns. -/
def FrameLog.last : FrameLog → Option Nat
  | .fresh => none
  | .active _ l => l.getLast?

def FrameLog.Steps : FrameLog → Prop
  | .fresh => True
  | .active _ l => Nv.Steps l

section Load
variable {c : NvCfg} {f : Flash}

/-- A load returns the last counter of the log; the back-off is never taken. -/
theorem nvNwkFrameCountFromFlash_wp {m : FrameLog} (h : FrameRep c f m) (hsteps : m.Steps) :
    wp (fun _ => False) (nvNwkFrameCountFromFlash c)
      (fun r g => r = readResult m.last ∧ g = f)
      (fun g => g = f) f := by
  apply wp_bind
  cases h with
  | fresh dead₀ dead₁ =>
    apply wp_mono (nvSectorRead_fresh dead₀ dead₁)
    swap
    · exact fun _ h => h
    intro r g hpost
    obtain ⟨rfl, rfl⟩ := hpost
    exact wp_pure ⟨rfl, rfl⟩ rfl
  | @active q l headers slots used =>
    have hpos := List.length_pos_iff.mpr used
    have hlast : l.getLast? = some (l.getLastD 0) := by
      rw [List.getLastD_eq_getLast?, List.getLast?_eq_some_getLast used]
      rfl
    apply wp_mono (nvSectorRead_read (by decide) headers)
    swap
    · exact fun _ h => h
    intro r g hpost
    obtain ⟨rfl, rfl⟩ := hpost
    dsimp only
    rw [mkSectInfo_sect headers.seq]
    apply wp_bind
    refine wp_query ?_ rfl
    rw [slots.search, if_neg used]
    dsimp only [FrameLog.last]
    rw [hlast, framecountPayloadStart_eq, framecountAddr_eq]
    split_ifs with hlong
    · have hprev : moduleSectStart c dsNwkFramecountModule (sectOf q) + 4 + 4 * l.length - 8 =
          framecountAddr c (sectOf q) (l.length - 2) := by
        rw [framecountAddr_eq]
        omega
      have hthis : moduleSectStart c dsNwkFramecountModule (sectOf q) + 4 + 4 * l.length - 4 =
          framecountAddr c (sectOf q) (l.length - 2 + 1) := by
        rw [framecountAddr_eq]
        omega
      obtain ⟨hle, hdiff⟩ := hsteps (l.length - 2) (by omega)
      apply wp_bind
      refine wp_query ?_ rfl
      rw [hprev, hthis, slots.readWord_slot (by omega), slots.readWord_slot (by omega),
        if_neg (by rw [updateFramecountThres] at *; omega)]
      exact wp_pure ⟨rfl, rfl⟩ rfl
    · exact wp_pure ⟨rfl, rfl⟩ rfl

end Load

/-! ### Runs -/

/-- A counter that may be saved: it does not fall behind the ones passed so far and is at most
2048 above the value that a load returns. -/
structure Saveable (c : NvCfg) (f : Flash) (passed : List Nat) (n : Nat) : Prop where
  bound : n < 0xffffffff - 1024
  mono : ∀ m ∈ passed, m ≤ n
  near : ∀ v, (nvNwkFrameCountFromFlash c).value f = (.succ, some v) → n ≤ v + 2048

/-- Runs of saves, some of them cut, and loads. `saved` is the last counter whose save completed,
`passed` are the counters of all saves. -/
inductive SaveRun (c : NvCfg) : Flash → Option Nat → List Nat → Prop where
  | erased {f : Flash} (h : Erased c dsNwkFramecountModule f) : SaveRun c f none []
  | completed {f : Flash} {saved : Option Nat} {passed : List Nat} {n : Nat} (h : SaveRun c f saved passed)
      (hn : Saveable c f passed n) :
      SaveRun c ((nvNwkFrameCountSaveToFlash c n).final f) (some n) (n :: passed)
  | cut {f t : Flash} {saved : Option Nat} {passed : List Nat} {n : Nat} (h : SaveRun c f saved passed)
      (hn : Saveable c f passed n) (ht : (nvNwkFrameCountSaveToFlash c n).Cut f t) :
      SaveRun c t saved (n :: passed)
  | load {f t : Flash} {saved : Option Nat} {passed : List Nat} (h : SaveRun c f saved passed)
      (ht : (nvNwkFrameCountFromFlash c).Cut f t) : SaveRun c t saved passed

/-- The log lies between the completed saves and the counters passed. -/
structure SaveInv (m : FrameLog) (saved : Option Nat) (passed : List Nat) : Prop where
  steps : m.Steps
  saved_le : ∀ n, saved = some n → ∃ v, m.last = some v ∧ n ≤ v
  last_mem : ∀ v, m.last = some v → v ∈ passed

theorem FrameLog.last_push (m : FrameLog) (n : Nat) : (m.push n).last = some n := by
  cases m with
  | fresh => rfl
  | active q l =>
    rw [FrameLog.push]
    split_ifs
    · exact List.getLast?_concat
    · rfl

section Run
variable {c : NvCfg} {f : Flash} {m : FrameLog} {saved : Option Nat} {passed : List Nat} {n : Nat}

/-- A saved counter takes the log one step further. -/
theorem SaveInv.push (h : SaveInv m saved passed) (hrep : FrameRep c f m) (hn : Saveable c f passed n) :
    (m.push n).Steps ∧ ∀ k, saved = some k → k ≤ n := by
  have hload := (wp_result (nvNwkFrameCountFromFlash_wp hrep h.steps)).1
  have hlast : ∀ v, m.last = some v → v ≤ n ∧ n ≤ v + 2 * updateFramecountThres := by
    intro v hv
    refine ⟨hn.mono v (h.last_mem v hv), hn.near v ?_⟩
    rw [hload, hv]
    rfl
  constructor
  · cases hrep with
    | fresh dead₀ dead₁ =>
      intro k hk
      exact absurd hk (by simp)
    | @active q l headers slots used =>
      rw [FrameLog.push]
      split_ifs
      · exact Nv.Steps.push h.steps hlast
      · have hend := hlast (l.getLastD 0) (by
          change l.getLast? = _
          rw [List.getLastD_eq_getLast?, List.getLast?_eq_some_getLast used]
          rfl)
        intro k hk
        obtain rfl : k = 0 := by
          rw [List.length_cons, List.length_singleton] at hk
          omega
        exact hend
  · intro k hk
    obtain ⟨v, hv, hkv⟩ := h.saved_le k hk
    exact Nat.le_trans hkv (hlast v hv).1

theorem SaveRun.inv (h : SaveRun c f saved passed) : ∃ m, FrameRep c f m ∧ SaveInv m saved passed := by
  induction h with
  | erased h =>
    cases moduleRep_erased h false with
    | fresh dead₀ dead₁ table₀ table₁ =>
      exact ⟨.fresh, .fresh dead₀ dead₁, trivial, fun n hn => absurd hn (by simp),
        fun v hv => absurd hv (by simp [FrameLog.last])⟩
  | @completed f saved passed n _ hn ih =>
    obtain ⟨m, hrep, hinv⟩ := ih
    obtain ⟨hsteps, -⟩ := hinv.push hrep hn
    have hlt : n < 0xffffffff := Nat.lt_of_lt_of_le hn.bound (by decide)
    obtain ⟨-, hrep'⟩ := wp_result (nvNwkFrameCountSaveToFlash_wp hrep hlt)
    refine ⟨m.push n, hrep', hsteps, fun k hk => ⟨n, m.last_push n, ?_⟩, fun v hv => ?_⟩
    · exact Nat.le_of_eq (Option.some.inj hk).symm
    · rw [m.last_push n] at hv
      rw [← Option.some.inj hv]
      exact List.mem_cons_self
  | @cut f t saved passed n _ hn ht ih =>
    obtain ⟨m, hrep, hinv⟩ := ih
    obtain ⟨hsteps, hle⟩ := hinv.push hrep hn
    have hlt : n < 0xffffffff := Nat.lt_of_lt_of_le hn.bound (by decide)
    rcases wp_cut (nvNwkFrameCountSaveToFlash_wp hrep hlt) ht with hrep' | hrep'
    · exact ⟨m, hrep', hinv.steps, hinv.saved_le, fun v hv => List.mem_cons_of_mem _ (hinv.last_mem v hv)⟩
    · refine ⟨m.push n, hrep', hsteps, fun k hk => ⟨n, m.last_push n, hle k hk⟩, fun v hv => ?_⟩
      rw [m.last_push n] at hv
      rw [← Option.some.inj hv]
      exact List.mem_cons_self
  | load _ ht ih =>
    obtain ⟨m, hrep, hinv⟩ := ih
    obtain rfl := wp_cut (nvNwkFrameCountFromFlash_wp hrep hinv.steps) ht
    exact ⟨m, hrep, hinv⟩

/-- **Anti-replay.** After at least one completed save a load succeeds with a value that is at
least the last counter whose save completed and at most some counter passed to a save. -/
theorem nvNwkFrameCountFromFlash_between (h : SaveRun c f (some n) passed) :
    ∃ v, (nvNwkFrameCountFromFlash c).value f = (.succ, some v) ∧ n ≤ v ∧ ∃ m ∈ passed, v ≤ m := by
  obtain ⟨m, hrep, hinv⟩ := h.inv
  obtain ⟨v, hv, hnv⟩ := hinv.saved_le n rfl
  refine ⟨v, ?_, hnv, v, hinv.last_mem v hv, Nat.le_refl v⟩
  rw [(wp_result (nvNwkFrameCountFromFlash_wp hrep hinv.steps)).1, hv]
  rfl

end Run

/-- The first save of an erased module, of counter 3, is cut after one operation. -/
def cutFirstSave : Flash :=
  Crash.run (fun _ => 0xff) (((nvNwkFrameCountSaveToFlash ⟨false, false⟩ 3).ops fun _ => 0xff).take 1)

/-- Counter 5 and then counter 7 is saved behind it. -/
def savedOnce : Flash := (nvNwkFrameCountSaveToFlash ⟨false, false⟩ 5).final cutFirstSave
def savedTwice : Flash := (nvNwkFrameCountSaveToFlash ⟨false, false⟩ 7).final savedOnce

/-- The power fails before the flash write of counter 9. -/
def cutThirdSave : Flash :=
  Crash.run savedTwice (((nvNwkFrameCountSaveToFlash ⟨false, false⟩ 9).ops savedTwice).take 0)

/-- Saveable behind what a load returns. -/
theorem Saveable.of_load {c : NvCfg} {f : Flash} {passed : List Nat} {n : Nat} {r : NvSts × Option Nat}
    (hload : (nvNwkFrameCountFromFlash c).value f = r) (hr : ∀ v, r = (.succ, some v) → n ≤ v + 2048)
    (hbound : n < 0xffffffff - 1024) (hmono : ∀ m ∈ passed, m ≤ n) : Saveable c f passed n :=
  ⟨hbound, hmono, fun v hv => hr v (hload.symm.trans hv)⟩

theorem nvNwkFrameCountFromFlash_between_cut :
    ∃ v, (nvNwkFrameCountFromFlash ⟨false, false⟩).value cutThirdSave = (.succ, some v) ∧ 7 ≤ v ∧
      ∃ m ∈ [9, 7, 5, 3], v ≤ m := by
  have h₀ : SaveRun ⟨false, false⟩ (fun _ => 0xff) none [] := .erased fun _ _ => rfl
  have h₁ : SaveRun ⟨false, false⟩ cutFirstSave none [3] :=
    .cut h₀ (.of_load (r := (.itemNotFound, none)) (by decide +kernel) nofun (by decide) nofun)
      ⟨_, List.take_prefix 1 _, rfl⟩
  have h₂ : SaveRun ⟨false, false⟩ savedOnce (some 5) [5, 3] :=
    .completed h₁ (.of_load (r := (.itemNotFound, none)) (by decide +kernel) nofun (by decide) (by decide))
  have h₃ : SaveRun ⟨false, false⟩ savedTwice (some 7) [7, 5, 3] :=
    .completed h₂ (.of_load (r := (.succ, some 5)) (by decide +kernel) (by rintro v ⟨⟩; decide) (by decide)
      (by decide))
  have h₄ : SaveRun ⟨false, false⟩ cutThirdSave (some 7) [9, 7, 5, 3] :=
    .cut h₃ (.of_load (r := (.succ, some 7)) (by decide +kernel) (by rintro v ⟨⟩; decide) (by decide) (by decide))
      ⟨_, List.take_prefix 0 _, rfl⟩
  exact nvNwkFrameCountFromFlash_between h₄

end Rf4ce.Nv

import Rf4ce.Nv.AntiReplay
import Mathlib.Logic.Function.Iterate

/-! The back-off of a load whose log ends in two counters that do not follow each other. -/
namespace Rf4ce.Nv
open Crash Drv Common

/-- The second counter lies below the first or more than two thresholds away from it. -/
def OutOfStep (p cnt : Nat) : Prop := cnt < p ∨ max cnt p - min cnt p > updateFramecountThres * 2

instance (p cnt : Nat) : Decidable (OutOfStep p cnt) := inferInstanceAs (Decidable (_ ∨ _))

/-- What a load owes to a log that ends in `p` and `cnt`: counters in step are taken as they are;
else it backs off to a counter above `p`, which all later loads return as well. -/
def BacksOff (c : NvCfg) (f : Flash) (p cnt : Nat) : Prop :=
  let load := nvNwkFrameCountFromFlash c
  if OutOfStep p cnt then
    ∀ k, load.value (load.final^[k] f) = (.succ, some (p + updateFramecountThres))
  else load.value f = (.succ, some cnt) ∧ load.final f = f

/-! ### The forced change of the sector -/

/-- A stored word counts unless it is the one of an erased slot. -/
def storedSlots (n : Nat) : List Nat := if n < 0xffffffff then [n] else []

/-- Ones clear nothing. -/
theorem program_ones (f : Flash) (addr n : Nat) : f.program addr (List.replicate n 0xff) = f := by
  funext x
  rw [Flash.program]
  split_ifs
  · rw [List.getD_eq_getElem?_getD, List.getElem?_getD_replicate_default_eq]
    exact BitVec.and_allOnes
  · rfl

section Forced
variable {c : NvCfg} {f : Flash} {q : Byte} {n : Nat}

/-- The first word of an erased sector. -/
theorem SlotsRep.first_wp {s : Nat} (h : SlotsRep c s f []) (hn : n ≤ 0xffffffff) :
    wp (fun x => moduleSectStart c dsNwkFramecountModule s + 4 ≤ x ∧
        x < moduleSectEnd c dsNwkFramecountModule s)
      (flashWriteWithCheck (framecountAddr c s 0) (le32 n))
      (fun ok g => ok = true ∧ SlotsRep c s g (storedSlots n)) (fun _ => True) f := by
  have hzero : 0 < framecountNumPerSect := by decide
  by_cases hlt : n < 0xffffffff
  · rw [storedSlots, if_pos hlt]
    exact wp_mono (h.push_wp hzero hlt) (fun _ _ h => h) (fun _ _ => trivial)
  · have hend := @framecountAddr_lt c s 0 hzero
    have haddr := framecountAddr_eq c s 0
    have hones : le32 n = List.replicate 4 0xff := by
      obtain rfl : n = 0xffffffff := by omega
      decide
    have hsame : f.program (framecountAddr c s 0) (le32 n) = f := by rw [hones, program_ones]
    have hback : bytes f (framecountAddr c s 0) (le32 n).length = le32 n := by
      rw [hones]
      exact bytes_const fun x h₁ h₂ => h.blank x h₁ (by rw [List.length_replicate] at h₂; omega)
    rw [storedSlots, if_neg hlt]
    apply flashWriteWithCheck_wp (by rw [le32_length]; decide)
    · intro x h₁ h₂
      rw [le32_length] at h₂
      omega
    · simp
    · rw [hsame]
      exact ⟨decide_eq_true hback, h⟩

/-- The forced change goes to the other sector and erases it. -/
theorem nvFrameCountSector_forced (h : Headers c dsNwkFramecountModule f q) :
    wp (fun x => moduleSectStart c dsNwkFramecountModule (1 - sectOf q) ≤ x ∧
        x < moduleSectEnd c dsNwkFramecountModule (1 - sectOf q))
      (nvFrameCountSector c true (sectOf q))
      (fun r g => r = (.succ, 1 - sectOf q, (mkSectInfo dsNwkFramecountModule q).opSect + 1) ∧
        ∀ x, moduleSectStart c dsNwkFramecountModule (1 - sectOf q) ≤ x →
          x < moduleSectEnd c dsNwkFramecountModule (1 - sectOf q) → g x = 0xff)
      (fun _ => True) f := by
  have hs := sectOf_lt q
  have hend := framecountSectEnd_eq c (1 - sectOf q)
  have hmod := moduleSectStart_mod c dsNwkFramecountModule (1 - sectOf q)
  have hnum : (sectOf q + 1) % moduleSectorNum = 1 - sectOf q := by
    unfold moduleSectorNum
    omega
  have hstart : modulesStartAddr c dsNwkFramecountModule + (1 - sectOf q) * nvSectorSize dsNwkFramecountModule =
      moduleSectStart c dsNwkFramecountModule (1 - sectOf q) := rfl
  apply wp_seq (nvSectorRead_write (by decide) h)
  · intro x hx
    omega
  · simp
  intro r g hpost _
  obtain ⟨rfl, -⟩ := hpost
  dsimp only
  rw [if_pos rfl, hnum, hstart]
  apply wp_seq (flashEraseSectors_wp g hmod _)
  · intro x hx
    change _ ∧ x < _ + 4096 * 1 at hx
    omega
  · simp
  intro _ g' hg' _
  refine wp_pure ⟨rfl, fun x h₁ h₂ => ?_⟩ trivial
  rw [hg']
  apply eraseRange_in h₁
  change x < _ + 4096 * 1
  omega

/-- The counter that starts the other sector, its header and the end of the old sector. -/
theorem nvFrameCountPut_forced (hq : q < 4) (hvalid : SectValid c dsNwkFramecountModule f (sectOf q) q)
    (herased : ∀ x, moduleSectStart c dsNwkFramecountModule (1 - sectOf q) ≤ x →
      x < moduleSectEnd c dsNwkFramecountModule (1 - sectOf q) → f x = 0xff)
    (hn : n ≤ 0xffffffff) (ret : NvSts) (oldSect : Nat) :
    wp (fun _ => True)
      (nvFrameCountPut c ret true (sectOf q) n oldSect (1 - sectOf q)
        ((mkSectInfo dsNwkFramecountModule q).opSect + 1) (framecountAddr c (1 - sectOf q) 0) false)
      (fun _ g => Headers c dsNwkFramecountModule g (seqNext q) ∧
        SlotsRep c (sectOf (seqNext q)) g (storedSlots n))
      (fun _ => True) f := by
  have hapart := sectStart_apart c dsNwkFramecountModule q
  have hend := framecountSectEnd_eq c (sectOf q)
  have hend' := framecountSectEnd_eq c (1 - sectOf q)
  have hstart : framecountAddr c (1 - sectOf q) 0 = framecountPayloadStart c (1 - sectOf q) :=
    (framecountPayloadStart_eq ..).symm
  have hblank : SlotsRep c (1 - sectOf q) f [] := .of_erased fun x h₁ h₂ => herased x (by omega) h₂
  rw [nvFrameCountPut, mkSectInfo_next hq, sectOf_seqNext]
  apply wp_seq (hblank.first_wp hn)
  · simp
  · simp
  intro ok g hpost hframe
  obtain ⟨rfl, hslots⟩ := hpost
  have hhead : ∀ x, moduleSectStart c dsNwkFramecountModule (1 - sectOf q) ≤ x →
      x < moduleSectStart c dsNwkFramecountModule (1 - sectOf q) + 4 → g x = 0xff := by
    intro x h₁ h₂
    rw [hframe x (by omega), herased x h₁ (by omega)]
  have hvalid' : SectValid c dsNwkFramecountModule g (sectOf q) q :=
    hvalid.congr fun x h₁ h₂ => hframe x (by omega)
  rw [decide_eq_true hstart]
  simp only [Bool.not_true, Bool.false_eq_true, if_false, Bool.or_true, if_true]
  apply wp_seq (commitHeader_wp hq hvalid' hhead)
  · simp
  · simp
  intro ok g₁ hpost hframe₁
  obtain ⟨rfl, headers₁, hvalid₁⟩ := hpost
  simp only [Bool.not_true, Bool.false_eq_true, if_false]
  apply wp_seq (giveUp_wp headers₁ hvalid₁)
  · simp
  · simp
  intro ok g₂ hpost hframe₂
  apply wp_pure _ trivial
  constructor
  · exact hpost.2
  · exact hslots.congr fun x h₁ h₂ => (hframe₂ x (by omega)).trans (hframe₁ x (by omega))

/-- A forced save leaves its counter alone in the other sector. -/
theorem nvNwkFrameCountSaveToFlashHandler_forced (h : Headers c dsNwkFramecountModule f q)
    (hn : n ≤ 0xffffffff) :
    wp (fun _ => True) (nvNwkFrameCountSaveToFlashHandler c true (sectOf q) n)
      (fun _ g => Headers c dsNwkFramecountModule g (seqNext q) ∧
        SlotsRep c (sectOf (seqNext q)) g (storedSlots n))
      (fun _ => True) f := by
  have hs := sectOf_lt q
  have hapart := sectStart_apart c dsNwkFramecountModule q
  have hend := framecountSectEnd_eq c (1 - sectOf q)
  have hpermit : ¬ (true && decide (sectOf q > 1)) = true := by simpa using Nat.le_of_lt_succ hs
  rw [nvNwkFrameCountSaveToFlashHandler, if_neg hpermit]
  apply wp_seq (nvFrameCountSector_forced h)
  · simp
  · simp
  intro r g hpost hframe
  obtain ⟨rfl, herased⟩ := hpost
  have hblank : SlotsRep c (1 - sectOf q) g [] := .of_erased fun x h₁ h₂ => herased x (by omega) h₂
  dsimp only
  apply wp_bind
  apply wp_query _ trivial
  rw [hblank.search, if_pos rfl]
  exact nvFrameCountPut_forced h.seq (h.op.congr fun x h₁ h₂ => hframe x (by omega)) herased hn _ _

end Forced

/-! ### What a load does -/

section Load
variable {c : NvCfg} {f : Flash} {q : Byte} {l : List Nat} {p cnt n : Nat}

/-- The words the check reads are the last two counters. -/
theorem SlotsRep.lastWords {s : Nat} (h : SlotsRep c s f (l ++ [p, cnt])) :
    readWord f (framecountAddr c s (l ++ [p, cnt]).length - 8) = p ∧
      readWord f (framecountAddr c s (l ++ [p, cnt]).length - 4) = cnt := by
  have hlen : (l ++ [p, cnt]).length = l.length + 2 := by simp
  have hprev : framecountAddr c s (l.length + 2) - 8 = framecountAddr c s l.length := by
    simp only [framecountAddr_eq]
    omega
  have hthis : framecountAddr c s (l.length + 2) - 4 = framecountAddr c s (l.length + 1) := by
    simp only [framecountAddr_eq]
    omega
  constructor
  · rw [hlen, hprev, h.readWord_slot (by omega)]
    simp
  · rw [hlen, hthis, h.readWord_slot (by omega)]
    simp

/-- A log of two counters is not checked, nor is one whose counters are in step repaired. -/
theorem nvNwkFrameCountFromFlash_kept (h : FrameRep c f (.active q (l ++ [p, cnt])))
    (hkept : l = [] ∨ ¬ OutOfStep p cnt) :
    wp (fun _ => False) (nvNwkFrameCountFromFlash c)
      (fun r g => r = (.succ, some cnt) ∧ g = f) (fun g => g = f) f := by
  cases h with
  | active headers slots used =>
    have hlast : (l ++ [p, cnt]).getLastD 0 = cnt := by simp
    obtain ⟨hprev, hthis⟩ := slots.lastWords
    apply wp_bind
    apply wp_mono (nvSectorRead_read (by decide) headers)
    swap
    · simp
    intro r g hpost
    obtain ⟨rfl, rfl⟩ := hpost
    dsimp only
    rw [mkSectInfo_sect headers.seq]
    apply wp_bind
    refine wp_query ?_ rfl
    rw [slots.search, if_neg used]
    dsimp only
    rw [hlast]
    split_ifs with hlong
    · have hne : l ≠ [] := by
        intro hnil
        rw [hnil, framecountPayloadStart_eq, framecountAddr_eq] at hlong
        simp at hlong
      apply wp_bind
      refine wp_query ?_ rfl
      rw [hprev, hthis]
      have hstep : ¬ (cnt < p ∨ max cnt p - min cnt p > updateFramecountThres * 2) := hkept.resolve_left hne
      rw [if_neg hstep]
      exact wp_pure ⟨rfl, rfl⟩ rfl
    · exact wp_pure ⟨rfl, rfl⟩ rfl

/-- From three counters on a load that finds the last two out of step moves to the other sector. -/
theorem nvNwkFrameCountFromFlash_repaired (h : FrameRep c f (.active q (l ++ [p, cnt]))) (hne : l ≠ [])
    (hstep : OutOfStep p cnt) (hp : p ≤ 0xffffffff - 1024) :
    wp (fun _ => True) (nvNwkFrameCountFromFlash c)
      (fun r g => r = (.succ, some (p + updateFramecountThres)) ∧
        Headers c dsNwkFramecountModule g (seqNext q) ∧
        SlotsRep c (sectOf (seqNext q)) g (storedSlots (p + updateFramecountThres)))
      (fun _ => True) f := by
  cases h with
  | active headers slots used =>
    have hpos := List.length_pos_iff.mpr hne
    have hsum : u32 (p + updateFramecountThres) = p + updateFramecountThres :=
      u32_eq (by rw [updateFramecountThres]; omega)
    have hmax : p + updateFramecountThres ≤ 0xffffffff := by
      rw [updateFramecountThres]
      omega
    have hlong : framecountAddr c (sectOf q) (l ++ [p, cnt]).length > framecountPayloadStart c (sectOf q) + 8 := by
      rw [framecountPayloadStart_eq, framecountAddr_eq, List.length_append]
      simp only [List.length_cons, List.length_nil]
      omega
    obtain ⟨hprev, hthis⟩ := slots.lastWords
    have hstep' : cnt < p ∨ max cnt p - min cnt p > updateFramecountThres * 2 := hstep
    apply wp_seq (nvSectorRead_read (R := fun _ => True) (by decide) headers)
    · simp
    · simp
    intro r g hpost _
    obtain ⟨rfl, rfl⟩ := hpost
    dsimp only
    rw [mkSectInfo_sect headers.seq]
    apply wp_bind
    apply wp_query _ trivial
    rw [slots.search, if_neg used]
    dsimp only
    rw [if_pos hlong]
    apply wp_bind
    apply wp_query _ trivial
    rw [hprev, hthis, if_pos hstep', hsum]
    apply wp_bind
    apply wp_mono (nvNwkFrameCountSaveToFlashHandler_forced headers hmax)
    · intro _ g hg
      exact wp_pure ⟨rfl, hg⟩ trivial
    · simp

/-- A current sector without a counter in it has nothing to load. -/
theorem nvNwkFrameCountFromFlash_empty (headers : Headers c dsNwkFramecountModule f q)
    (slots : SlotsRep c (sectOf q) f []) :
    wp (fun _ => False) (nvNwkFrameCountFromFlash c)
      (fun r g => r = (.itemNotFound, none) ∧ g = f) (fun g => g = f) f := by
  apply wp_bind
  apply wp_mono (nvSectorRead_read (by decide) headers)
  swap
  · simp
  intro r g hpost
  obtain ⟨rfl, rfl⟩ := hpost
  dsimp only
  rw [mkSectInfo_sect headers.seq]
  apply wp_bind
  refine wp_query ?_ rfl
  rw [slots.search, if_pos rfl]
  exact wp_pure ⟨rfl, rfl⟩ rfl

/-- The counter backed off to is not the one found out of step. -/
theorem outOfStep_ne (h : OutOfStep p cnt) :
    (NvSts.succ, some cnt) ≠ (.succ, some (p + updateFramecountThres)) := by
  intro heq
  have hcnt : cnt = p + updateFramecountThres := Option.some.inj (Prod.mk.inj heq).2
  rw [OutOfStep, updateFramecountThres] at h
  rw [updateFramecountThres] at hcnt
  omega

/-- A load that changes nothing is answered the same way from then on. -/
theorem load_again {v : NvSts × Option Nat}
    (h : (nvNwkFrameCountFromFlash c).value f = v ∧ (nvNwkFrameCountFromFlash c).final f = f) (k : Nat) :
    (nvNwkFrameCountFromFlash c).value ((nvNwkFrameCountFromFlash c).final^[k] f) = v := by
  rw [Function.iterate_fixed h.2]
  exact h.1

/-- A sector that holds one counter is loaded as it is. -/
theorem nvNwkFrameCountFromFlash_single (h : FrameRep c f (.active q [n])) :
    (nvNwkFrameCountFromFlash c).value f = (.succ, some n) ∧ (nvNwkFrameCountFromFlash c).final f = f := by
  have hsteps : (FrameLog.active q [n]).Steps := by
    intro k hk
    simp at hk
  exact wp_result (nvNwkFrameCountFromFlash_wp h hsteps)

/-- **Back-off.** A log that ends in counters out of step is repaired for good unless these two are
all the sector holds or the counter to back off to reads as an erased word. -/
theorem nvNwkFrameCountFromFlash_backsOff_iff (h : FrameRep c f (.active q (l ++ [p, cnt])))
    (hp : p ≤ 0xffffffff - 1024) :
    BacksOff c f p cnt ↔ (OutOfStep p cnt → l ≠ [] ∧ p ≠ 0xffffffff - 1024) := by
  rw [BacksOff]
  by_cases hstep : OutOfStep p cnt
  swap
  · rw [if_neg hstep]
    exact iff_of_true (wp_result (nvNwkFrameCountFromFlash_kept h (.inr hstep))) fun hbad => absurd hbad hstep
  rw [if_pos hstep]
  by_cases hne : l = []
  · have hkept := (wp_result (nvNwkFrameCountFromFlash_kept h (.inl hne))).1
    apply iff_of_false
    · exact fun hall => outOfStep_ne hstep (hkept.symm.trans (hall 0))
    · exact fun hcond => (hcond hstep).1 hne
  obtain ⟨hvalue, headers, slots⟩ := wp_result (nvNwkFrameCountFromFlash_repaired h hne hstep hp)
  by_cases hmax : p = 0xffffffff - 1024
  · rw [storedSlots, if_neg (by rw [updateFramecountThres]; omega)] at slots
    have hlost := (wp_result (nvNwkFrameCountFromFlash_empty headers slots)).1
    apply iff_of_false
    · intro hall
      have hnext := hall 1
      rw [Function.iterate_one, hlost] at hnext
      simp at hnext
    · exact fun hcond => (hcond hstep).2 hmax
  · rw [storedSlots, if_pos (by rw [updateFramecountThres]; omega)] at slots
    have hagain := load_again (nvNwkFrameCountFromFlash_single (.active headers slots (by simp)))
    apply iff_of_true
    · intro k
      cases k with
      | zero => exact hvalue
      | succ k => exact hagain k
    · exact fun _ => ⟨hne, hmax⟩

end Load

/-! ### Logs of saved counters -/

/-- The flash after saves, from erased flash on. -/
def afterSaves (c : NvCfg) (ns : List Nat) : Flash :=
  ns.foldl (fun f n => (nvNwkFrameCountSaveToFlash c n).final f) fun _ => 0xff

theorem FrameRep.saves {c : NvCfg} {f : Flash} {m : FrameLog} {ns : List Nat} (h : FrameRep c f m)
    (hns : ∀ n ∈ ns, n < 0xffffffff) :
    FrameRep c (ns.foldl (fun f n => (nvNwkFrameCountSaveToFlash c n).final f) f)
      (ns.foldl (fun m n => m.push n) m) := by
  induction ns generalizing f m with
  | nil => exact h
  | cons n ns ih =>
    obtain ⟨hn, hrest⟩ := List.forall_mem_cons.mp hns
    have hnext : FrameRep c ((nvNwkFrameCountSaveToFlash c n).final f) (m.push n) :=
      (wp_result (nvNwkFrameCountSaveToFlash_wp h hn)).2
    rw [List.foldl_cons, List.foldl_cons]
    exact ih hnext hrest

theorem afterSaves_rep (c : NvCfg) {ns : List Nat} (hns : ∀ n ∈ ns, n < 0xffffffff) :
    FrameRep c (afterSaves c ns) (ns.foldl (fun m n => m.push n) .fresh) := by
  have herased : Erased c dsNwkFramecountModule fun _ => 0xff := fun _ _ => rfl
  cases moduleRep_erased herased false with
  | fresh dead₀ dead₁ table₀ table₁ => exact FrameRep.saves (.fresh dead₀ dead₁) hns

/-- Counters 1, 5000 and 100: the third one is refused. -/
theorem nvNwkFrameCountFromFlash_backsOff_three : BacksOff ⟨false, false⟩ (afterSaves ⟨false, false⟩ [1, 5000, 100])
    5000 100 ↔ (OutOfStep 5000 100 → [1] ≠ [] ∧ 5000 ≠ 0xffffffff - 1024) :=
  nvNwkFrameCountFromFlash_backsOff_iff (q := 0) (l := [1]) (afterSaves_rep ⟨false, false⟩ (by decide)) (by decide)

/-- Counters 5000 and 100: a load returns the second one. -/
theorem nvNwkFrameCountFromFlash_backsOff_fails :
    FrameRep ⟨false, false⟩ (afterSaves ⟨false, false⟩ [5000, 100]) (.active 0 [5000, 100]) ∧
      ¬ BacksOff ⟨false, false⟩ (afterSaves ⟨false, false⟩ [5000, 100]) 5000 100 := by
  have hrep : FrameRep ⟨false, false⟩ (afterSaves ⟨false, false⟩ [5000, 100]) (.active 0 ([] ++ [5000, 100])) :=
    afterSaves_rep ⟨false, false⟩ (by decide)
  have hkept := (wp_result (nvNwkFrameCountFromFlash_kept hrep (.inl rfl))).1
  have hstep : OutOfStep 5000 100 := by decide
  constructor
  · exact hrep
  · intro hback
    rw [BacksOff, if_pos hstep] at hback
    exact outOfStep_ne hstep (hkept.symm.trans (hback 0))

end Rf4ce.Nv

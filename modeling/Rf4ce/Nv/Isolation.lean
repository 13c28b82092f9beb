import Rf4ce.Nv.AntiReplay
import Rf4ce.Nv.IndexCrc

/-! Each call of the store stays in the flash of its module, and reads depend on nothing else. -/
namespace Rf4ce.Nv
open Crash Drv Common

/-- `nv_resetModule`, whose two loops erase sector after sector. -/
def nvResetModule (c : NvCfg) (modules : Nat) : FlashM NvSts := do
  flashEraseSectors (modulesStartAddr c modules) (moduleSectorNum * (nvSectorSize modules / flashSectorSize))
  pure .succ

/-! ### The flash of a module -/

section Layout
variable {c : NvCfg} {id : Nat}

theorem inModule_iff (c : NvCfg) (id x : Nat) : InModule c id x ↔
    modulesStartAddr c id ≤ x ∧ x < modulesStartAddr c id + 2 * nvSectorSize id := by
  unfold InModule moduleSectStart moduleSectEnd
  omega

/-- Modules do not overlap. -/
theorem inModule_apart {id' x : Nat} (hid : id < dsMaxModuls) (hid' : id' < dsMaxModuls) (h : InModule c id x)
    (h' : InModule c id' x) : id = id' := by
  rw [inModule_iff] at h h'
  unfold modulesStartAddr nvSectorSize dsIrLearnModule flashSectorSize at h h'
  unfold dsMaxModuls at hid hid'
  by_cases hcap : c.flashCap1M = true
  · rw [if_pos hcap] at h h'
    split_ifs at h h' <;> omega
  · rw [if_neg hcap] at h h'
    split_ifs at h h' <;> omega

theorem nvSectorRead_in (c : NvCfg) (fw : Bool) (id : Nat) (f : Flash) :
    wp (InModule c id) (nvSectorRead c fw id) (fun _ _ => True) (fun _ => True) f := by
  have hmark {s x : Nat} (hs : s < 2) (h₁ : moduleSectStart c id s ≤ x)
      (h₂ : x < moduleSectStart c id s + (le16 nvSectorInvalid).length) : InModule c id x := by
    have hin := sect_inner c id s
    change x < moduleSectStart c id s + 2 at h₂
    exact inModule_of_sect hs h₁ (by omega)
  have hlt (n : Nat) : n % moduleSectorNum < 2 := Nat.mod_lt _ (by decide)
  have hdel (b : Bool) (st : NvSts) (s : NvSectInfo) (g : Flash) (n : Nat) :
      wp (InModule c id)
        (if b = true then do
          flashWrite (moduleSectStart c id (n % moduleSectorNum)) (le16 nvSectorInvalid)
          pure (st, some s)
        else pure (st, some s) : FlashM (NvSts × Option NvSectInfo)) (fun _ _ => True) (fun _ => True) g := by
    cases b with
    | true =>
      apply wp_bind
      apply flashWrite_wp
      · exact fun x => hmark (hlt n)
      · exact fun _ _ => trivial
      · exact wp_pure trivial trivial
    | false => exact wp_pure trivial trivial
  unfold nvSectorRead
  apply wp_bind
  apply wp_query _ trivial
  dsimp only
  split_ifs
  · exact wp_pure trivial trivial
  · apply wp_bind
    apply flashWriteWithCheck_wp (by decide)
    · exact fun x => hmark (hlt _)
    · exact fun _ _ => trivial
    · exact hdel _ _ _ _ _
  · apply wp_bind
    exact wp_pure (hdel _ _ _ _ _) trivial

end Layout

/-! ### The frame counter log, whatever it holds -/

section FrameCount
variable {c : NvCfg} {s : Nat} {f g : Flash}

theorem framecountAddr_add (c : NvCfg) (s j k : Nat) : framecountAddr c s j + 4 * k = framecountAddr c s (j + k) := by
  unfold framecountAddr
  omega

theorem nvFrameCountUnit_slot {i frameCount j : Nat} {l : List Nat} {r : Nat × Nat}
    (h : nvFrameCountUnit (framecountAddr c s j) i frameCount l = some r) :
    ∃ k ≤ i + l.length, r.2 = framecountAddr c s (j + k) := by
  induction l generalizing i frameCount with
  | nil => cases h
  | cons w rest ih =>
    unfold nvFrameCountUnit at h
    rw [List.length_cons]
    split_ifs at h with hw hrest
    · obtain rfl := Option.some.inj h
      exact ⟨i + 1, by omega, framecountAddr_add c s j (i + 1)⟩
    · obtain ⟨k, hk, hr⟩ := ih h
      exact ⟨k, by omega, hr⟩
    · obtain rfl := Option.some.inj h
      exact ⟨i, by omega, framecountAddr_add c s j i⟩

/-- The units below slot `j`, of which `m` slots are left. -/
theorem nvFrameCountLoop_slot (fuel j m k : Nat) (hm : m ≤ j) (hj : j ≤ framecountNumPerSect)
    (hk : k < framecountNumPerSect) {r : Option Nat × Nat}
    (h : nvFrameCountLoop f fuel (framecountAddr c s j) (4 * m) (framecountAddr c s k) = r) :
    ∃ n ≤ framecountNumPerSect, r.2 = framecountAddr c s n ∧ (r.1 = none → n < framecountNumPerSect) := by
  induction fuel generalizing j m k with
  | zero =>
    subst h
    exact ⟨k, Nat.le_of_lt hk, rfl, fun _ => hk⟩
  | succ fuel ih =>
    rw [nvFrameCountLoop_succ f fuel hm] at h
    by_cases h0 : m = 0
    · rw [if_pos h0] at h
      subst h
      exact ⟨k, Nat.le_of_lt hk, rfl, fun _ => hk⟩
    · rw [if_neg h0] at h
      obtain ⟨u, hu⟩ : ∃ u, min 4 m = u := ⟨_, rfl⟩
      simp only [hu] at h
      by_cases hword : (readWords f (framecountAddr c s (j - u)) u).headD 0 = 0xffffffff
      · rw [if_neg (not_not_intro hword)] at h
        exact ih (j - u) (m - u) (j - u) (by omega) (by omega) (by omega) h
      · rw [if_pos hword] at h
        cases hunit : nvFrameCountUnit (framecountAddr c s (j - u)) 1
            ((readWords f (framecountAddr c s (j - u)) u).headD 0)
            (readWords f (framecountAddr c s (j - u)) u).tail with
        | none =>
          rw [hunit] at h
          exact ih (j - u) (m - u) k (by omega) (by omega) hk h
        | some p =>
          rw [hunit] at h
          subst h
          obtain ⟨n, hn, hp⟩ := nvFrameCountUnit_slot hunit
          rw [List.length_tail, readWords, List.length_map, List.length_range] at hn
          exact ⟨j - u + n, by omega, hp, fun hnone => (by cases hnone)⟩

/-- The pages from page `p` on down. -/
theorem nvFrameCountPage_slot (p k : Nat) (hp : p ≤ 15) (hk : k < framecountNumPerSect) {r : Option Nat × Nat}
    (h : nvFrameCountPage f p (moduleSectStart c dsNwkFramecountModule s + 256 * p) (framecountAddr c s k) = r) :
    (∃ n < framecountNumPerSect, r.2 = framecountAddr c s n) ∧
      ∀ a, r.1 = some a → ∃ q, 1 ≤ q ∧ q ≤ 15 ∧ a = moduleSectStart c dsNwkFramecountModule s + 256 * q := by
  induction p generalizing k with
  | zero =>
    subst h
    exact ⟨⟨k, hk, rfl⟩, fun a ha => (by cases ha)⟩
  | succ p ih =>
    rw [nvFrameCountPage_succ] at h
    split_ifs at h with hword
    · subst h
      refine ⟨⟨k, hk, rfl⟩, fun a ha => ⟨p + 1, by omega, hp, ?_⟩⟩
      exact (Option.some.inj ha).symm
    · have hnum : framecountNumPerSect = 1023 := rfl
      exact ih (64 * p + 63) (by omega) (by omega) h

/-- The search stays in its sector: the address is that of a slot or the end of the sector. -/
theorem nvNwkFrameCountSearch_slot {r : Option Nat × Nat} (h : nvNwkFrameCountSearch c f s = r) :
    ∃ n ≤ framecountNumPerSect, r.2 = framecountAddr c s n ∧ (r.1 = none → n < framecountNumPerSect) := by
  have hnum : framecountNumPerSect = 1023 := rfl
  rw [nvNwkFrameCountSearch_pages] at h
  obtain ⟨⟨k, hk, hvalid⟩, hpage⟩ := @nvFrameCountPage_slot c s f 15 0 (by decide) (by decide) _ rfl
  generalize nvFrameCountPage f 15 _ _ = page at h hvalid hpage
  obtain ⟨opPageAddr, validAddr⟩ := page
  obtain rfl : validAddr = _ := hvalid
  cases opPageAddr with
  | none => exact nvFrameCountLoop_slot _ 63 63 k (by decide) (by decide) hk h
  | some a =>
    obtain ⟨q, hpos, hq, rfl⟩ := hpage a rfl
    dsimp only at h
    rw [pageEnd_slot] at h
    exact nvFrameCountLoop_slot _ (64 * q + 63) 64 k (by omega) (by omega) hk h

/-- A slot of the log belongs to the module. -/
theorem slot_in (hs : s < 2) {n x : Nat} (hn : n < framecountNumPerSect) (h₁ : framecountAddr c s n ≤ x)
    (h₂ : x < framecountAddr c s n + 4) : InModule c dsNwkFramecountModule x := by
  have hend := @framecountAddr_lt c s n hn
  have haddr := framecountAddr_eq c s n
  exact inModule_frame hs (by omega) (by omega)

theorem header_in (hs : s < 2) {n x : Nat} (hn : n ≤ 4) (h₁ : moduleSectStart c dsNwkFramecountModule s ≤ x)
    (h₂ : x < moduleSectStart c dsNwkFramecountModule s + n) : InModule c dsNwkFramecountModule x := by
  have hend := framecountSectEnd_eq c s
  exact inModule_frame hs h₁ (by omega)

theorem nvFrameCountSector_in (c : NvCfg) (forceChgSec : Bool) (errSect : Nat) (f : Flash) :
    wp (InModule c dsNwkFramecountModule) (nvFrameCountSector c forceChgSec errSect)
      (fun r _ => r.2.1 < 2) (fun _ => True) f := by
  have hlt (n : Nat) : n % moduleSectorNum < 2 := Nat.mod_lt _ (by decide)
  have hsize : nvSectorSize dsNwkFramecountModule = 4096 := rfl
  have hfresh (ret : NvSts) (g : Flash) : wp (InModule c dsNwkFramecountModule) (do
      flashEraseSectors (modulesStartAddr c dsNwkFramecountModule) moduleSectorNum
      pure (ret, 0, 0) : FlashM (NvSts × Nat × Byte)) (fun r _ => r.2.1 < 2) (fun _ => True) g := by
    apply wp_bind
    apply wp_region (wp_mono (flashEraseSectors_wp g (modulesStartAddr_mod c _) _) _ fun _ _ => trivial)
    · intro x hx
      rw [inModule_iff, hsize]
      exact hx
    · intro _ t _
      exact wp_pure (show 0 < 2 by decide) trivial
  apply wp_bind
  apply wp_mono (nvSectorRead_in c true _ f) _ fun _ _ => trivial
  rintro ⟨ret, sectInfo⟩ g -
  dsimp only
  split
  · rename_i info
    cases forceChgSec with
    | true =>
      apply wp_bind
      have herase := flashEraseSectors_wp g (moduleSectStart_mod c dsNwkFramecountModule ((errSect + 1) % moduleSectorNum))
        (nvSectorSize dsNwkFramecountModule / flashSectorSize)
      apply wp_region (wp_mono herase _ fun _ _ => trivial)
      · intro x hx
        have hend := framecountSectEnd_eq c ((errSect + 1) % moduleSectorNum)
        exact inModule_frame (hlt _) hx.1 (by rw [hend]; exact hx.2)
      · intro _ t _
        exact wp_pure (hlt _) trivial
    | false => exact wp_pure (hlt _) trivial
  · exact hfresh ret g

/-- A checked write, after which the call goes on only if the flash took it. -/
theorem checkedWrite_in {R : Nat → Prop} {α : Type} {a : α} {m : FlashM α} {addr : Nat} {buf : List Byte}
    (hlen : buf.length < 2 ^ 31) (hR : ∀ x, addr ≤ x → x < addr + buf.length → R x)
    (hm : ∀ t, wp R m (fun _ _ => True) (fun _ => True) t) :
    wp R (flashWriteWithCheck addr buf >>= fun ok => if !ok then pure a else m) (fun _ _ => True)
      (fun _ => True) f := by
  apply wp_bind
  apply flashWriteWithCheck_wp hlen hR
  · exact fun _ _ => trivial
  · split
    · exact wp_pure trivial trivial
    · exact hm _

theorem nvFrameCountPut_in (c : NvCfg) (ret : NvSts) (forceChgSec : Bool) {errSect oldSect opSect n : Nat} (frameCount : Nat)
    (herr : forceChgSec = true → errSect < 2) (hold : oldSect < 2) (hop : opSect < 2)
    (hn : n < framecountNumPerSect) (sectSeq : Byte) (sectorUpdate : Bool) (f : Flash) :
    wp (InModule c dsNwkFramecountModule) (nvFrameCountPut c ret forceChgSec errSect frameCount oldSect opSect
      sectSeq (framecountAddr c opSect n) sectorUpdate) (fun _ _ => True) (fun _ => True) f := by
  have hsect : (if forceChgSec then errSect else oldSect) < 2 := by
    split_ifs with hforce
    · exact herr hforce
    · exact hold
  apply checkedWrite_in (by rw [le32_length]; decide)
  · exact fun x => slot_in hop hn
  intro g
  split
  · apply checkedWrite_in (by rw [NvSectInfo.encode_length]; decide)
    · exact fun x => header_in hop (Nat.le_refl 4)
    intro g'
    split
    · apply wp_bind
      apply flashWriteWithCheck_wp (by decide)
      · exact fun x => header_in hsect (by decide)
      · exact fun _ _ => trivial
      · exact wp_pure trivial trivial
    · exact wp_pure trivial trivial
  · exact wp_pure trivial trivial

theorem nvFrameCountRoll_in (c : NvCfg) (ret : NvSts) (forceChgSec : Bool) {errSect oldSect : Nat}
    (frameCount : Nat) (herr : forceChgSec = true → errSect < 2) (hold : oldSect < 2) (sectSeq : Byte)
    (lastFrmCnt : Nat) (f : Flash) :
    wp (InModule c dsNwkFramecountModule)
      (nvFrameCountRoll c ret forceChgSec errSect frameCount oldSect sectSeq lastFrmCnt)
      (fun _ _ => True) (fun _ => True) f := by
  have hnum : framecountNumPerSect = 1023 := rfl
  have hop : (oldSect + 1) % moduleSectorNum < 2 := Nat.mod_lt _ (by decide)
  have hslot (k : Nat) : framecountPayloadStart c ((oldSect + 1) % moduleSectorNum) + 4 * k =
      framecountAddr c ((oldSect + 1) % moduleSectorNum) k := by
    rw [framecountPayloadStart_eq]
    rfl
  have hstart : modulesStartAddr c dsNwkFramecountModule + (oldSect + 1) % moduleSectorNum * flashSectorSize =
      moduleSectStart c dsNwkFramecountModule ((oldSect + 1) % moduleSectorNum) := rfl
  apply wp_bind
  apply wp_issue
  · intro x hx
    have hmod := moduleSectStart_mod c dsNwkFramecountModule ((oldSect + 1) % moduleSectorNum)
    have hend := framecountSectEnd_eq c ((oldSect + 1) % moduleSectorNum)
    simp only [Device.foot, FlashOp.foot] at hx
    rw [hstart] at hx
    unfold flashSectorSize at hx
    exact inModule_frame hop (by omega) (by omega)
  · trivial
  · trivial
  apply checkedWrite_in (by rw [le32_length]; decide)
  · intro x h₁ h₂
    rw [← Nat.add_zero (framecountPayloadStart c _), ← Nat.mul_zero 4, hslot] at h₁ h₂
    exact slot_in hop (by omega) h₁ h₂
  · intro g
    have hput := nvFrameCountPut_in c ret forceChgSec frameCount herr hold hop (show 1 < framecountNumPerSect by omega)
      (sectSeq + 1) true g
    rw [← hslot] at hput
    exact hput

/-- A save stays in the module, whatever the flash holds. -/
theorem nvNwkFrameCountSaveToFlashHandler_in (c : NvCfg) (forceChgSec : Bool) (errSect frameCount : Nat) (f : Flash) :
    wp (InModule c dsNwkFramecountModule) (nvNwkFrameCountSaveToFlashHandler c forceChgSec errSect frameCount)
      (fun _ _ => True) (fun _ => True) f := by
  have hnum : framecountNumPerSect = 1023 := rfl
  unfold nvNwkFrameCountSaveToFlashHandler
  dsimp only
  split
  · exact wp_pure trivial trivial
  rename_i hperm
  have herr : forceChgSec = true → errSect < 2 := by
    rintro rfl
    simpa [Nat.lt_succ_iff] using hperm
  apply wp_bind
  apply wp_mono (nvFrameCountSector_in c forceChgSec errSect f) _ fun _ _ => trivial
  rintro ⟨ret, opSect, sectSeq⟩ g hop
  dsimp only at hop ⊢
  apply wp_bind
  apply wp_query _ trivial
  obtain ⟨n, hn, haddr, hnone⟩ := @nvNwkFrameCountSearch_slot c opSect g _ rfl
  generalize nvNwkFrameCountSearch c g opSect = r at haddr hnone
  obtain ⟨lastFrmCnt, wAddr⟩ := r
  obtain rfl : wAddr = _ := haddr
  cases lastFrmCnt with
  | none => exact nvFrameCountPut_in c ret forceChgSec frameCount herr hop hop (hnone rfl) sectSeq false g
  | some last =>
    dsimp only
    split
    · exact nvFrameCountRoll_in c ret forceChgSec frameCount herr hop sectSeq last g
    · rename_i hfull
      have hlt : n < framecountNumPerSect := by
        rcases Nat.lt_or_eq_of_le hn with hlt | rfl
        · exact hlt
        · exact absurd (framecountAddr_end c opSect) hfull
      exact nvFrameCountPut_in c ret forceChgSec frameCount herr hop hop hlt sectSeq false g

theorem nvNwkFrameCountFromFlash_in (c : NvCfg) (f : Flash) :
    wp (InModule c dsNwkFramecountModule) (nvNwkFrameCountFromFlash c) (fun _ _ => True) (fun _ => True) f := by
  apply wp_bind
  apply wp_mono (nvSectorRead_in c false _ f) _ fun _ _ => trivial
  rintro ⟨ret, sectInfo⟩ g -
  dsimp only
  split
  · apply wp_bind
    apply wp_query _ trivial
    split
    · exact wp_pure trivial trivial
    · split
      · apply wp_bind
        apply wp_query _ trivial
        split
        · apply wp_bind
          apply wp_mono (nvNwkFrameCountSaveToFlashHandler_in c true _ _ g) _ fun _ _ => trivial
          exact fun _ _ _ => wp_pure trivial trivial
        · exact wp_pure trivial trivial
      · exact wp_pure trivial trivial
  · exact wp_pure trivial trivial

/-! What a load returns depends on the two sectors only. -/

theorem readWord_congr {a : Nat} (hg : ∀ x, a ≤ x → x < a + 4 → g x = f x) : readWord g a = readWord f a := by
  rw [readWord, readWord, flashRead_eq, flashRead_eq, bytes_congr hg]

variable (hg : ∀ x, moduleSectStart c dsNwkFramecountModule s ≤ x → x < moduleSectEnd c dsNwkFramecountModule s →
  g x = f x)
include hg

theorem readWord_slot {n : Nat} (hn : n < framecountNumPerSect) :
    readWord g (framecountAddr c s n) = readWord f (framecountAddr c s n) := by
  have hend := @framecountAddr_lt c s n hn
  have haddr := framecountAddr_eq c s n
  exact readWord_congr fun x h₁ h₂ => hg x (by omega) (by omega)

theorem readWords_slots {j u : Nat} (hju : j + u ≤ framecountNumPerSect) :
    readWords g (framecountAddr c s j) u = readWords f (framecountAddr c s j) u := by
  apply List.map_congr_left
  intro k hk
  rw [List.mem_range] at hk
  rw [framecountAddr_add]
  exact readWord_slot hg (by omega)

theorem nvFrameCountLoop_congr (fuel j m validAddr : Nat) (hm : m ≤ j) (hj : j ≤ framecountNumPerSect) :
    nvFrameCountLoop g fuel (framecountAddr c s j) (4 * m) validAddr =
      nvFrameCountLoop f fuel (framecountAddr c s j) (4 * m) validAddr := by
  induction fuel generalizing j m validAddr with
  | zero => rfl
  | succ fuel ih =>
    rw [nvFrameCountLoop_succ g fuel hm, nvFrameCountLoop_succ f fuel hm]
    dsimp only
    rw [readWords_slots hg (show j - min 4 m + min 4 m ≤ framecountNumPerSect by omega),
      ih (j - min 4 m) (m - min 4 m) validAddr (by omega) (by omega),
      ih (j - min 4 m) (m - min 4 m) (framecountAddr c s (j - min 4 m)) (by omega) (by omega)]

theorem nvFrameCountPage_congr (p validAddr : Nat) (hp : p ≤ 15) :
    nvFrameCountPage g p (moduleSectStart c dsNwkFramecountModule s + 256 * p) validAddr =
      nvFrameCountPage f p (moduleSectStart c dsNwkFramecountModule s + 256 * p) validAddr := by
  have hnum : framecountNumPerSect = 1023 := rfl
  induction p generalizing validAddr with
  | zero => rfl
  | succ p ih =>
    rw [nvFrameCountPage_succ, nvFrameCountPage_succ, ih _ (by omega), readWord_slot hg (by omega)]

theorem nvNwkFrameCountSearch_congr : nvNwkFrameCountSearch c g s = nvNwkFrameCountSearch c f s := by
  have hnum : framecountNumPerSect = 1023 := rfl
  rw [nvNwkFrameCountSearch_pages, nvNwkFrameCountSearch_pages, nvFrameCountPage_congr hg 15 _ (by decide)]
  obtain ⟨-, hpage⟩ := @nvFrameCountPage_slot c s f 15 0 (by decide) (by decide) _ rfl
  generalize nvFrameCountPage f 15 _ _ = page at hpage
  obtain ⟨opPageAddr, validAddr⟩ := page
  cases opPageAddr with
  | none => exact nvFrameCountLoop_congr hg _ 63 63 validAddr (by decide) (by decide)
  | some a =>
    obtain ⟨q, hpos, hq, rfl⟩ := hpage a rfl
    dsimp only
    rw [pageEnd_slot]
    exact nvFrameCountLoop_congr hg _ (64 * q + 63) 64 validAddr (by omega) (by omega)

end FrameCount

/-! ### Reads -/

/-- What `nv_sector_read` finds for a reader. -/
def sectorFound (id : Nat) (s : List NvSectInfo) : NvSts × Option NvSectInfo :=
  if nvSectorScan id s 0 0 0xff = 0xff then (.itemNotFound, none)
  else (.succ, some (s.getD (nvSectorScan id s 0 0 0xff % moduleSectorNum) default))

theorem nvSectorRead_reader (c : NvCfg) (id : Nat) :
    nvSectorRead c false id = query fun f => sectorFound id (readSectInfos c f id) := by
  funext f
  unfold nvSectorRead
  rw [query_bind]
  simp only [Bool.false_and, Bool.false_eq_true, if_false, if_true, pure_bind_eq, query, sectorFound]
  split_ifs
  · rfl
  · rfl

section Reads
variable {c : NvCfg} {id : Nat} {f g : Flash}

theorem readSectInfos_congr (hg : ∀ x, InModule c id x → g x = f x) : readSectInfos c g id = readSectInfos c f id := by
  have hsect {s : Nat} (hs : s < 2) : readSectInfo g (moduleSectStart c id s) = readSectInfo f (moduleSectStart c id s) := by
    have hin := sect_inner c id s
    unfold readSectInfo sizeofNvSectInfo
    rw [flashRead_eq, flashRead_eq, bytes_congr fun x h₁ h₂ => hg x (inModule_of_sect hs h₁ (by omega))]
  rw [readSectInfos_eq, readSectInfos_eq, hsect (by decide), hsect (by decide)]

theorem nvNwkFrameCountFromFlash_congr (hg : ∀ x, InModule c dsNwkFramecountModule x → g x = f x) :
    (nvNwkFrameCountFromFlash c).value g = (nvNwkFrameCountFromFlash c).value f := by
  unfold nvNwkFrameCountFromFlash
  dsimp only
  rw [nvSectorRead_reader]
  apply value_query_congr
  · rw [readSectInfos_congr hg]
  generalize sectorFound dsNwkFramecountModule (readSectInfos c f dsNwkFramecountModule) = r
  obtain ⟨ret, sectInfo⟩ := r
  dsimp only
  split
  · rename_i info
    have hs : info.opSect.toNat % moduleSectorNum < 2 := Nat.mod_lt _ (by decide)
    generalize info.opSect.toNat % moduleSectorNum = s at hs
    have hsect : ∀ x, moduleSectStart c dsNwkFramecountModule s ≤ x → x < moduleSectEnd c dsNwkFramecountModule s →
        g x = f x := fun x h₁ h₂ => hg x (inModule_frame hs h₁ h₂)
    apply value_query_congr
    · exact nvNwkFrameCountSearch_congr hsect
    obtain ⟨n, hn, haddr, -⟩ := @nvNwkFrameCountSearch_slot c s f _ rfl
    generalize nvNwkFrameCountSearch c f s = r at haddr
    obtain ⟨lastFrmCnt, wAddr⟩ := r
    obtain rfl : wAddr = _ := haddr
    cases lastFrmCnt with
    | none => rfl
    | some last =>
      dsimp only
      split
      · rename_i hlong
        have hword {k : Nat} (hk : k < n) : readWord g (framecountAddr c s k) = readWord f (framecountAddr c s k) :=
          readWord_slot hsect (Nat.lt_of_lt_of_le hk hn)
        rw [framecountPayloadStart_eq, framecountAddr_eq] at hlong
        have h8 : framecountAddr c s n - 8 = framecountAddr c s (n - 2) := by
          unfold framecountAddr
          omega
        have h4 : framecountAddr c s n - 4 = framecountAddr c s (n - 1) := by
          unfold framecountAddr
          omega
        apply value_query_congr
        · rw [h8, h4, hword (by omega), hword (by omega)]
        · split
          · rfl
          · rfl
      · rfl
  · rfl

theorem IsLast.unique {p : Nat → Bool} {n : Nat} {r r' : Option Nat} (h : IsLast p n r) (h' : IsLast p n r') :
    r = r' := by
  cases r with
  | none =>
    cases r' with
    | none => rfl
    | some j => exact absurd (h j h'.1) (by simp [h'.2.1])
  | some i =>
    obtain ⟨hi, hp, hlast⟩ := h
    cases r' with
    | none => exact absurd (h' i hi) (by simp [hp])
    | some j =>
      obtain ⟨hj, hp', hlast'⟩ := h'
      rcases Nat.lt_trichotomy i j with hij | rfl | hij
      · exact absurd (hlast j hij hj) (by simp [hp'])
      · rfl
      · exact absurd (hlast' i hij hi) (by simp [hp])

theorem readInfoIdx_congr {s i : Nat} (hs : s < 2) (hi : i < moduleIdxNum c id)
    (hg : ∀ x, InModule c id x → g x = f x) :
    readInfoIdx c g (idxAddr c id s i) = readInfoIdx c f (idxAddr c id s i) := by
  have hlow := idxAddr_lower c id s i
  have hup := @idxAddr_upper c id s i hi
  have hend := contextStart_le_sectEnd c id s
  unfold readInfoIdx
  rw [flashRead_eq, flashRead_eq, bytes_congr fun x h₁ h₂ => hg x (inModule_of_sect hs (by omega) (by omega))]

theorem nvIndexRead_congr {s : Nat} (hs : s < 2) (hg : ∀ x, InModule c id x → g x = f x) (itemId : Byte) (len : Nat) :
    nvIndexRead c g id itemId len s (moduleIdxNum c id) = nvIndexRead c f id itemId len s (moduleIdxNum c id) := by
  apply (nvIndexRead_last c g id itemId len s _).unique
  apply (nvIndexRead_last c f id itemId len s _).congr
  intro j hj
  rw [readInfoIdx_congr hs hj hg]

/-- Reading an entry of a log looks at its index record, its header and its payload only. -/
theorem nvFlashReadByIndex_congr (hid : id < dsMaxModuls) {s : Nat} (hs : s < 2) (h : HasTable c id s f)
    (hg : ∀ x, InModule c id x → g x = f x) {opIdx : Nat} (hi : opIdx < moduleIdxNum c id) (t : NvItemLenCheck)
    (itemId : Byte) (len : Nat) :
    nvFlashReadByIndex c t g id itemId s opIdx len = nvFlashReadByIndex c t f id itemId s opIdx len := by
  obtain ⟨marked, es, htable⟩ := h
  unfold nvFlashReadByIndex
  rw [readInfoIdx_congr hs hi hg]
  by_cases hin : opIdx < es.length
  · rw [htable.readInfoIdx_entry hid hs hin]
    have hflag : itemValidFlagCheck (es[opIdx].idx (itemOff c id s (es.take opIdx))).usedState =
        decide (es[opIdx].stage = .valid) := es[opIdx].state_validFlag
    have hoffset : (es[opIdx].idx (itemOff c id s (es.take opIdx))).offset = itemOff c id s (es.take opIdx) := rfl
    dsimp only
    rw [hflag, hoffset]
    by_cases hv : es[opIdx].stage = .valid
    · have hh : es[opIdx].stage.hasHdr = true := by
        rw [hv]
        rfl
      have hread := htable.readItemHdr_entry hin hh
      have hlow := contextStart_le_itemOff c id s (es.take opIdx)
      have hup := @itemOff_take_le c id s es opIdx hin
      have hsize := es[opIdx].size_le_slotLen
      have hsize' := es[opIdx].size_eq
      have hctx := sectStart_lt c id s
      have hfits := htable.fits
      have hitem {a n : Nat} (ha : itemOff c id s (es.take opIdx) ≤ a)
          (hn : a + n ≤ itemOff c id s (es.take opIdx) + es[opIdx].size) : bytes g a n = bytes f a n :=
        bytes_congr fun x h₁ h₂ => hg x (inModule_of_sect hs (by omega) (by omega))
      have hhdr : readItemHdr g (itemOff c id s (es.take opIdx)) = readItemHdr f (itemOff c id s (es.take opIdx)) := by
        unfold readItemHdr sizeofItemHdr
        rw [flashRead_eq, flashRead_eq, hitem (Nat.le_refl _) (by omega)]
      have hlen : (es[opIdx].hdr c (itemOff c id s (es.take opIdx))).size = es[opIdx].payload.length := rfl
      have hused : ¬ (es[opIdx].hdr c (itemOff c id s (es.take opIdx))).used = itemHdrFieldValidChecksum := by
        change ¬ itemHdrFieldValidCheckcrc = itemHdrFieldValidChecksum
        decide
      have hreal : nvItemLengthValidCheck t itemId es[opIdx].payload.length ≤ es[opIdx].payload.length := by
        unfold nvItemLengthValidCheck
        split
        · exact Nat.min_le_right _ _
        · exact Nat.le_refl _
      rw [hhdr, hread, hlen]
      simp only [hused, if_false, flashRead_eq, flashCrcLoop_eq _ 32 (by decide) _ _ _ _ (Nat.le_refl _), sizeofItemHdr]
      rw [hitem (by omega) (by omega), hitem (by omega) (by omega)]
    · simp only [hv, decide_false, Bool.not_false, if_true]
  · obtain ⟨o, st, hread, -, hst⟩ := htable.readInfoIdx_idle hid hs (Nat.le_of_not_lt hin) hi
    have hflag : itemValidFlagCheck (idleIdx c o st).usedState = false := by
      change itemValidFlagCheck st = false
      rcases hst with rfl | ⟨-, rfl⟩
      · rfl
      · rfl
    rw [hread]
    simp only [hflag, Bool.not_false, if_true]

/-- A read looks at its own module only. -/
theorem nvFlashReadNew_congr (hid : id < dsMaxModuls) {m : Contents} (h : ModuleRep c id true f m)
    (hg : ∀ x, InModule c id x → g x = f x) (t : NvItemLenCheck) (itemId : Byte) (len : Nat) :
    (nvFlashReadNew c t id itemId len).value g = (nvFlashReadNew c t id itemId len).value f := by
  unfold nvFlashReadNew
  split
  · rfl
  rw [nvSectorRead_reader]
  apply value_query_congr
  · rw [readSectInfos_congr hg]
  generalize sectorFound id (readSectInfos c f id) = r
  obtain ⟨ret, sectInfo⟩ := r
  dsimp only
  split
  · rename_i info
    have hs : info.opSect.toNat % moduleSectorNum < 2 := Nat.mod_lt _ (by decide)
    generalize info.opSect.toNat % moduleSectorNum = s at hs
    apply value_query_congr
    · exact nvIndexRead_congr hs hg itemId len
    have hlast := nvIndexRead_last c f id itemId len s (moduleIdxNum c id)
    cases hidx : nvIndexRead c f id itemId len s (moduleIdxNum c id) with
    | none => rfl
    | some opIdx =>
      rw [hidx] at hlast
      apply value_query_congr
      · exact nvFlashReadByIndex_congr hid hs (h.hasTable hs) hg hlast.1 t itemId len
      split
      · rfl
      · rfl
  · rfl

end Reads

/-! ### Resets -/

section Reset
variable {c : NvCfg} {id : Nat} {f g : Flash}

theorem ModuleRep.congr {marked : Bool} {m : Contents} (h : ModuleRep c id marked f m)
    (hg : ∀ x, InModule c id x → g x = f x) : ModuleRep c id marked g m := by
  have hsect {s : Nat} (hs : s < 2) : ∀ x, moduleSectStart c id s ≤ x → x < moduleSectEnd c id s → g x = f x :=
    fun x h₁ h₂ => hg x (inModule_of_sect hs h₁ h₂)
  have hhead {s : Nat} (hs : s < 2) : ∀ x, moduleSectStart c id s ≤ x → x < moduleSectStart c id s + 4 → g x = f x := by
    have hin := sect_inner c id s
    exact fun x h₁ h₂ => hsect hs x h₁ (by omega)
  have hbody {s : Nat} (hs : s < 2) : ∀ x, moduleSectStart c id s + 4 ≤ x → x < moduleSectEnd c id s → g x = f x :=
    fun x h₁ h₂ => hsect hs x (by omega) h₂
  cases h with
  | fresh dead₀ dead₁ table₀ table₁ =>
    exact .fresh (dead₀.congr (hhead (by decide))) (dead₁.congr (hhead (by decide)))
      (table₀.congr (hbody (by decide))) (table₁.congr (hbody (by decide)))
  | @active q es headers rep used table =>
    have hq := sectOf_lt q
    exact .active (headers.congr fun s hs => hhead hs) (rep.congr (hbody hq)) used
      (table.congr (hbody (by omega)))

theorem Logs.congr {marked : Bool} (h : Logs c id marked f) (hg : ∀ x, InModule c id x → g x = f x) :
    Logs c id marked g := by
  intro s hs q hvalid
  have hin := sect_inner c id s
  have hold : SectValid c id f s q :=
    hvalid.congr fun x h₁ h₂ => (hg x (inModule_of_sect hs h₁ (by omega))).symm
  obtain ⟨es, hused, hrep⟩ := h s hs q hold
  exact ⟨es, hused, hrep.congr fun x h₁ h₂ => hg x (inModule_of_sect hs (by omega) h₂)⟩

/-- Both sectors of a module are in order. -/
def ModuleOk (c : NvCfg) (id : Nat) (f : Flash) : Prop := (∃ m, ModuleRep c id true f m) ∧ Logs c id true f

theorem ModuleOk.congr (h : ModuleOk c id f) (hg : ∀ x, InModule c id x → g x = f x) : ModuleOk c id g := by
  obtain ⟨⟨m, hrep⟩, hlogs⟩ := h
  exact ⟨⟨m, hrep.congr hg⟩, hlogs.congr hg⟩

theorem moduleOk_erased (h : Erased c id f) : ModuleOk c id f := by
  have hrep := moduleRep_erased h true
  exact ⟨⟨_, hrep⟩, hrep.logs_fresh⟩

theorem moduleOk_fresh (dead₀ : SectDead c id f 0) (dead₁ : SectDead c id f 1) (table₀ : HasTable c id 0 f)
    (table₁ : HasTable c id 1 f) : ModuleOk c id f := by
  have hrep : ModuleRep c id true f .fresh := .fresh dead₀ dead₁ table₀ table₁
  exact ⟨⟨_, hrep⟩, hrep.logs_fresh⟩

/-- Erasing sector 0 leaves sector 1 as the only one, or none. -/
theorem ModuleOk.drop_sector (h : ModuleOk c id f) (dead₀ : SectDead c id g 0) (table₀ : HasTable c id 0 g)
    (hsame : ∀ x, moduleSectStart c id 1 ≤ x → x < moduleSectEnd c id 1 → g x = f x) : ModuleOk c id g := by
  obtain ⟨⟨m, hrep⟩, hlogs⟩ := h
  have hin := sect_inner c id 1
  have hhead : ∀ x, moduleSectStart c id 1 ≤ x → x < moduleSectStart c id 1 + 4 → g x = f x :=
    fun x h₁ h₂ => hsame x h₁ (by omega)
  have hbody : ∀ x, moduleSectStart c id 1 + 4 ≤ x → x < moduleSectEnd c id 1 → g x = f x :=
    fun x h₁ h₂ => hsame x (by omega) h₂
  have htable : HasTable c id 1 f := hrep.hasTable (by decide)
  have hlast {q : Byte} (hq : q < 4) (hsect : sectOf q = 1) (hvalid : SectValid c id f 1 q) : ModuleOk c id g := by
    obtain ⟨es, hused, hes⟩ := hlogs 1 (by decide) q hvalid
    have hactive : ModuleRep c id true g (.active q es) := by
      constructor
      · constructor
        · exact hq
        · rw [hsect]
          exact hvalid.congr hhead
        · rw [hsect]
          exact .inl dead₀
      · rw [hsect]
        exact hes.congr hbody
      · exact hused
      · rw [hsect]
        exact table₀
    refine ⟨⟨_, hactive⟩, hactive.logs_active ?_⟩
    rw [hsect]
    exact dead₀
  have hnone (hdead : SectDead c id f 1) : ModuleOk c id g :=
    moduleOk_fresh dead₀ (hdead.congr hhead) table₀ (htable.congr hbody)
  cases hrep with
  | fresh _ dead₁ => exact hnone dead₁
  | @active q es headers rep used table =>
    have hop := headers.op
    have hother := headers.other
    have hlt := sectOf_lt q
    obtain hq | hq : sectOf q = 0 ∨ sectOf q = 1 := by omega
    · rw [hq] at hother
      rcases hother with hdead | hvalid
      · exact hnone hdead
      · refine hlast (seqPrev_lt q) ?_ hvalid
        rw [sectOf_seqPrev, hq]
    · rw [hq] at hop
      exact hlast headers.seq hq hop

theorem nvResetModule_in (c : NvCfg) (id : Nat) (f : Flash) :
    wp (InModule c id) (nvResetModule c id)
      (fun _ g => g = f.eraseRange (modulesStartAddr c id) (moduleSectorNum * (nvSectorSize id / flashSectorSize)))
      (fun g => ∃ k, g = f.eraseRange (modulesStartAddr c id) k) f := by
  have hnum : 4096 * (moduleSectorNum * (nvSectorSize id / flashSectorSize)) = 2 * nvSectorSize id := by
    unfold moduleSectorNum flashSectorSize
    rcases moduleInfoSize_cases id with ⟨-, h⟩ | ⟨-, h⟩ <;> rw [h]
  have herase := flashEraseSectors_wp f (modulesStartAddr_mod c id)
    (moduleSectorNum * (nvSectorSize id / flashSectorSize))
  rw [hnum] at herase
  apply wp_bind
  apply wp_region (wp_mono herase _ _)
  · intro x hx
    rw [inModule_iff]
    exact hx
  · intro _ g hg
    exact wp_pure hg ⟨_, hg⟩
  · intro g hg
    obtain ⟨k, -, hg⟩ := hg
    exact ⟨k, hg⟩

/-- A reset cut after any number of flash sectors. -/
theorem ModuleOk.reset (h : ModuleOk c id f) (k : Nat) : ModuleOk c id (f.eraseRange (modulesStartAddr c id) k) := by
  have hsize : nvSectorSize id = 4096 ∨ nvSectorSize id = 16384 := by
    rcases moduleInfoSize_cases id with ⟨-, h⟩ | ⟨-, h⟩
    · exact .inl h
    · exact .inr h
  have hstart : moduleSectStart c id 0 = modulesStartAddr c id := by simp [moduleSectStart]
  have hstart' : moduleSectStart c id 1 = modulesStartAddr c id + nvSectorSize id := by simp [moduleSectStart]
  have hgone {s : Nat} (hs : moduleSectStart c id s + 4096 ≤ modulesStartAddr c id + 4096 * k)
      (hle : modulesStartAddr c id ≤ moduleSectStart c id s) :
      SectDead c id (f.eraseRange (modulesStartAddr c id) k) s ∧
        HasTable c id s (f.eraseRange (modulesStartAddr c id) k) := by
    have hctx := sectStart_lt c id s
    have herased {x : Nat} (h₁ : moduleSectStart c id s ≤ x) (h₂ : x < moduleSectStart c id s + 4096) :
        f.eraseRange (modulesStartAddr c id) k x = 0xff := eraseRange_in (by omega) (by omega)
    constructor
    · exact .of_erased fun x h₁ h₂ => herased h₁ (by omega)
    · exact ⟨false, [], .of_erased fun x h₁ h₂ => herased (by omega) (by omega)⟩
  by_cases hk : k = 0
  · subst hk
    rw [eraseRange_zero]
    exact h
  · obtain ⟨dead₀, table₀⟩ := hgone (s := 0) (by omega) (by omega)
    by_cases hsect : 4096 * k ≤ nvSectorSize id
    · apply h.drop_sector dead₀ table₀
      intro x h₁ h₂
      exact eraseRange_out (by omega)
    · obtain ⟨dead₁, table₁⟩ := hgone (s := 1) (by omega) (by omega)
      exact moduleOk_fresh dead₀ dead₁ table₀ table₁

end Reset

/-! ### Runs of calls on any modules -/

inductive NvCall where
  | flashWriteNew (alloc single : Bool) (id : Nat) (itemId : Byte) (buf : List Byte)
  | flashReadNew (g : NvItemLenCheck) (id : Nat) (itemId : Byte) (len : Nat)
  | nwkFrameCountSaveToFlash (frameCount : Nat)
  | nwkFrameCountFromFlash
  | resetModule (modules : Nat)

/-- The module that a call works on. -/
def NvCall.module : NvCall → Nat
  | .flashWriteNew _ _ id _ _ => id
  | .flashReadNew _ id _ _ => id
  | .nwkFrameCountSaveToFlash _ => dsNwkFramecountModule
  | .nwkFrameCountFromFlash => dsNwkFramecountModule
  | .resetModule modules => modules

def NvCall.ops (c : NvCfg) (f : Flash) : NvCall → List FlashOp
  | .flashWriteNew alloc single id itemId buf => (nvFlashWriteNew c alloc single id itemId buf).ops f
  | .flashReadNew g id itemId len => (nvFlashReadNew c g id itemId len).ops f
  | .nwkFrameCountSaveToFlash frameCount => (nvNwkFrameCountSaveToFlash c frameCount).ops f
  | .nwkFrameCountFromFlash => (nvNwkFrameCountFromFlash c).ops f
  | .resetModule modules => (nvResetModule c modules).ops f

/-- The flash contents that calls on any modules lead to from erased modules, interrupted ones
included. -/
inductive NvReach (c : NvCfg) : Flash → Prop where
  | erased {f : Flash} (h : ∀ id < dsMaxModuls, Erased c id f) : NvReach c f
  | call {f : Flash} {k : NvCall} {ops : List FlashOp} (hf : NvReach c f) (hk : k.module < dsMaxModuls)
      (hops : ops <+: k.ops c f) : NvReach c (run f ops)

section Calls
variable {c : NvCfg} {f : Flash}

/-- A call stays in its module and keeps it in order. The frame counter log may hold
anything. -/
theorem NvCall.keeps {k : NvCall} (hk : k.module < dsMaxModuls)
    (h : k.module ≠ dsNwkFramecountModule → ModuleOk c k.module f) :
    (∀ op ∈ k.ops c f, ∀ x, Device.foot op x → InModule c k.module x) ∧
      ∀ ops, ops <+: k.ops c f → k.module ≠ dsNwkFramecountModule → ModuleOk c k.module (run f ops) := by
  have hpure {id : Nat} {α : Type} {a : α} (hid : id = dsNwkFramecountModule) :
      wp (InModule c id) (pure a : FlashM α) (fun _ _ => True)
        (fun g => id ≠ dsNwkFramecountModule → ModuleOk c id g) f := wp_pure trivial fun hne => absurd hid hne
  suffices hwp : ∃ (α : Type) (m : FlashM α), m.ops f = k.ops c f ∧ wp (InModule c k.module) m (fun _ _ => True)
      (fun g => k.module ≠ dsNwkFramecountModule → ModuleOk c k.module g) f by
    obtain ⟨α, m, hops, hwp⟩ := hwp
    rw [← hops]
    exact ⟨hwp.1, fun ops hpre => wp_cut hwp ⟨ops, hpre, rfl⟩⟩
  cases k with
  | flashWriteNew alloc single id itemId buf =>
    refine ⟨_, nvFlashWriteNew c alloc single id itemId buf, rfl, ?_⟩
    unfold nvFlashWriteNew
    split
    · exact hpure ‹_›
    · rename_i hid
      obtain ⟨⟨m, hrep⟩, hlogs⟩ := h hid
      apply wp_mono (nvFlashWriteNewHandler_logs hk hrep alloc) fun _ _ _ => trivial
      intro g hpost _
      obtain ⟨m', -, hrep', hlogs'⟩ := hpost
      exact ⟨⟨m', hrep'⟩, hlogs' hlogs⟩
  | flashReadNew t id itemId len =>
    refine ⟨_, nvFlashReadNew c t id itemId len, rfl, ?_⟩
    by_cases hid : id = dsNwkFramecountModule
    · unfold nvFlashReadNew
      rw [if_pos hid]
      exact hpure hid
    · obtain ⟨⟨m, hrep⟩, hlogs⟩ := h hid
      apply wp_mono (nvFlashReadNew_keeps hk hrep t itemId len) fun _ _ _ => trivial
      intro g hpost _
      exact ⟨hpost.1, hpost.2 hlogs⟩
  | nwkFrameCountSaveToFlash frameCount =>
    refine ⟨_, nvNwkFrameCountSaveToFlash c frameCount, rfl, ?_⟩
    apply wp_bind
    apply wp_mono (nvNwkFrameCountSaveToFlashHandler_in c false 0xff frameCount f)
    · exact fun _ _ _ => wp_pure trivial fun hne => absurd rfl hne
    · exact fun _ _ hne => absurd rfl hne
  | nwkFrameCountFromFlash =>
    refine ⟨_, nvNwkFrameCountFromFlash c, rfl, ?_⟩
    apply wp_mono (nvNwkFrameCountFromFlash_in c f) fun _ _ _ => trivial
    exact fun _ _ hne => absurd rfl hne
  | resetModule modules =>
    refine ⟨_, nvResetModule c modules, rfl, ?_⟩
    apply wp_mono (nvResetModule_in c modules f) fun _ _ _ => trivial
    intro g hg hne
    obtain ⟨n, rfl⟩ := hg
    exact (h hne).reset n

/-- What lies outside the module of a call is as before at every point of it. -/
theorem NvCall.outside {k : NvCall} (hin : ∀ op ∈ k.ops c f, ∀ x, Device.foot op x → InModule c k.module x)
    {ops : List FlashOp} (hops : ops <+: k.ops c f) {id : Nat} (hk : k.module < dsMaxModuls)
    (hid : id < dsMaxModuls) (hne : id ≠ k.module) : ∀ x, InModule c id x → run f ops x = f x := by
  intro x hx
  apply run_outside (R := InModule c k.module)
  · intro op hop
    exact hin op (hops.subset hop)
  · intro hx'
    exact hne (inModule_apart hid hk hx hx')

/-- All modules but the frame counter log are in order in every state. -/
theorem NvReach.moduleOk (hf : NvReach c f) {id : Nat} (hid : id < dsMaxModuls) (hfc : id ≠ dsNwkFramecountModule) :
    ModuleOk c id f := by
  induction hf generalizing id with
  | erased h => exact moduleOk_erased (h id hid)
  | @call f k ops _ hk hops ih =>
    obtain ⟨hin, hkeep⟩ := NvCall.keeps hk fun hne => ih hk hne
    by_cases hmod : id = k.module
    · subst hmod
      exact hkeep ops hops hfc
    · exact (ih hid hfc).congr (NvCall.outside hin hops hk hid hmod)

/-- **Isolation.** In every state a call erases and programs its own module only, and wherever
it is cut, all reads of the other modules return what they returned before. -/
theorem nv_module_isolation (hf : NvReach c f) {k : NvCall} (hk : k.module < dsMaxModuls) :
    (∀ op ∈ k.ops c f, ∀ x, Device.foot op x → modulesStartAddr c k.module ≤ x ∧
        x < modulesStartAddr c k.module + 2 * nvSectorSize k.module) ∧
      ∀ ops, ops <+: k.ops c f →
        (∀ id < dsMaxModuls, id ≠ k.module → ∀ g itemId len,
          (nvFlashReadNew c g id itemId len).value (run f ops) = (nvFlashReadNew c g id itemId len).value f) ∧
        (dsNwkFramecountModule ≠ k.module →
          (nvNwkFrameCountFromFlash c).value (run f ops) = (nvNwkFrameCountFromFlash c).value f) := by
  obtain ⟨hin, -⟩ := NvCall.keeps hk fun hne => hf.moduleOk hk hne
  constructor
  · intro op hop x hx
    exact (inModule_iff c k.module x).mp (hin op hop x hx)
  · intro ops hops
    constructor
    · intro id hid hne g itemId len
      have hsame := NvCall.outside hin hops hk hid hne
      by_cases hfc : id = dsNwkFramecountModule
      · unfold nvFlashReadNew
        rw [if_pos hfc]
        rfl
      · obtain ⟨⟨m, hrep⟩, -⟩ := hf.moduleOk hid hfc
        exact nvFlashReadNew_congr hid hrep hsame g itemId len
    · intro hne
      exact nvNwkFrameCountFromFlash_congr (NvCall.outside hin hops hk (by decide) hne)

/-- An item of module 0 and a counter are written. -/
def writtenModules : Flash :=
  let f := run (fun _ => 0xff) ((NvCall.flashWriteNew true true 0 1 [0x41]).ops ⟨false, false⟩ fun _ => 0xff)
  run f ((NvCall.nwkFrameCountSaveToFlash 5).ops ⟨false, false⟩ f)

/-- A write to module 1 is cut after three operations. -/
def cutModule : Flash :=
  run writtenModules (((NvCall.flashWriteNew true true 1 1 [0x42]).ops ⟨false, false⟩ writtenModules).take 3)

theorem nv_module_isolation_cut :
    ((nvFlashReadNew ⟨false, false⟩ .initial 0 1 1).value writtenModules = (.succ, some [0x41]) ∧
      (nvNwkFrameCountFromFlash ⟨false, false⟩).value writtenModules = (.succ, some 5)) ∧
      (nvFlashReadNew ⟨false, false⟩ .initial 0 1 1).value cutModule =
        (nvFlashReadNew ⟨false, false⟩ .initial 0 1 1).value writtenModules ∧
      (nvNwkFrameCountFromFlash ⟨false, false⟩).value cutModule =
        (nvNwkFrameCountFromFlash ⟨false, false⟩).value writtenModules := by
  have hreach : NvReach ⟨false, false⟩ writtenModules :=
    .call (k := .nwkFrameCountSaveToFlash 5) (.call (k := .flashWriteNew true true 0 1 [0x41])
      (.erased fun _ _ _ _ => rfl) (by decide) List.prefix_rfl) (by decide) List.prefix_rfl
  obtain ⟨hread, hload⟩ := (nv_module_isolation (k := .flashWriteNew true true 1 1 [0x42]) hreach (by decide)).2 _
    (List.take_prefix 3 _)
  exact ⟨⟨by decide +kernel, by decide +kernel⟩, hread 0 (by decide) (by decide) .initial 1 1, hload (by decide)⟩

end Calls

end Rf4ce.Nv

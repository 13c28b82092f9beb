import Rf4ce.Nv.Duplicates

/-! The frame counter log of `nv.c` and what its backward search finds. -/
namespace Rf4ce.Nv
open Crash Drv Common

def updateFramecountThres : Nat := 1024

section Layout
variable (c : NvCfg)

def framecountPayloadStart (opSect : Nat) : Nat :=
  (moduleSectStart c dsNwkFramecountModule opSect + sizeofNvSectInfo + 0x03) / 4 * 4

def framecountNumPerSect : Nat := (flashSectorSize - sizeofNvSectInfo) / 4 * 4 / 4

end Layout

/-- A 32-bit word in the flash. -/
def readWord (f : Flash) (addr : Nat) : Nat := ofLe (flashRead f addr 4)

/-- The words that one read puts into `checkValid`. -/
def readWords (f : Flash) (addr n : Nat) : List Nat := (List.range n).map fun i => readWord f (addr + 4 * i)

/-! ### The search -/

/-- The pages from the last one down to the second; the first word of a page decides. -/
def nvFrameCountPage (f : Flash) : Nat → Nat → Nat → Option Nat × Nat
  | 0, _, validAddr => (none, validAddr)
  | n + 1, opPageAddr, validAddr =>
    if readWord f opPageAddr ≠ 0xffffffff then (some opPageAddr, validAddr)
    else nvFrameCountPage f n (opPageAddr - flashPageSize) opPageAddr

/-- The words of a unit behind its first one, from index `i` on. -/
def nvFrameCountUnit (opPageAddr : Nat) : Nat → Nat → List Nat → Option (Nat × Nat)
  | _, _, [] => none
  | i, frameCount, checkValid :: rest =>
    if checkValid ≠ 0xffffffff then
      if rest = [] then some (checkValid, opPageAddr + 4 * (i + 1))
      else nvFrameCountUnit opPageAddr (i + 1) checkValid rest
    else some (frameCount, opPageAddr + 4 * i)

/-- The `while (checkSize)` loop over units of 16 bytes. -/
def nvFrameCountLoop (f : Flash) : Nat → Nat → Nat → Nat → Option Nat × Nat
  | 0, _, _, validAddr => (none, validAddr)
  | fuel + 1, opPageAddr, checkSize, validAddr =>
    if checkSize = 0 then (none, validAddr)
    else
      let readSize := if checkSize > 16 then 16 else checkSize
      let opPageAddr := opPageAddr - readSize
      let checkSize := checkSize - readSize
      let checkValid := readWords f opPageAddr (readSize / 4)
      let frameCount := checkValid.headD 0
      if frameCount ≠ 0xffffffff then
        match nvFrameCountUnit opPageAddr 1 frameCount checkValid.tail with
        | some (frameCount, validAddr) => (some frameCount, validAddr)
        | none => nvFrameCountLoop f fuel opPageAddr checkSize validAddr
      else nvFrameCountLoop f fuel opPageAddr checkSize opPageAddr

/-- The last counter, when the result is `NV_SUCC`, and `validAddr`. -/
def nvNwkFrameCountSearch (c : NvCfg) (f : Flash) (opSect : Nat) : Option Nat × Nat :=
  let sizeUsed := framecountNumPerSect * 4
  let pageUsed :=
    if sizeUsed % 256 ≠ 0 then sizeUsed / flashPageSize + 1 else sizeUsed / flashPageSize
  let (opPageAddr, validAddr) := nvFrameCountPage f (pageUsed - 1)
    (moduleSectEnd c dsNwkFramecountModule opSect - flashPageSize) (framecountPayloadStart c opSect)
  let (opPageAddr, checkSize) := match opPageAddr with
    | some opPageAddr => (opPageAddr, flashPageSize)
    | none => (framecountPayloadStart c opSect, (flashPageSize - sizeofNvSectInfo) / 4 * 4)
  let opPageAddr := (opPageAddr + flashPageSize) / flashPageSize * flashPageSize
  nvFrameCountLoop f checkSize opPageAddr checkSize validAddr

/-! ### Saving and loading -/

/-- What `nv_sector_read` returned, which is what a save returns in the end, and the sector it starts in
with its sequence byte. -/
def nvFrameCountSector (c : NvCfg) (forceChgSec : Bool) (errSect : Nat) : FlashM (NvSts × Nat × Byte) := do
  let id := dsNwkFramecountModule
  let (ret, sectInfo) ← nvSectorRead c true id
  match ret, sectInfo with
  | .succ, some sectInfo =>
    if forceChgSec then do
      let opSect := (errSect + 1) % moduleSectorNum
      flashEraseSectors (modulesStartAddr c id + opSect * nvSectorSize id) (nvSectorSize id / flashSectorSize)
      pure (.succ, opSect, sectInfo.opSect + 1)
    else pure (.succ, sectInfo.opSect.toNat % moduleSectorNum, sectInfo.opSect)
  | ret, _ => do
    flashEraseSectors (modulesStartAddr c id) moduleSectorNum
    pure (ret, 0, 0)

/-- From the write of the new counter on. A failed write reports the sector it happened in. -/
def nvFrameCountPut (c : NvCfg) (ret : NvSts) (forceChgSec : Bool) (errSect frameCount oldSect opSect : Nat)
    (sectSeq : Byte) (wAddr : Nat) (sectorUpdate : Bool) : FlashM (NvSts × Nat) := do
  let id := dsNwkFramecountModule
  let ok ← flashWriteWithCheck wAddr (le32 frameCount)
  if !ok then pure (.checkSumError, opSect)
  else if sectorUpdate || wAddr = framecountPayloadStart c opSect then do
    let ok ← flashWriteWithCheck (moduleSectStart c id opSect) (mkSectInfo id (sectSeq &&& 0x03)).encode
    if !ok then pure (.checkSumError, opSect)
    else if sectorUpdate || forceChgSec then do
      let oldSect := if forceChgSec then errSect else oldSect
      let ok ← flashWriteWithCheck (moduleSectStart c id oldSect) (le16 nvSectorInvalid)
      pure (if ok then (ret, errSect) else (.checkSumError, opSect))
    else pure (ret, errSect)
  else pure (ret, errSect)

/-- A full sector: its last counter starts the other one, the new counter follows. -/
def nvFrameCountRoll (c : NvCfg) (ret : NvSts) (forceChgSec : Bool) (errSect frameCount oldSect : Nat)
    (sectSeq : Byte) (lastFrmCnt : Nat) : FlashM (NvSts × Nat) := do
  let opSect := (oldSect + 1) % moduleSectorNum
  flashErase (modulesStartAddr c dsNwkFramecountModule + opSect * flashSectorSize)
  let ok ← flashWriteWithCheck (framecountPayloadStart c opSect) (le32 lastFrmCnt)
  if !ok then pure (.checkSumError, opSect)
  else
    let wAddr := framecountPayloadStart c opSect + 4
    nvFrameCountPut c ret forceChgSec errSect frameCount oldSect opSect (sectSeq + 1) wAddr true

/-- The status comes with `*errSect`. -/
def nvNwkFrameCountSaveToFlashHandler (c : NvCfg) (forceChgSec : Bool) (errSect frameCount : Nat) :
    FlashM (NvSts × Nat) :=
  let id := dsNwkFramecountModule
  if forceChgSec && errSect > 1 then pure (.notPermit, errSect)
  else do
    let (ret, opSect, sectSeq) ← nvFrameCountSector c forceChgSec errSect
    let (lastFrmCnt, wAddr) ← query fun f => nvNwkFrameCountSearch c f opSect
    match lastFrmCnt with
    | some lastFrmCnt =>
      if wAddr = moduleSectEnd c id opSect then
        nvFrameCountRoll c ret forceChgSec errSect frameCount opSect sectSeq lastFrmCnt
      else nvFrameCountPut c ret forceChgSec errSect frameCount opSect opSect sectSeq wAddr false
    | none => nvFrameCountPut c ret forceChgSec errSect frameCount opSect opSect sectSeq wAddr false

def nvNwkFrameCountSaveToFlash (c : NvCfg) (frameCount : Nat) : FlashM NvSts := do
  let (ret, _) ← nvNwkFrameCountSaveToFlashHandler c false 0xff frameCount
  pure ret

/-- The counter stored to `*frameCount` comes with the status. -/
def nvNwkFrameCountFromFlash (c : NvCfg) : FlashM (NvSts × Option Nat) := do
  let id := dsNwkFramecountModule
  let (ret, sectInfo) ← nvSectorRead c false id
  match ret, sectInfo with
  | .succ, some sectInfo =>
    let opSect := sectInfo.opSect.toNat % moduleSectorNum
    let (lastFrmCnt, wAddr) ← query fun f => nvNwkFrameCountSearch c f opSect
    match lastFrmCnt with
    | none => pure (.itemNotFound, none)
    | some lastFrmCnt =>
      if wAddr > framecountPayloadStart c opSect + 8 then do
        let pCnt ← query fun f => (readWord f (wAddr - 8), readWord f (wAddr - 4))
        if pCnt.2 < pCnt.1 ∨ max pCnt.2 pCnt.1 - min pCnt.2 pCnt.1 > updateFramecountThres * 2 then do
          let _ ← nvNwkFrameCountSaveToFlashHandler c true opSect (u32 (pCnt.1 + updateFramecountThres))
          pure (.succ, some (u32 (pCnt.1 + updateFramecountThres)))
        else pure (.succ, some lastFrmCnt)
      else pure (.succ, some lastFrmCnt)
  | ret, _ => pure (ret, none)

/-! ### What the search finds -/

section Search
variable {c : NvCfg} {f : Flash} {s n : Nat}

theorem framecountPayloadStart_eq (c : NvCfg) (s : Nat) :
    framecountPayloadStart c s = moduleSectStart c dsNwkFramecountModule s + 4 := by
  have := moduleSectStart_mod c dsNwkFramecountModule s
  unfold framecountPayloadStart sizeofNvSectInfo
  omega

theorem framecountSectEnd_eq (c : NvCfg) (s : Nat) :
    moduleSectEnd c dsNwkFramecountModule s = moduleSectStart c dsNwkFramecountModule s + 4096 :=
  moduleSectEnd_eq c dsNwkFramecountModule s

/-- Slot `k` of the log of sector `s`. -/
def framecountAddr (c : NvCfg) (s k : Nat) : Nat := moduleSectStart c dsNwkFramecountModule s + 4 + 4 * k

/-- The slots in use are the first `n` ones. -/
def UsedSlots (c : NvCfg) (f : Flash) (s n : Nat) : Prop :=
  ∀ k < framecountNumPerSect, readWord f (framecountAddr c s k) = 0xffffffff ↔ n ≤ k

/-- From the second page on a page begins with a slot. -/
theorem pageStart_slot (c : NvCfg) (s p : Nat) :
    moduleSectStart c dsNwkFramecountModule s + 256 * (p + 1) = framecountAddr c s (64 * p + 63) := by
  unfold framecountAddr
  omega

theorem pageEnd_slot (c : NvCfg) (s p : Nat) :
    (moduleSectStart c dsNwkFramecountModule s + 256 * p + flashPageSize) / flashPageSize * flashPageSize =
      framecountAddr c s (64 * p + 63) := by
  have hmod := moduleSectStart_mod c dsNwkFramecountModule s
  unfold framecountAddr flashPageSize
  omega

theorem nvFrameCountPage_succ (f : Flash) (p validAddr : Nat) :
    nvFrameCountPage f (p + 1) (moduleSectStart c dsNwkFramecountModule s + 256 * (p + 1)) validAddr =
      if readWord f (framecountAddr c s (64 * p + 63)) ≠ 0xffffffff then
        (some (moduleSectStart c dsNwkFramecountModule s + 256 * (p + 1)), validAddr)
      else nvFrameCountPage f p (moduleSectStart c dsNwkFramecountModule s + 256 * p)
        (framecountAddr c s (64 * p + 63)) := by
  have hback : moduleSectStart c dsNwkFramecountModule s + 256 * (p + 1) - flashPageSize =
      moduleSectStart c dsNwkFramecountModule s + 256 * p := by
    unfold flashPageSize
    omega
  rw [nvFrameCountPage, hback, pageStart_slot]

theorem nvFrameCountPage_eq (h : UsedSlots c f s n) (p : Nat) (hp : p ≤ 15) (hn : n < 64 * (p + 1))
    (validAddr : Nat) :
    (nvFrameCountPage f p (moduleSectStart c dsNwkFramecountModule s + 256 * p) validAddr).1 =
      if n < 64 then none else some (moduleSectStart c dsNwkFramecountModule s + 256 * (n / 64)) := by
  induction p generalizing validAddr with
  | zero => rw [nvFrameCountPage, if_pos (by omega)]
  | succ p ih =>
    have hslot := h (64 * p + 63) (by unfold framecountNumPerSect flashSectorSize sizeofNvSectInfo; omega)
    rw [nvFrameCountPage_succ]
    by_cases hfree : n ≤ 64 * p + 63
    · rw [if_neg (not_not_intro (hslot.mpr hfree))]
      exact ih (by omega) (by omega) _
    · rw [if_pos (fun h => hfree (hslot.mp h)), if_neg (by omega), show n / 64 = p + 1 by omega]

theorem readWords_succ (f : Flash) (addr m : Nat) :
    readWords f addr (m + 1) = readWord f addr :: readWords f (addr + 4) m := by
  unfold readWords
  rw [List.range_succ_eq_map, List.map_cons, List.map_map]
  refine congrArg₂ List.cons rfl (List.map_congr_left fun k _ => congrArg (readWord f) ?_)
  omega

/-- The words of a unit that starts in slot `j`, from its word `i` on. -/
theorem nvFrameCountUnit_eq (h : UsedSlots c f s n) (j m i : Nat)
    (hi : j + i ≤ n) (hm : n ≤ j + i + m ∧ 0 < m) (hin : j + i + m ≤ framecountNumPerSect) {a : Nat}
    (ha : a = framecountAddr c s j) {frameCount : Nat}
    (hlast : frameCount = readWord f (framecountAddr c s (j + i - 1))) :
    nvFrameCountUnit a i frameCount (readWords f (a + 4 * i) m) =
      some (readWord f (framecountAddr c s (n - 1)), framecountAddr c s n) := by
  induction m generalizing i frameCount with
  | zero => omega
  | succ m ih =>
    have haddr (k : Nat) : a + 4 * k = framecountAddr c s (j + k) := by
      rw [ha]
      unfold framecountAddr
      omega
    have hnext : a + 4 * i + 4 = a + 4 * (i + 1) := by omega
    have hslot := h (j + i) (by omega)
    rw [readWords_succ, nvFrameCountUnit, hnext, haddr i]
    by_cases hfree : n ≤ j + i
    · rw [if_neg (not_not_intro (hslot.mpr hfree)), hlast, show j + i = n by omega]
    · rw [if_pos (fun h => hfree (hslot.mp h))]
      by_cases hm0 : m = 0
      · subst hm0
        rw [readWords, List.range_zero, List.map_nil, if_pos rfl, haddr, show j + (i + 1) = n by omega,
          show n - 1 = j + i by omega]
      · have hrest : readWords f (a + 4 * (i + 1)) m ≠ [] := by
          intro hnil
          have hlen := congrArg List.length hnil
          rw [readWords, List.length_map, List.length_range, List.length_nil] at hlen
          exact hm0 hlen
        rw [if_neg hrest]
        exact ih (i + 1) (by omega) (by omega) (by omega) rfl

/-- A round of the loop below slot `j`, of which `m` slots are left: a unit has four slots or the rest. -/
theorem nvFrameCountLoop_succ (f : Flash) (fuel : Nat) {j m : Nat} (hm : m ≤ j) (validAddr : Nat) :
    nvFrameCountLoop f (fuel + 1) (framecountAddr c s j) (4 * m) validAddr =
      if m = 0 then (none, validAddr)
      else
        let opPageAddr := framecountAddr c s (j - min 4 m)
        let checkValid := readWords f opPageAddr (min 4 m)
        if checkValid.headD 0 ≠ 0xffffffff then
          match nvFrameCountUnit opPageAddr 1 (checkValid.headD 0) checkValid.tail with
          | some (frameCount, validAddr) => (some frameCount, validAddr)
          | none => nvFrameCountLoop f fuel opPageAddr (4 * (m - min 4 m)) validAddr
        else nvFrameCountLoop f fuel opPageAddr (4 * (m - min 4 m)) opPageAddr := by
  have hsize : (if 4 * m > 16 then 16 else 4 * m) = 4 * min 4 m := by
    split_ifs <;> omega
  have hback : framecountAddr c s j - 4 * min 4 m = framecountAddr c s (j - min 4 m) := by
    unfold framecountAddr
    omega
  have hzero : 4 * m = 0 ↔ m = 0 := by omega
  rw [nvFrameCountLoop]
  simp only [hsize, hback, hzero, ← Nat.mul_sub, Nat.mul_div_cancel_left (min 4 m) (show 0 < 4 by decide)]

/-- The loop over the units below slot `j`, of which `m` slots are left. -/
theorem nvFrameCountLoop_eq (h : UsedSlots c f s n) (fuel j m : Nat) (hfuel : 4 * m ≤ fuel)
    (hm : 0 < m ∧ m ≤ j) (hmod : m % 4 ≠ 1) (hj : n ≤ j ∧ j ≤ framecountNumPerSect)
    (hlow : j - m < n ∨ j - m = 0) (validAddr : Nat) :
    nvFrameCountLoop f fuel (framecountAddr c s j) (4 * m) validAddr =
      if n = 0 then (none, framecountAddr c s 0)
      else (some (readWord f (framecountAddr c s (n - 1))), framecountAddr c s n) := by
  induction fuel generalizing j m validAddr with
  | zero => omega
  | succ fuel ih =>
    obtain ⟨k, hk⟩ : ∃ k, min 4 m = k := ⟨_, rfl⟩
    have hwords : readWords f (framecountAddr c s (j - k)) k =
        readWord f (framecountAddr c s (j - k)) :: readWords f (framecountAddr c s (j - k) + 4 * 1) (k - 1) := by
      obtain ⟨k', rfl⟩ : ∃ k', k = k' + 1 := ⟨k - 1, by omega⟩
      exact readWords_succ ..
    have hslot := h (j - k) (by omega)
    rw [nvFrameCountLoop_succ f fuel hm.2, if_neg (by omega)]
    simp only [hk, hwords, List.headD_cons, List.tail_cons]
    by_cases hfree : n ≤ j - k
    · rw [if_neg (not_not_intro (hslot.mpr hfree))]
      by_cases hm0 : m - k = 0
      · rw [hm0, if_pos (by omega), show j - k = 0 by omega]
        cases fuel with
        | zero => rfl
        | succ fuel => rw [nvFrameCountLoop, if_pos rfl]
      · exact ih (j - k) (m - k) (by omega) (by omega) (by omega) (by omega) (by omega) _
    · have hunit := nvFrameCountUnit_eq h (j - k) (k - 1) 1 (by omega) (by omega) (by omega) rfl
        (show readWord f (framecountAddr c s (j - k)) = _ by rw [Nat.add_sub_cancel])
      rw [if_pos (fun h => hfree (hslot.mp h)), hunit, if_neg (by omega)]

/-- The search looks for its page first, then below the end of that page. -/
theorem nvNwkFrameCountSearch_pages (c : NvCfg) (f : Flash) (s : Nat) :
    nvNwkFrameCountSearch c f s =
      match nvFrameCountPage f 15 (moduleSectStart c dsNwkFramecountModule s + 256 * 15) (framecountAddr c s 0) with
      | (none, validAddr) => nvFrameCountLoop f (4 * 63) (framecountAddr c s 63) (4 * 63) validAddr
      | (some opPageAddr, validAddr) =>
        nvFrameCountLoop f (4 * 64) ((opPageAddr + flashPageSize) / flashPageSize * flashPageSize) (4 * 64) validAddr := by
  have hmod := moduleSectStart_mod c dsNwkFramecountModule s
  have hstart : moduleSectEnd c dsNwkFramecountModule s - flashPageSize =
      moduleSectStart c dsNwkFramecountModule s + 256 * 15 := by
    rw [framecountSectEnd_eq, flashPageSize]
    omega
  have hpages : (if framecountNumPerSect * 4 % 256 ≠ 0 then framecountNumPerSect * 4 / flashPageSize + 1
      else framecountNumPerSect * 4 / flashPageSize) - 1 = 15 := by decide
  have hfirst : framecountPayloadStart c s = framecountAddr c s 0 := framecountPayloadStart_eq c s
  have hend : (framecountAddr c s 0 + flashPageSize) / flashPageSize * flashPageSize = framecountAddr c s 63 := by
    unfold framecountAddr flashPageSize
    omega
  rw [nvNwkFrameCountSearch]
  dsimp only
  rw [hpages, hstart, hfirst]
  generalize nvFrameCountPage f 15 _ _ = page
  obtain ⟨opPageAddr, validAddr⟩ := page
  cases opPageAddr with
  | none =>
    dsimp only
    rw [hend]
    rfl
  | some a => rfl

/-- The search finds the last used slot and the address behind it. -/
theorem nvNwkFrameCountSearch_eq (h : UsedSlots c f s n) (hn : n ≤ framecountNumPerSect) :
    nvNwkFrameCountSearch c f s = if n = 0 then (none, framecountAddr c s 0)
      else (some (readWord f (framecountAddr c s (n - 1))), framecountAddr c s n) := by
  have hnum : framecountNumPerSect = 1023 := rfl
  have hpage := nvFrameCountPage_eq h 15 (by omega) (by omega) (framecountAddr c s 0)
  rw [nvNwkFrameCountSearch_pages]
  generalize nvFrameCountPage f 15 _ _ = r at hpage
  obtain ⟨opPageAddr, validAddr⟩ := r
  obtain rfl : opPageAddr = _ := hpage
  by_cases hlow : n < 64
  · rw [if_pos hlow]
    exact nvFrameCountLoop_eq h _ 63 63 (by decide) (by decide) (by decide) ⟨by omega, by decide⟩
      (.inr rfl) _
  · rw [if_neg hlow]
    dsimp only
    rw [pageEnd_slot]
    exact nvFrameCountLoop_eq h _ (64 * (n / 64) + 63) 64 (by decide) ⟨by decide, by omega⟩ (by decide)
      ⟨by omega, by omega⟩ (.inl (by omega)) _

end Search

end Rf4ce.Nv

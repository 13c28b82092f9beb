import Rf4ce.Drv.Flash

/-! `sysClrInfoReboot` of `sys.c`: an image is copied to the start of the flash and compared, again
and again until the comparison succeeds. -/
namespace Rf4ce.Os
open Crash Drv

def flashReadSizePerTime : Nat := 32

/-- What becomes of a byte on its way in one pass, by its place in the image. -/
structure PassFaults where
  read : Nat → Byte → Byte
  program : Nat → Byte → Byte
  readSrc : Nat → Byte → Byte
  readDst : Nat → Byte → Byte

def PassFaults.clean : PassFaults := ⟨fun _ b => b, fun _ b => b, fun _ b => b, fun _ b => b⟩

/-- One block, read through 32-bit addresses. -/
def sysRead (fault : Nat → Byte → Byte) (place addr : Nat) : FlashM (List Byte) :=
  query fun f => (flashRead (fun x => f (u32 x)) addr flashReadSizePerTime).mapIdx fun i b => fault (place + i) b

/-! ### The three loops -/

/-- The erase address comes back: it is not set again before the next pass. -/
def sysErase : Nat → Nat → FlashM Nat
  | 0, eraseAddr => pure eraseAddr
  | n + 1, eraseAddr => do
    flashErase eraseAddr
    sysErase n (u32 (eraseAddr + flashSectorSize))

/-- The loop over `j`, of which `n` rounds are left. -/
def sysCopyBlocks (t : PassFaults) (rPtr writeAddr : Nat) : Nat → Nat → FlashM Unit
  | 0, _ => pure ()
  | n + 1, j => do
    let place := u32 (writeAddr + flashReadSizePerTime * j)
    let imageBuf ← sysRead t.read place (u32 (rPtr + flashReadSizePerTime * j))
    flashWrite place (imageBuf.mapIdx fun i b => t.program (place + i) b)
    sysCopyBlocks t rPtr writeAddr n (j + 1)

def sysCopyPages (t : PassFaults) : Nat → Nat → Nat → FlashM Unit
  | 0, _, _ => pure ()
  | n + 1, rPtr, writeAddr => do
    sysCopyBlocks t rPtr writeAddr (flashPageSize / flashReadSizePerTime) 0
    sysCopyPages t n (u32 (rPtr + flashPageSize)) (u32 (writeAddr + flashPageSize))

/-- The comparison from byte `i` on; without fuel it is not passed. -/
def sysCheck (t : PassFaults) (addr size : Nat) : Nat → Nat → FlashM Bool
  | 0, _ => pure false
  | fuel + 1, i =>
    if i < size then do
      let imageBuf ← sysRead t.readSrc i (u32 (addr + i))
      let imageCheckBuf ← sysRead t.readDst i (u32 (0 + i))
      -- the eight words agree when the bytes do
      if imageCheckBuf ≠ imageBuf then pure false
      else sysCheck t addr size fuel (u32 (i + flashReadSizePerTime))
    else pure true

/-- From the label `recopy_start` on: whether the comparison succeeds, and `erase_addr`. -/
def sysPass (t : PassFaults) (addr size eraseAddr : Nat) : FlashM (Bool × Nat) := do
  let sectNumTotal := size / flashSectorSize + 1
  let pageNumTotal := size / flashPageSize + 1
  let eraseAddr ← sysErase sectNumTotal eraseAddr
  sysCopyPages t pageNumTotal addr 0
  let ok ← sysCheck t addr size (size + 1) 0
  pure (ok, eraseAddr)

/-- The passes with the given faults; `true` when one of them goes on to the reset. -/
def recopy (addr size : Nat) : List PassFaults → Nat → FlashM Bool
  | [], _ => pure false
  | t :: ts, eraseAddr => do
    let (ok, eraseAddr) ← sysPass t addr size eraseAddr
    if ok then pure true else recopy addr size ts eraseAddr

def sysClrInfoReboot (addr size : Nat) (ts : List PassFaults) : FlashM Bool := recopy addr size ts 0

/-! ### What it is for -/

/-- The end of the sectors that the image needs. -/
def relocEnd (size : Nat) : Nat := (size / flashSectorSize + 1) * flashSectorSize

/-- After the passes `ts` and one without faults the image is in place, and nothing behind its
sectors was touched. -/
def Relocates (addr size : Nat) (ts : List PassFaults) (f : Flash) : Prop :=
  let reboot := sysClrInfoReboot addr size (ts ++ [.clean])
  reboot.value f = true ∧ bytes (reboot.final f) 0 size = bytes f addr size ∧
    ∀ op ∈ reboot.ops f, ∀ x, Device.foot op x → x < relocEnd size

/-- Where the first block runs over the end of the address space, it finds there the erased bytes
that it is compared with. -/
def WrapsClear (f : Flash) (addr size : Nat) : Prop :=
  0 < size → ∀ k < flashReadSizePerTime, ∀ x, addr + k = 2 ^ 32 + x → addr + x < 2 ^ 32 → f (addr + x) = 0xff

theorem relocEnd_eq (size : Nat) : relocEnd size = 4096 * (size / 4096 + 1) := Nat.mul_comm _ _

theorem u32_lt_pow (n : Nat) : u32 n < 2 ^ 32 := Nat.mod_lt _ (by decide)

theorem mapIdx_keep {α : Type} (l : List α) : (l.mapIdx fun _ b => b) = l :=
  List.mapIdx_eq_iff.mpr fun _ => Option.map_id'.symm

theorem sysRead_clean (place addr : Nat) :
    sysRead (fun _ b => b) place addr = query fun f => bytes (fun x => f (u32 x)) addr 32 := by
  unfold sysRead
  congr 1
  funext f
  rw [flashRead_eq, mapIdx_keep]
  rfl

/-! ### Erasing -/

section Erase
variable {f : Flash} {n eraseAddr : Nat}

theorem sysErase_yields (n : Nat) (h : eraseAddr < 2 ^ 32) :
    (sysErase n eraseAddr).Yields (· = u32 (eraseAddr + 4096 * n)) := by
  induction n generalizing eraseAddr with
  | zero => exact yields_pure (Nat.mod_eq_of_lt h).symm
  | succ n ih =>
    apply yields_bind
    apply yields_any
    intro _
    have hrest := ih (u32_lt_pow (eraseAddr + flashSectorSize))
    refine hrest.mono fun r hr => ?_
    rw [hr]
    unfold u32 flashSectorSize
    omega

theorem sysErase_wp (hmod : eraseAddr % 4096 = 0) (hfit : eraseAddr + 4096 * n < 2 ^ 32) :
    wp (fun x => eraseAddr ≤ x ∧ x < eraseAddr + 4096 * n) (sysErase n eraseAddr)
      (fun _ g => g = f.eraseRange eraseAddr n) (fun _ => True) f := by
  induction n generalizing eraseAddr f with
  | zero => exact wp_pure (eraseRange_zero f eraseAddr).symm trivial
  | succ n ih =>
    have hnext : u32 (eraseAddr + flashSectorSize) = eraseAddr + 4096 := by
      unfold u32 flashSectorSize
      omega
    apply wp_bind
    apply wp_issue
    · intro x hx
      simp only [Device.foot, FlashOp.foot, flashSectorSize] at hx
      omega
    · trivial
    · trivial
    rw [apply_erase, hnext]
    apply wp_region (wp_mono (ih (by omega) (by omega)) _ _)
    · intro x hx
      omega
    · intro _ g hg
      rw [hg, eraseRange_succ f hmod]
    · simp

end Erase

/-! ### Copying -/

/-- The flash `g` after `m` blocks of the image were copied from `f`. -/
structure Copied (f g : Flash) (addr size m : Nat) : Prop where
  above : ∀ x, relocEnd size ≤ x → g x = f x
  blank : ∀ x, 32 * m ≤ x → x < relocEnd size → g x = 0xff
  image : ∀ k < 32 * m, addr + k < 2 ^ 32 → g k = f (addr + k)
  wrapped : ∀ k < 32 * m, ∀ x < 32, addr + k = 2 ^ 32 + x → g k = if k < 32 then 0xff else g x

section Copy
variable {f g : Flash} {addr size m : Nat}

theorem Copied.erased (f : Flash) (addr size : Nat) :
    Copied f (f.eraseRange 0 (size / 4096 + 1)) addr size 0 := by
  have hend := relocEnd_eq size
  constructor
  · exact fun x hx => eraseRange_out (by omega)
  · exact fun x _ hx => eraseRange_in (Nat.zero_le x) (by omega)
  · simp
  · simp

/-- One more block. -/
theorem Copied.block (h : Copied f g addr size m) (hm : 32 * (m + 1) ≤ relocEnd size)
    (hsect : relocEnd size ≤ addr) (haddr : addr < 2 ^ 32) :
    Copied f (g.program (32 * m) (bytes (fun x => g (u32 x)) (u32 (addr + 32 * m)) 32)) addr size (m + 1) := by
  generalize hbuf : bytes (fun x => g (u32 x)) (u32 (addr + 32 * m)) 32 = buf
  have hlen : buf.length = 32 := by rw [← hbuf, bytes_length]
  have hout {x : Nat} (hx : x < 32 * m ∨ 32 * (m + 1) ≤ x) : g.program (32 * m) buf x = g x :=
    program_outside _ _ _ (by omega)
  have hin {k : Nat} (h₁ : 32 * m ≤ k) (h₂ : k < 32 * (m + 1)) :
      g.program (32 * m) buf k = g (u32 (addr + k)) := by
    have hi : k - 32 * m < buf.length := by omega
    have hprog := program_apply g (32 * m) buf (k - 32 * m) hi
    have hbyte : buf[k - 32 * m] = g (u32 (addr + k)) := by
      have hget := List.getElem_of_eq hbuf (by rw [hbuf]; exact hi)
      rw [bytes_getElem] at hget
      rw [← hget]
      congr 1
      unfold u32
      omega
    rw [show 32 * m + (k - 32 * m) = k by omega] at hprog
    rw [hprog, hbyte, h.blank k h₁ (by omega)]
    exact BitVec.allOnes_and
  constructor
  · intro x hx
    rw [hout (by omega), h.above x hx]
  · intro x h₁ h₂
    rw [hout (by omega), h.blank x (by omega) h₂]
  · intro k hk hfit
    by_cases hold : k < 32 * m
    · rw [hout (by omega), h.image k hold hfit]
    · rw [hin (by omega) hk, u32_eq hfit, h.above _ (by omega)]
  · intro k hk x hx hwrap
    have hword : u32 (addr + k) = x := by
      unfold u32
      omega
    by_cases hold : k < 32 * m
    · rw [hout (by omega), h.wrapped k hold x hx hwrap, hout (by omega)]
    · rw [hin (by omega) hk, hword]
      by_cases hfirst : k < 32
      · rw [if_pos hfirst, h.blank _ (by omega) (by omega)]
      · rw [if_neg hfirst, hout (by omega)]

/-- The blocks of the page that starts at block `m`. -/
theorem sysCopyBlocks_wp {n j : Nat} (h : Copied f g addr size (m + j)) (hm : 32 * (m + j + n) ≤ relocEnd size)
    (hsect : relocEnd size ≤ addr) (haddr : addr < 2 ^ 32) :
    wp (fun x => x < relocEnd size) (sysCopyBlocks .clean (u32 (addr + 32 * m)) (u32 (32 * m)) n j)
      (fun _ g' => Copied f g' addr size (m + j + n)) (fun _ => True) g := by
  induction n generalizing j g with
  | zero => exact wp_pure h trivial
  | succ n ih =>
    have hplace : u32 (u32 (32 * m) + flashReadSizePerTime * j) = 32 * (m + j) := by
      unfold u32 flashReadSizePerTime
      omega
    have hread : u32 (u32 (addr + 32 * m) + flashReadSizePerTime * j) = u32 (addr + 32 * (m + j)) := by
      unfold u32 flashReadSizePerTime
      omega
    have hnext : m + j + (n + 1) = m + (j + 1) + n := by omega
    have hblock := h.block (by omega) hsect haddr
    rw [sysCopyBlocks, hplace, hread]
    simp only [PassFaults.clean, sysRead_clean, mapIdx_keep]
    apply wp_bind
    apply wp_query _ trivial
    apply wp_bind
    apply flashWrite_wp
    · intro x h₁ h₂
      rw [bytes_length] at h₂
      omega
    · simp
    rw [hnext]
    exact ih hblock (by omega)

theorem sysCopyPages_wp {n : Nat} (h : Copied f g addr size m) (hm : 32 * (m + 8 * n) ≤ relocEnd size)
    (hsect : relocEnd size ≤ addr) (haddr : addr < 2 ^ 32) :
    wp (fun x => x < relocEnd size) (sysCopyPages .clean n (u32 (addr + 32 * m)) (u32 (32 * m)))
      (fun _ g' => Copied f g' addr size (m + 8 * n)) (fun _ => True) g := by
  induction n generalizing m g with
  | zero => exact wp_pure h trivial
  | succ n ih =>
    have hsrc : u32 (u32 (addr + 32 * m) + flashPageSize) = u32 (addr + 32 * (m + 8)) := by
      unfold u32 flashPageSize
      omega
    have hdst : u32 (u32 (32 * m) + flashPageSize) = u32 (32 * (m + 8)) := by
      unfold u32 flashPageSize
      omega
    have hnext : m + 8 * (n + 1) = m + 8 + 8 * n := by omega
    rw [sysCopyPages, hsrc, hdst, hnext]
    apply wp_bind
    apply wp_mono (sysCopyBlocks_wp (n := 8) (j := 0) h (by omega) hsect haddr)
    · intro _ g' hg'
      exact ih hg' (by omega)
    · simp

end Copy

/-! ### Comparing -/

/-- The bytes of the image, in whole blocks. -/
def checkedEnd (size : Nat) : Nat := (size + 31) / 32 * 32

theorem bytes_eq_bytes {f g : Flash} {a b n : Nat} : bytes f a n = bytes g b n ↔ ∀ i < n, f (a + i) = g (b + i) := by
  simp [bytes]

/-- A comparison without faults changes nothing and succeeds if all its blocks agree. -/
theorem sysCheck_wp {f : Flash} {addr size fuel b : Nat} (hfuel : size + 32 ≤ 32 * b + 32 * fuel)
    (hb : 32 * b < size + 32) (hsize : size + 32 ≤ 2 ^ 32) :
    wp (fun _ => False) (sysCheck .clean addr size fuel (32 * b))
      (fun r g => g = f ∧ (r = true ↔ ∀ k, 32 * b ≤ k → k < checkedEnd size → f k = f (u32 (addr + k))))
      (fun _ => True) f := by
  induction fuel generalizing b with
  | zero => omega
  | succ fuel ih =>
    have hend : checkedEnd size = (size + 31) / 32 * 32 := rfl
    rw [sysCheck]
    split_ifs with hlt
    swap
    · exact wp_pure ⟨rfl, iff_of_true rfl fun k h₁ h₂ => by omega⟩ trivial
    have hnext : u32 (32 * b + flashReadSizePerTime) = 32 * (b + 1) := by
      unfold u32 flashReadSizePerTime
      omega
    have hblock : bytes (fun x => f (u32 x)) (u32 (0 + 32 * b)) 32 =
        bytes (fun x => f (u32 x)) (u32 (addr + 32 * b)) 32 ↔
        ∀ k, 32 * b ≤ k → k < 32 * (b + 1) → f k = f (u32 (addr + k)) := by
      have hdst {i : Nat} (hi : i < 32) : u32 (u32 (0 + 32 * b) + i) = 32 * b + i := by
        unfold u32
        omega
      have hsrc (i : Nat) : u32 (u32 (addr + 32 * b) + i) = u32 (addr + (32 * b + i)) := by
        unfold u32
        omega
      rw [bytes_eq_bytes]
      constructor
      · intro h k h₁ h₂
        have hi := h (k - 32 * b) (by omega)
        rwa [hdst (by omega), hsrc, show 32 * b + (k - 32 * b) = k by omega] at hi
      · intro h i hi
        rw [hdst hi, hsrc]
        exact h _ (by omega) (by omega)
    simp only [PassFaults.clean, sysRead_clean, hnext]
    apply wp_bind
    apply wp_query _ trivial
    apply wp_bind
    apply wp_query _ trivial
    split_ifs with hsame
    · apply wp_pure _ trivial
      refine ⟨rfl, iff_of_false (by simp) fun hall => hsame (hblock.mpr fun k h₁ h₂ => ?_)⟩
      exact hall k h₁ (by omega)
    · have hthis := hblock.mp (not_not.mp hsame)
      apply wp_mono (ih (b := b + 1) (by omega) (by omega))
      · intro r g hr
        obtain ⟨rfl, hr⟩ := hr
        rw [hr]
        refine ⟨rfl, fun h k h₁ h₂ => ?_, fun h k h₁ h₂ => h k (by omega) h₂⟩
        by_cases hk : k < 32 * (b + 1)
        · exact hthis k h₁ hk
        · exact h k (by omega) h₂
      · simp

/-- With the image copied the comparison succeeds unless its only block meets other bytes behind the
end of the address space. -/
theorem Copied.checked {f g : Flash} {addr size m : Nat} (h : Copied f g addr size m)
    (hm : checkedEnd size ≤ 32 * m) (hsect : relocEnd size ≤ addr) (haddr : addr < 2 ^ 32)
    (hsrc : addr + size ≤ 2 ^ 32) :
    (∀ k, 32 * 0 ≤ k → k < checkedEnd size → g k = g (u32 (addr + k))) ↔ WrapsClear f addr size := by
  have hend : checkedEnd size = (size + 31) / 32 * 32 := rfl
  have hsects := relocEnd_eq size
  have hword {k x : Nat} (hk : k < checkedEnd size) (hwrap : addr + k = 2 ^ 32 + x) : u32 (addr + k) = x ∧ x < 32 := by
    unfold u32
    omega
  constructor
  · intro hall hpos k hk x hwrap hsrc'
    have hk : k < 32 := hk
    obtain ⟨hu, hx⟩ := hword (k := k) (by omega) hwrap
    have hsame := hall k (by omega) (by omega)
    rw [hu, h.wrapped k (by omega) x hx hwrap, if_pos hk, h.image x (by omega) hsrc'] at hsame
    exact hsame.symm
  · intro hclear k _ hk
    by_cases hfit : addr + k < 2 ^ 32
    · rw [u32_eq hfit, h.image k (by omega) hfit, h.above _ (by omega)]
    · obtain ⟨x, hwrap⟩ := Nat.exists_eq_add_of_le (Nat.le_of_not_lt hfit)
      obtain ⟨hu, hx⟩ := hword hk hwrap
      rw [hu, h.wrapped k (by omega) x hx hwrap]
      split_ifs with hfirst
      · by_cases hsrc' : addr + x < 2 ^ 32
        · rw [h.image x (by omega) hsrc']
          exact (hclear (by omega) k hfirst x hwrap hsrc').symm
        · obtain ⟨y, hy⟩ := Nat.exists_eq_add_of_le (Nat.le_of_not_lt hsrc')
          rw [h.wrapped x (by omega) y (by omega) hy, if_pos hx]
      · rfl

/-! ### Passes -/

section Pass
variable {f : Flash} {addr size : Nat} {t : PassFaults} {ts : List PassFaults}

/-- A pass leaves the erase address behind the sectors it erased. -/
theorem sysPass_yields (h : relocEnd size < 2 ^ 32) :
    (sysPass t addr size 0).Yields fun r => r.2 = relocEnd size := by
  have hend := relocEnd_eq size
  apply yields_bind
  refine (sysErase_yields (size / flashSectorSize + 1) (show 0 < 2 ^ 32 by decide)).mono fun eraseAddr hr => ?_
  apply yields_bind
  apply yields_any
  intro _
  apply yields_bind
  apply yields_any
  intro ok
  apply yields_pure
  rw [hr]
  unfold u32 flashSectorSize
  omega

/-- The first pass without faults. -/
theorem sysPass_clean (hsect : relocEnd size ≤ addr) (haddr : addr < 2 ^ 32) (hsrc : addr + size ≤ 2 ^ 32) :
    wp (fun x => x < relocEnd size) (sysPass .clean addr size 0)
      (fun r g => (r.1 = true ↔ WrapsClear f addr size) ∧ bytes g 0 size = bytes f addr size) (fun _ => True) f := by
  have hend := relocEnd_eq size
  have hcheck : checkedEnd size = (size + 31) / 32 * 32 := rfl
  have hpages : checkedEnd size ≤ 32 * (8 * (size / flashPageSize + 1)) := by
    unfold flashPageSize
    omega
  apply wp_bind
  apply wp_region (wp_mono (sysErase_wp (n := size / flashSectorSize + 1) (by decide) _) _ _)
  · intro x hx
    unfold flashSectorSize at hx
    omega
  · unfold flashSectorSize
    omega
  swap
  · simp
  intro eraseAddr g hg
  subst hg
  have hcopy := sysCopyPages_wp (n := size / flashPageSize + 1) (Copied.erased f addr size)
    (by unfold flashPageSize; omega) hsect haddr
  have hstart : u32 (addr + 32 * 0) = addr := u32_eq haddr
  rw [hstart] at hcopy
  apply wp_bind
  apply wp_mono hcopy
  swap
  · simp
  intro _ g hg
  rw [Nat.zero_add] at hg
  apply wp_bind
  apply wp_region (wp_mono (sysCheck_wp (b := 0) (by omega) (by omega) (by omega)) _ _)
  · simp
  swap
  · simp
  intro ok g' hok
  obtain ⟨rfl, hok⟩ := hok
  apply wp_pure _ trivial
  constructor
  · exact hok.trans (hg.checked hpages hsect haddr hsrc)
  · rw [bytes_eq_bytes]
    intro k hk
    rw [Nat.zero_add]
    exact hg.image k (by omega) (by omega)

/-- A single pass decides alone. -/
theorem sysClrInfoReboot_once (t : PassFaults) (addr size : Nat) (f : Flash) :
    (sysClrInfoReboot addr size [t]).value f = ((sysPass t addr size 0).value f).1 ∧
      (sysClrInfoReboot addr size [t]).ops f = (sysPass t addr size 0).ops f := by
  rw [sysClrInfoReboot, recopy, Prog.value_bind, Prog.ops_bind]
  generalize (sysPass t addr size 0).value f = r
  obtain ⟨ok, eraseAddr⟩ := r
  cases ok with
  | true => exact ⟨rfl, List.append_nil _⟩
  | false => exact ⟨rfl, List.append_nil _⟩

/-- A pass begins with the sector at the erase address. -/
theorem sysPass_erases (t : PassFaults) (addr size eraseAddr : Nat) (f : Flash) :
    FlashOp.erase eraseAddr ∈ (sysPass t addr size eraseAddr).ops f := by
  rw [sysPass, Prog.ops_bind]
  apply List.mem_append_left
  rw [sysErase, Prog.ops_bind]
  exact List.mem_append_left _ List.mem_cons_self

/-- After a failed pass the next one erases the sector behind the image. -/
theorem sysClrInfoReboot_retry (hend : relocEnd size < 2 ^ 32)
    (hfail : (sysClrInfoReboot addr size (t :: ts)).value f = false) :
    FlashOp.erase (relocEnd size) ∈ (sysClrInfoReboot addr size (t :: ts ++ [PassFaults.clean])).ops f := by
  obtain ⟨t', ts', hts⟩ : ∃ t' ts', ts ++ [PassFaults.clean] = t' :: ts' := List.exists_cons_of_ne_nil (by simp)
  have hnext := @sysPass_yields addr size t hend f
  rw [sysClrInfoReboot, recopy, Prog.value_bind] at hfail
  rw [sysClrInfoReboot, List.cons_append, recopy, Prog.ops_bind, hts]
  apply List.mem_append_right
  generalize (sysPass t addr size 0).value f = r at hfail hnext
  obtain ⟨ok, eraseAddr⟩ := r
  cases ok with
  | true => cases hfail
  | false =>
    obtain rfl : eraseAddr = relocEnd size := hnext
    simp only [Bool.false_eq_true, if_false]
    rw [recopy, Prog.ops_bind]
    exact List.mem_append_left _ (sysPass_erases t' addr size _ _)

theorem not_relocates_retry (hend : relocEnd size < 2 ^ 32)
    (hfail : (sysClrInfoReboot addr size (t :: ts)).value f = false) : ¬ Relocates addr size (t :: ts) f := by
  intro hreloc
  have hfoot := hreloc.2.2 _ (sysClrInfoReboot_retry hend hfail) (relocEnd size) rfl
  omega

/-- **Relocation.** After failed passes the image never arrives as it should: the first retry
already erases behind it. Without one it does, if its only block keeps clear of the end of the
address space. -/
theorem sysClrInfoReboot_relocates_iff (haddr : addr < 2 ^ 32) (hsect : relocEnd size ≤ addr)
    (hsrc : addr + size ≤ 2 ^ 32) (hfail : (sysClrInfoReboot addr size ts).value f = false) :
    Relocates addr size ts f ↔ ts = [] ∧ WrapsClear f addr size := by
  cases ts with
  | cons t ts =>
    apply iff_of_false
    · exact not_relocates_retry (by omega) hfail
    · simp
  | nil =>
    obtain ⟨hregion, ⟨hok, hbytes⟩, -⟩ := sysPass_clean (f := f) hsect haddr hsrc
    obtain ⟨hvalue, hops⟩ := sysClrInfoReboot_once .clean addr size f
    have hfinal : (sysClrInfoReboot addr size [.clean]).final f = (sysPass .clean addr size 0).final f := by
      rw [Prog.final, hops, Prog.final]
    rw [Relocates, List.nil_append, hvalue, hops, hfinal]
    constructor
    · exact fun h => ⟨rfl, hok.mp h.1⟩
    · exact fun h => ⟨hok.mpr h.2, hbytes, hregion⟩

end Pass

/-- One pass in a chip that holds zeros. -/
theorem sysClrInfoReboot_relocates_once : Relocates 4096 16 [] (fun _ => 0) ↔
    ([] : List PassFaults) = [] ∧ WrapsClear (fun _ => 0) 4096 16 :=
  sysClrInfoReboot_relocates_iff (by decide) (by decide) (by decide) rfl

/-- Nothing is programmed in a first pass. -/
def PassFaults.unprogrammed : PassFaults := { PassFaults.clean with program := fun _ _ => 0xff }

/-- The retry erases the source and goes on to the reset with an erased image. -/
theorem sysClrInfoReboot_relocates_fails :
    let reboot := sysClrInfoReboot 4096 16 [.unprogrammed, .clean]
    (sysClrInfoReboot 4096 16 [.unprogrammed]).value (fun _ => 0) = false ∧
      ¬ Relocates 4096 16 [.unprogrammed] (fun _ => 0) ∧
      reboot.value (fun _ => 0) = true ∧ bytes (reboot.final fun _ => 0) 0 16 = List.replicate 16 0xff := by
  have hfail : (sysClrInfoReboot 4096 16 [.unprogrammed]).value (fun _ => 0) = false := by decide +kernel
  constructor
  · exact hfail
  constructor
  · exact not_relocates_retry (by decide) hfail
  · decide +kernel

end Rf4ce.Os

import Rf4ce.Drv.Flash

/-! The page pieces of `flash_op`, and what `flash_writeWithCheck` reports. -/
namespace Rf4ce.Drv
open Crash

/-- Consecutive programs from `addr` on that store `buf` once, none of them across a page boundary. -/
def PageWrites : Nat → List Byte → List FlashOp → Prop
  | _, buf, [] => buf = []
  | _, _, .erase _ :: _ => False
  | addr, buf, .program a data :: ops =>
    a = addr ∧ a % flashPageSize + data.length ≤ flashPageSize ∧
      ∃ rest, buf = data ++ rest ∧ PageWrites (addr + data.length) rest ops

theorem PageWrites.single {addr : Nat} {buf : List Byte} (h : addr % flashPageSize + buf.length ≤ flashPageSize) :
    PageWrites addr buf [.program addr buf] := ⟨rfl, h, [], (List.append_nil buf).symm, rfl⟩

/-- The first piece ends inside its page, the rest follows it. -/
theorem PageWrites.cons {addr n : Nat} {data rest : List Byte} {ops : List FlashOp} (hn : data.length = n)
    (h : addr % flashPageSize + n ≤ flashPageSize) (hops : PageWrites (addr + n) rest ops) :
    PageWrites addr (data ++ rest) (.program addr data :: ops) := by
  subst hn
  exact ⟨rfl, h, rest, rfl, hops⟩

/-- What such a sequence leaves in the flash. -/
theorem PageWrites.run {addr : Nat} {buf : List Byte} {ops : List FlashOp} (h : PageWrites addr buf ops) (f : Flash) :
    run f ops = f.program addr buf := by
  induction ops generalizing addr buf f with
  | nil =>
    rw [show buf = [] from h, program_nil]
    rfl
  | cons op ops ih =>
    cases op with
    | erase a => exact h.elim
    | program a data =>
      obtain ⟨rfl, -, rest, rfl, hops⟩ := h
      rw [← program_append]
      exact ih hops _

/-- The bytes up to the end of the first page, as `flash_op` computes them. -/
def pageReLen (addr : Nat) : Nat := if addr % 256 ≠ 0 then 256 - addr % 256 else 256

theorem pageReLen_pos (addr : Nat) : 0 < pageReLen addr := by
  unfold pageReLen
  split_ifs <;> omega

theorem pageReLen_page (addr : Nat) : addr % flashPageSize + pageReLen addr = flashPageSize := by
  unfold pageReLen flashPageSize
  split_ifs <;> omega

theorem pageReLen_next (addr : Nat) : pageReLen (addr + pageReLen addr) = flashPageSize := by
  have hpage := pageReLen_page addr
  unfold flashPageSize at hpage
  exact if_neg (by omega)

theorem flashProgramPieces_writes (fuel addr : Nat) (buf : List Byte) (f : Flash) (hfuel : buf.length < fuel) :
    PageWrites addr buf
      ((flashProgramPieces buf (flashPieces fuel addr (pageReLen addr) buf.length)).ops f) := by
  induction fuel generalizing addr buf f with
  | zero => omega
  | succ fuel ih =>
    have hpos := pageReLen_pos addr
    have hpage := pageReLen_page addr
    unfold flashPieces
    by_cases hlast : buf.length ≤ pageReLen addr
    · rw [if_pos hlast]
      change PageWrites addr buf [.program addr (buf.take buf.length)]
      rw [List.take_length]
      exact .single (by omega)
    · -- the first piece fills the page, so the rest starts on the next one
      rw [if_neg hlast]
      have hlen : (buf.take (pageReLen addr)).length = pageReLen addr := by
        rw [List.length_take]
        omega
      have hdrop : buf.length - pageReLen addr = (buf.drop (pageReLen addr)).length := List.length_drop.symm
      have hrest := ih (addr + pageReLen addr) (buf.drop (pageReLen addr))
        (f.program addr (buf.take (pageReLen addr))) (by omega)
      rw [pageReLen_next, ← hdrop] at hrest
      have hcons := PageWrites.cons hlen (by omega) hrest
      rw [List.take_append_drop] at hcons
      exact hcons

/-- The loop has ended before the fuel has, so more of it changes nothing. -/
theorem flashPieces_fuel {fuel addr reLen remainLen : Nat} (hfuel : remainLen < fuel) (hpos : 0 < reLen) :
    flashPieces fuel addr reLen remainLen = flashPieces (remainLen + 1) addr reLen remainLen := by
  induction remainLen using Nat.strongRecOn generalizing fuel addr reLen with
  | _ n ih =>
    obtain ⟨fuel, rfl⟩ := Nat.exists_eq_succ_of_ne_zero (show fuel ≠ 0 by omega)
    unfold flashPieces
    split_ifs with hlast
    · rfl
    · have hshort : n - reLen < n := by omega
      have hpage : 0 < flashPageSize := by decide
      congr 1
      obtain ⟨n', hn'⟩ := Nat.exists_eq_succ_of_ne_zero (show n ≠ 0 by omega)
      rw [ih _ hshort (show n - reLen < fuel by omega) hpage, ih _ hshort (show n - reLen < n by omega) hpage]

/-- What a checked write is for. -/
structure CheckedWrite (addr : Nat) (buf : List Byte) (f : Flash) : Prop where
  writes : PageWrites addr buf ((flashWrite addr buf).ops f)
  ends : ∀ fuel, buf.length < fuel →
    flashPieces fuel addr (pageReLen addr) buf.length = flashOp addr buf.length
  checkEnds : ∀ g fuel, buf.length < fuel → flashCheckLoop g fuel (s32 buf.length) addr buf =
    flashCheckLoop g (buf.length + 1) (s32 buf.length) addr buf
  check : (flashWriteWithCheck addr buf).value f = true ↔
    bytes ((flashWriteWithCheck addr buf).final f) addr buf.length = buf

theorem flashWrite_writes (addr : Nat) (buf : List Byte) (f : Flash) :
    PageWrites addr buf ((flashWrite addr buf).ops f) :=
  flashProgramPieces_writes _ addr buf f (Nat.lt_succ_self _)

theorem flashWriteWithCheck_final (addr : Nat) (buf : List Byte) (f : Flash) :
    (flashWriteWithCheck addr buf).final f = f.program addr buf := by
  have hops : (flashWriteWithCheck addr buf).ops f = (flashWrite addr buf).ops f ++ [] := rfl
  rw [Prog.final, hops, List.append_nil]
  exact (flashWrite_writes addr buf f).run f

/-- The range reads back as the buffer when the old bytes could take it. -/
theorem reads_back_iff (addr : Nat) (buf : List Byte) (f : Flash) :
    bytes ((flashWriteWithCheck addr buf).final f) addr buf.length = buf ↔
      Programmable (bytes f addr buf.length) buf := by
  rw [flashWriteWithCheck_final, bytes_program_zip]
  exact Iff.rfl

/-- From `2 ^ 31` bytes on the length is negative as an `s32`, and nothing is read back. -/
theorem flashCheckLoop_long {addr fuel : Nat} {buf : List Byte} (hlong : 2 ^ 31 ≤ buf.length)
    (hlen : buf.length < 2 ^ 32) (hfuel : 0 < fuel) (f : Flash) :
    flashCheckLoop f fuel (s32 buf.length) addr buf = true := by
  have hneg : s32 buf.length ≤ 0 := by
    rw [s32, BitVec.toInt_eq_toNat_cond, BitVec.toNat_ofNat, Nat.mod_eq_of_lt hlen, if_neg (by omega)]
    omega
  obtain ⟨fuel, rfl⟩ := Nat.exists_eq_succ_of_ne_zero (Nat.ne_of_gt hfuel)
  exact if_pos hneg

theorem flashWriteWithCheck_long {addr : Nat} {buf : List Byte} (hlong : 2 ^ 31 ≤ buf.length)
    (hlen : buf.length < 2 ^ 32) (f : Flash) : (flashWriteWithCheck addr buf).value f = true :=
  flashCheckLoop_long hlong hlen (Nat.succ_pos _) _

theorem flashCheckLoop_fuel {addr fuel : Nat} {buf : List Byte} (hlen : buf.length < 2 ^ 32)
    (hfuel : buf.length < fuel) (f : Flash) : flashCheckLoop f fuel (s32 buf.length) addr buf =
      flashCheckLoop f (buf.length + 1) (s32 buf.length) addr buf := by
  rcases Nat.lt_or_ge buf.length (2 ^ 31) with hshort | hlong
  · rw [s32_eq hshort, flashCheckLoop_eq f fuel addr buf hfuel, flashCheckLoop_eq f _ addr buf (Nat.lt_succ_self _)]
  · rw [flashCheckLoop_long hlong hlen (by omega), flashCheckLoop_long hlong hlen (Nat.succ_pos _)]

theorem checkedWrite_iff (addr : Nat) (buf : List Byte) (f : Flash) (h : addr + buf.length < 2 ^ 32) :
    CheckedWrite addr buf f ↔ buf.length < 2 ^ 31 ∨ Programmable (bytes f addr buf.length) buf := by
  constructor
  · intro hw
    rcases Nat.lt_or_ge buf.length (2 ^ 31) with hshort | hlong
    · exact .inl hshort
    · right
      rw [← reads_back_iff, ← hw.check]
      exact flashWriteWithCheck_long hlong (by omega) f
  · intro hcond
    constructor
    · exact flashWrite_writes addr buf f
    · intro fuel hfuel
      exact flashPieces_fuel hfuel (pageReLen_pos addr)
    · intro g fuel hfuel
      exact flashCheckLoop_fuel (by omega) hfuel g
    · rw [reads_back_iff]
      rcases Nat.lt_or_ge buf.length (2 ^ 31) with hshort | hlong
      · rw [flashWriteWithCheck_value addr hshort, decide_eq_true_iff]
      · have hprog : Programmable (bytes f addr buf.length) buf := by
          rcases hcond with hshort | hprog
          · omega
          · exact hprog
        exact iff_of_true (flashWriteWithCheck_long hlong (by omega) f) hprog

/-- Three bytes written across a page boundary of an erased flash. -/
theorem checkedWrite_iff_boundary : CheckedWrite 255 [1, 2, 3] (fun _ => 0xff) ↔
    [1, 2, 3].length < 2 ^ 31 ∨ Programmable (bytes (fun _ => 0xff) 255 3) [1, 2, 3] :=
  checkedWrite_iff 255 [1, 2, 3] (fun _ => 0xff) (by decide)

/-- Half of the address space written with ones over zeros. -/
theorem checkedWrite_long : ¬ CheckedWrite 0 (List.replicate (2 ^ 31) 0xff) (fun _ => 0) := by
  intro hw
  have hlen : (List.replicate (2 ^ 31) (0xff : Byte)).length = 2 ^ 31 := List.length_replicate
  have hback := hw.check.mp (flashWriteWithCheck_long (by omega) (by omega) _)
  rw [reads_back_iff] at hback
  have hfirst := programmable_getElem hback (i := 0) (by rw [bytes_length]; omega) (by omega)
  rw [bytes_getElem, List.getElem_replicate] at hfirst
  exact absurd hfirst (by decide)

end Rf4ce.Drv

import Rf4ce.Common.Crc
import Rf4ce.Refine.Division

/-! The checksum of `utility.c` as the remainder of a polynomial division, and the errors it sees. -/
namespace Rf4ce.Common
open Crash (Byte bytes bytes_append bytes_congr bytes_getElem? bytes_length)
open Refine Polynomial

/-- The bits of the data as coefficients: the lowest bit of the first byte is the highest. -/
noncomputable def dataPoly (buf : List Byte) : (ZMod 2)[X] := bitsPoly (buf.flatMap byteBits)

theorem byteBits_length (b : Byte) : (byteBits b).length = 8 := wordBits_length b

theorem flatMap_byteBits_length (buf : List Byte) : (buf.flatMap byteBits).length = 8 * buf.length := by
  induction buf with
  | nil => rfl
  | cons b buf ih =>
    rw [List.flatMap_cons, List.length_append, ih, List.length_cons, byteBits_length, Nat.mul_succ, Nat.add_comm]

theorem flatMap_byteBits_inj {xs ys : List Byte} (hlen : xs.length = ys.length)
    (h : xs.flatMap byteBits = ys.flatMap byteBits) : xs = ys := by
  induction xs generalizing ys with
  | nil => exact (List.eq_nil_of_length_eq_zero hlen.symm).symm
  | cons a xs ih =>
    cases ys with
    | nil => exact absurd hlen (Nat.succ_ne_zero _)
    | cons b ys =>
      rw [List.flatMap_cons, List.flatMap_cons] at h
      obtain ⟨hhead, htail⟩ := List.append_inj h (by rw [byteBits_length, byteBits_length])
      rw [wordBits_inj hhead, ih (Nat.succ.inj hlen) htail]

section Register
variable {w : Nat} {g v : BitVec w} {xs ys : List Byte}

theorem dataPoly_eq_iff (hg : IsCoprime (divisor g) X) (hlen : xs.length = ys.length) :
    divBits g v (xs.flatMap byteBits) = divBits g v (ys.flatMap byteBits) ↔
      divisor g ∣ dataPoly xs - dataPoly ys := by
  apply divBits_eq_iff hg
  rw [flatMap_byteBits_length, flatMap_byteBits_length, hlen]

theorem byteBits_burst (hg : IsCoprime (divisor g) X) {pre post : List Byte} (hlen : xs.length = ys.length)
    (hw : 8 * xs.length ≤ w)
    (h : divBits g v ((pre ++ (xs ++ post)).flatMap byteBits) =
      divBits g v ((pre ++ (ys ++ post)).flatMap byteBits)) : xs = ys := by
  simp only [List.flatMap_append] at h
  rw [← flatMap_byteBits_length] at hw
  have hbits : (xs.flatMap byteBits).length = (ys.flatMap byteBits).length := by
    rw [flatMap_byteBits_length, flatMap_byteBits_length, hlen]
  exact flatMap_byteBits_inj hlen (divBits_burst hg hbits hw h)

end Register

/-! ### CRC-32 -/

noncomputable def crc32Poly : (ZMod 2)[X] :=
  X ^ 32 + X ^ 26 + X ^ 23 + X ^ 22 + X ^ 16 + X ^ 12 + X ^ 11 + X ^ 10 + X ^ 8 + X ^ 7 + X ^ 5 + X ^ 4 + X ^ 2 + X + 1

theorem divisor_crc32 : divisor 0xEDB88320#32 = crc32Poly := by
  have hbits : wordBits 0xEDB88320#32 = [false, false, false, false, false, true, false, false, true, true, false, false,
      false, false, false, true, false, false, false, true, true, true, false, true, true, false, true, true, false, true,
      true, true] := by decide
  rw [divisor, wordPoly, hbits, crc32Poly]
  simp only [bitsPoly, bitCoeff_false, bitCoeff_true, List.length_cons, List.length_nil]
  ring

theorem divisor_crc32_coprime : IsCoprime (divisor 0xEDB88320#32) X := by
  use 1, -(X ^ 31 + X ^ 25 + X ^ 22 + X ^ 21 + X ^ 15 + X ^ 11 + X ^ 10 + X ^ 9 + X ^ 7 + X ^ 6 + X ^ 4 + X ^ 3 + X + 1)
  rw [divisor_crc32, crc32Poly]
  ring

theorem xcrc32_divBits (buf : List Byte) (init : BitVec 32) :
    xcrc32 buf init = divBits 0xEDB88320#32 init (buf.flatMap byteBits) := xcrc32_bits buf init

/-- Exactly the changes by a multiple of the polynomial go unseen, whatever the initial value is. -/
theorem xcrc32_eq_iff {xs ys : List Byte} (hlen : xs.length = ys.length) (init : BitVec 32) :
    xcrc32 xs init = xcrc32 ys init ↔ crc32Poly ∣ dataPoly xs - dataPoly ys := by
  rw [xcrc32_divBits, xcrc32_divBits, dataPoly_eq_iff divisor_crc32_coprime hlen, divisor_crc32]

theorem xcrc32_eq_iff_byte : ¬ crc32Poly ∣ dataPoly [1] - dataPoly [2] := by
  intro hdvd
  have hlen : ([1] : List Byte).length = ([2] : List Byte).length := by decide
  have heq : xcrc32 [1] 0 = xcrc32 [2] 0 := (xcrc32_eq_iff hlen 0).mpr hdvd
  revert heq
  decide +kernel

/-- A change within four bytes is seen. -/
theorem xcrc32_burst {pre xs ys post : List Byte} {init : BitVec 32} (hlen : xs.length = ys.length)
    (hfour : xs.length ≤ 4) (h : xcrc32 (pre ++ (xs ++ post)) init = xcrc32 (pre ++ (ys ++ post)) init) : xs = ys := by
  rw [xcrc32_divBits, xcrc32_divBits] at h
  exact byteBits_burst divisor_crc32_coprime hlen (by omega) h

/-- Memories that differ within four bytes only, and have the same checksum over them, do not differ. -/
theorem xcrc32_bytes {m m' : Nat → Byte} {b n a k : Nat} {init : BitVec 32} (hk : k ≤ 4) (ha : b ≤ a)
    (hfit : a + k ≤ b + n) (hsame : ∀ x, x < a ∨ a + k ≤ x → m' x = m x)
    (h : xcrc32 (bytes m' b n) init = xcrc32 (bytes m b n) init) : m' = m := by
  have hsplit (m : Nat → Byte) :
      bytes m b n = bytes m b (a - b) ++ (bytes m a k ++ bytes m (a + k) (b + n - (a + k))) := by
    have hn : n = a - b + (k + (b + n - (a + k))) := by omega
    conv_lhs => rw [hn]
    rw [bytes_append, bytes_append, show b + (a - b) = a by omega]
  have hpre : bytes m' b (a - b) = bytes m b (a - b) := bytes_congr fun x _ hx => hsame x (by omega)
  have hpost : bytes m' (a + k) (b + n - (a + k)) = bytes m (a + k) (b + n - (a + k)) :=
    bytes_congr fun x hx _ => hsame x (by omega)
  rw [hsplit m', hsplit m, hpre, hpost] at h
  have hmid := xcrc32_burst (by rw [bytes_length, bytes_length]) (by rw [bytes_length]; exact hk) h
  funext x
  by_cases hx : x < a ∨ a + k ≤ x
  · exact hsame x hx
  · have hin : x - a < k := by omega
    have hbyte := congrArg (fun l => l[x - a]?) hmid
    simp only [bytes_getElem?, if_pos hin, show a + (x - a) = x by omega] at hbyte
    exact Option.some.inj hbyte

end Rf4ce.Common

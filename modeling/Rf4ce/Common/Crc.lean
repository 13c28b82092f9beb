import Rf4ce.Crash.Bytes

/-! `xcrc32` of `utility.c`. -/
namespace Rf4ce.Common
open Crash

def crc32Table : List (BitVec 32) := [
  0x00000000, 0x77073096, 0xEE0E612C, 0x990951BA, 0x076DC419, 0x706AF48F, 0xE963A535, 0x9E6495A3,
  0x0EDB8832, 0x79DCB8A4, 0xE0D5E91E, 0x97D2D988, 0x09B64C2B, 0x7EB17CBD, 0xE7B82D07, 0x90BF1D91,
  0x1DB71064, 0x6AB020F2, 0xF3B97148, 0x84BE41DE, 0x1ADAD47D, 0x6DDDE4EB, 0xF4D4B551, 0x83D385C7,
  0x136C9856, 0x646BA8C0, 0xFD62F97A, 0x8A65C9EC, 0x14015C4F, 0x63066CD9, 0xFA0F3D63, 0x8D080DF5,
  0x3B6E20C8, 0x4C69105E, 0xD56041E4, 0xA2677172, 0x3C03E4D1, 0x4B04D447, 0xD20D85FD, 0xA50AB56B,
  0x35B5A8FA, 0x42B2986C, 0xDBBBC9D6, 0xACBCF940, 0x32D86CE3, 0x45DF5C75, 0xDCD60DCF, 0xABD13D59,
  0x26D930AC, 0x51DE003A, 0xC8D75180, 0xBFD06116, 0x21B4F4B5, 0x56B3C423, 0xCFBA9599, 0xB8BDA50F,
  0x2802B89E, 0x5F058808, 0xC60CD9B2, 0xB10BE924, 0x2F6F7C87, 0x58684C11, 0xC1611DAB, 0xB6662D3D,
  0x76DC4190, 0x01DB7106, 0x98D220BC, 0xEFD5102A, 0x71B18589, 0x06B6B51F, 0x9FBFE4A5, 0xE8B8D433,
  0x7807C9A2, 0x0F00F934, 0x9609A88E, 0xE10E9818, 0x7F6A0DBB, 0x086D3D2D, 0x91646C97, 0xE6635C01,
  0x6B6B51F4, 0x1C6C6162, 0x856530D8, 0xF262004E, 0x6C0695ED, 0x1B01A57B, 0x8208F4C1, 0xF50FC457,
  0x65B0D9C6, 0x12B7E950, 0x8BBEB8EA, 0xFCB9887C, 0x62DD1DDF, 0x15DA2D49, 0x8CD37CF3, 0xFBD44C65,
  0x4DB26158, 0x3AB551CE, 0xA3BC0074, 0xD4BB30E2, 0x4ADFA541, 0x3DD895D7, 0xA4D1C46D, 0xD3D6F4FB,
  0x4369E96A, 0x346ED9FC, 0xAD678846, 0xDA60B8D0, 0x44042D73, 0x33031DE5, 0xAA0A4C5F, 0xDD0D7CC9,
  0x5005713C, 0x270241AA, 0xBE0B1010, 0xC90C2086, 0x5768B525, 0x206F85B3, 0xB966D409, 0xCE61E49F,
  0x5EDEF90E, 0x29D9C998, 0xB0D09822, 0xC7D7A8B4, 0x59B33D17, 0x2EB40D81, 0xB7BD5C3B, 0xC0BA6CAD,
  0xEDB88320, 0x9ABFB3B6, 0x03B6E20C, 0x74B1D29A, 0xEAD54739, 0x9DD277AF, 0x04DB2615, 0x73DC1683,
  0xE3630B12, 0x94643B84, 0x0D6D6A3E, 0x7A6A5AA8, 0xE40ECF0B, 0x9309FF9D, 0x0A00AE27, 0x7D079EB1,
  0xF00F9344, 0x8708A3D2, 0x1E01F268, 0x6906C2FE, 0xF762575D, 0x806567CB, 0x196C3671, 0x6E6B06E7,
  0xFED41B76, 0x89D32BE0, 0x10DA7A5A, 0x67DD4ACC, 0xF9B9DF6F, 0x8EBEEFF9, 0x17B7BE43, 0x60B08ED5,
  0xD6D6A3E8, 0xA1D1937E, 0x38D8C2C4, 0x4FDFF252, 0xD1BB67F1, 0xA6BC5767, 0x3FB506DD, 0x48B2364B,
  0xD80D2BDA, 0xAF0A1B4C, 0x36034AF6, 0x41047A60, 0xDF60EFC3, 0xA867DF55, 0x316E8EEF, 0x4669BE79,
  0xCB61B38C, 0xBC66831A, 0x256FD2A0, 0x5268E236, 0xCC0C7795, 0xBB0B4703, 0x220216B9, 0x5505262F,
  0xC5BA3BBE, 0xB2BD0B28, 0x2BB45A92, 0x5CB36A04, 0xC2D7FFA7, 0xB5D0CF31, 0x2CD99E8B, 0x5BDEAE1D,
  0x9B64C2B0, 0xEC63F226, 0x756AA39C, 0x026D930A, 0x9C0906A9, 0xEB0E363F, 0x72076785, 0x05005713,
  0x95BF4A82, 0xE2B87A14, 0x7BB12BAE, 0x0CB61B38, 0x92D28E9B, 0xE5D5BE0D, 0x7CDCEFB7, 0x0BDBDF21,
  0x86D3D2D4, 0xF1D4E242, 0x68DDB3F8, 0x1FDA836E, 0x81BE16CD, 0xF6B9265B, 0x6FB077E1, 0x18B74777,
  0x88085AE6, 0xFF0F6A70, 0x66063BCA, 0x11010B5C, 0x8F659EFF, 0xF862AE69, 0x616BFFD3, 0x166CCF45,
  0xA00AE278, 0xD70DD2EE, 0x4E048354, 0x3903B3C2, 0xA7672661, 0xD06016F7, 0x4969474D, 0x3E6E77DB,
  0xAED16A4A, 0xD9D65ADC, 0x40DF0B66, 0x37D83BF0, 0xA9BCAE53, 0xDEBB9EC5, 0x47B2CF7F, 0x30B5FFE9,
  0xBDBDF21C, 0xCABAC28A, 0x53B39330, 0x24B4A3A6, 0xBAD03605, 0xCDD70693, 0x54DE5729, 0x23D967BF,
  0xB3667A2E, 0xC4614AB8, 0x5D681B02, 0x2A6F2B94, 0xB40BBE37, 0xC30C8EA1, 0x5A05DF1B, 0x2D02EF8D]

def crcStep (crc : BitVec 32) (b : Byte) : BitVec 32 :=
  (crc >>> 8) ^^^ crc32Table.getD ((crc ^^^ b.setWidth 32) &&& 0xff).toNat 0

def xcrc32 (buf : List Byte) (init : BitVec 32) : BitVec 32 := buf.foldl crcStep init

@[simp] theorem xcrc32_nil (init : BitVec 32) : xcrc32 [] init = init := rfl

@[simp] theorem xcrc32_cons (b : Byte) (buf : List Byte) (init : BitVec 32) :
    xcrc32 (b :: buf) init = xcrc32 buf (crcStep init b) := rfl

/-- Feeding the data in two parts. -/
theorem xcrc32_append (xs ys : List Byte) (init : BitVec 32) :
    xcrc32 (xs ++ ys) init = xcrc32 ys (xcrc32 xs init) := List.foldl_append

/-! ### Linearity -/

/-- One bit of the division that the table holds in steps of eight. -/
def crcShift (v : BitVec 32) : BitVec 32 := (v >>> 1) ^^^ (if v.getLsbD 0 then 0xEDB88320#32 else 0#32)

def crcShifts : Nat → BitVec 32 → BitVec 32
  | 0, v => v
  | n + 1, v => crcShifts n (crcShift v)

theorem xor_swap (a b p q : BitVec 32) : (a ^^^ b) ^^^ (p ^^^ q) = (a ^^^ p) ^^^ (b ^^^ q) := by
  ac_rfl

theorem crcShift_xor (a b : BitVec 32) : crcShift (a ^^^ b) = crcShift a ^^^ crcShift b := by
  have hmask : (if (a.getLsbD 0 ^^ b.getLsbD 0) = true then 0xEDB88320#32 else 0#32) =
      (if a.getLsbD 0 then 0xEDB88320#32 else 0#32) ^^^ (if b.getLsbD 0 then 0xEDB88320#32 else 0#32) := by
    cases a.getLsbD 0 <;> cases b.getLsbD 0 <;> decide
  unfold crcShift
  rw [BitVec.ushiftRight_xor_distrib, BitVec.getLsbD_xor, hmask, xor_swap]

theorem crcShifts_xor (n : Nat) (a b : BitVec 32) :
    crcShifts n (a ^^^ b) = crcShifts n a ^^^ crcShifts n b := by
  induction n generalizing a b with
  | zero => rfl
  | succ n ih => rw [crcShifts, crcShift_xor, ih, crcShifts, crcShifts]

theorem crc32Table_eq : ∀ n < 256, crc32Table.getD n 0 = crcShifts 8 (BitVec.ofNat 32 n) := by
  decide +kernel

theorem crcStep_eq (crc : BitVec 32) (b : Byte) :
    crcStep crc b = (crc >>> 8) ^^^ crcShifts 8 ((crc ^^^ b.setWidth 32) &&& 0xff) := by
  have hlt : ((crc ^^^ b.setWidth 32) &&& 0xff).toNat < 256 := by
    rw [BitVec.toNat_and]
    exact Nat.lt_of_le_of_lt Nat.and_le_right (by decide)
  rw [crcStep, crc32Table_eq _ hlt, BitVec.ofNat_toNat, BitVec.setWidth_eq]

/-- The CRC step is linear in the remainder and the data together. -/
theorem crcStep_xor (a b : BitVec 32) (x y : Byte) :
    crcStep (a ^^^ b) (x ^^^ y) = crcStep a x ^^^ crcStep b y := by
  have hmask : (a ^^^ b ^^^ (x.setWidth 32 ^^^ y.setWidth 32)) &&& 0xff =
      ((a ^^^ x.setWidth 32) &&& 0xff) ^^^ ((b ^^^ y.setWidth 32) &&& 0xff) := by
    rw [xor_swap]
    refine BitVec.eq_of_getLsbD_eq fun i _ => ?_
    simp only [BitVec.getLsbD_and, BitVec.getLsbD_xor, Bool.and_xor_distrib_right]
  rw [crcStep_eq, crcStep_eq, crcStep_eq, BitVec.setWidth_xor, hmask, crcShifts_xor,
    BitVec.ushiftRight_xor_distrib, xor_swap]

/-- The same data from two remainders: the difference moves as if the data were zero. -/
theorem xcrc32_xor (buf : List Byte) (a b : BitVec 32) :
    xcrc32 buf a ^^^ xcrc32 buf b = xcrc32 (List.replicate buf.length 0) (a ^^^ b) := by
  induction buf generalizing a b with
  | nil => rfl
  | cons x buf ih =>
    have hstep : crcStep a x ^^^ crcStep b x = crcStep (a ^^^ b) 0 := by
      rw [← crcStep_xor, BitVec.xor_self]
      rfl
    rw [xcrc32_cons, xcrc32_cons, ih, hstep, List.length_cons, List.replicate_succ, xcrc32_cons]

/-! ### Bit by bit -/

/-- The polynomial is subtracted when the low bit of the remainder and the bit of the data differ. -/
def crcBit (crc : BitVec 32) (b : Bool) : BitVec 32 :=
  (crc >>> 1) ^^^ (if crc.getLsbD 0 ^^ b then 0xEDB88320#32 else 0#32)

/-- The bits of a byte, lowest first. -/
def byteBits (b : Byte) : List Bool := (List.range 8).map b.getLsbD

/-- The reflected CRC-32 of the polynomial 0xEDB88320 without a final complement. -/
def crc32Bitwise (buf : List Byte) (init : BitVec 32) : BitVec 32 := (buf.flatMap byteBits).foldl crcBit init

theorem crcShift_bit (crc x : BitVec 32) : crcShift (crc ^^^ x) = crcBit crc (x.getLsbD 0) ^^^ x >>> 1 := by
  unfold crcShift crcBit
  rw [BitVec.ushiftRight_xor_distrib, BitVec.getLsbD_xor]
  ac_rfl

/-- Data of `n` bits enters the remainder at once or bit by bit. -/
theorem crcShifts_bits (n : Nat) (crc : BitVec 32) {x : BitVec 32} (hx : x >>> n = 0) :
    crcShifts n (crc ^^^ x) = ((List.range n).map x.getLsbD).foldl crcBit crc := by
  induction n generalizing crc x with
  | zero =>
    have hzero : x = 0 := hx
    rw [hzero]
    exact BitVec.xor_zero
  | succ n ih =>
    have hnext : x >>> 1 >>> n = 0 := by rw [← BitVec.shiftRight_add, Nat.add_comm 1 n, hx]
    have hbits : (List.range n).map (x.getLsbD ∘ Nat.succ) = (List.range n).map (x >>> 1).getLsbD := by
      apply List.map_congr_left
      intro i _
      rw [BitVec.getLsbD_ushiftRight, Nat.add_comm]
      rfl
    rw [crcShifts, crcShift_bit, ih _ hnext, List.range_succ_eq_map, List.map_cons, List.map_map, List.foldl_cons, hbits]

/-- A remainder whose low bits are clear only moves down. -/
theorem crcShifts_clear (n : Nat) {v : BitVec 32} (hv : ∀ i < n, v.getLsbD i = false) : crcShifts n v = v >>> n := by
  induction n generalizing v with
  | zero => rfl
  | succ n ih =>
    have hshift : crcShift v = v >>> 1 := by
      unfold crcShift
      rw [hv 0 (Nat.succ_pos n), if_neg Bool.false_ne_true]
      exact BitVec.xor_zero
    have hnext : ∀ i < n, (v >>> 1).getLsbD i = false := by
      intro i hi
      rw [BitVec.getLsbD_ushiftRight]
      exact hv (1 + i) (by omega)
    rw [crcShifts, hshift, ih hnext, ← BitVec.shiftRight_add, Nat.add_comm 1 n]

theorem low_shift (v : BitVec 32) : (v &&& 0xff) >>> 8 = 0 := by
  apply BitVec.eq_of_toNat_eq
  have hle : v.toNat &&& 255 ≤ 255 := Nat.and_le_right
  rw [BitVec.toNat_ushiftRight, BitVec.toNat_and, Nat.shiftRight_eq_div_pow]
  change (v.toNat &&& 255) / 256 = 0
  omega

/-- Eight shifts move the high bytes down and divide the low one. -/
theorem crcShifts_eight (v : BitVec 32) : crcShifts 8 v = (v >>> 8) ^^^ crcShifts 8 (v &&& 0xff) := by
  have hsplit : v = (v ^^^ v &&& 0xff) ^^^ (v &&& 0xff) := by
    rw [BitVec.xor_assoc, BitVec.xor_self]
    exact BitVec.xor_zero.symm
  have hmask : ∀ i < 8, (0xff : BitVec 32).getLsbD i = true := by decide
  have hclear : ∀ i < 8, (v ^^^ v &&& 0xff).getLsbD i = false := by
    intro i hi
    rw [BitVec.getLsbD_xor, BitVec.getLsbD_and, hmask i hi, Bool.and_true, Bool.xor_self]
  have hhigh : (v ^^^ v &&& 0xff) >>> 8 = v >>> 8 := by
    rw [BitVec.ushiftRight_xor_distrib, low_shift]
    exact BitVec.xor_zero
  calc crcShifts 8 v = crcShifts 8 ((v ^^^ v &&& 0xff) ^^^ (v &&& 0xff)) := by rw [← hsplit]
    _ = crcShifts 8 (v ^^^ v &&& 0xff) ^^^ crcShifts 8 (v &&& 0xff) := crcShifts_xor 8 _ _
    _ = (v >>> 8) ^^^ crcShifts 8 (v &&& 0xff) := by rw [crcShifts_clear 8 hclear, hhigh]

/-- The table step takes in eight bits. -/
theorem crcStep_bits (crc : BitVec 32) (b : Byte) : crcStep crc b = (byteBits b).foldl crcBit crc := by
  have hbyte : b.setWidth 32 >>> 8 = 0 := by
    apply BitVec.eq_of_toNat_eq
    rw [BitVec.toNat_ushiftRight, BitVec.toNat_setWidth_of_le (by decide), Nat.shiftRight_eq_div_pow]
    exact Nat.div_eq_of_lt b.isLt
  have hhigh : (crc ^^^ b.setWidth 32) >>> 8 = crc >>> 8 := by
    rw [BitVec.ushiftRight_xor_distrib, hbyte]
    exact BitVec.xor_zero
  have hbits : byteBits b = (List.range 8).map (b.setWidth 32).getLsbD := by
    apply List.map_congr_left
    intro i hi
    have hlt : i < 32 := Nat.lt_trans (List.mem_range.mp hi) (by decide)
    rw [BitVec.getLsbD_setWidth, decide_eq_true hlt, Bool.true_and]
  rw [crcStep_eq, ← hhigh, ← crcShifts_eight, crcShifts_bits 8 crc hbyte, hbits]

theorem xcrc32_bits (buf : List Byte) (init : BitVec 32) : xcrc32 buf init = crc32Bitwise buf init := by
  unfold crc32Bitwise
  induction buf generalizing init with
  | nil => rfl
  | cons b buf ih => rw [xcrc32_cons, List.flatMap_cons, List.foldl_append, ← crcStep_bits, ih]

theorem xcrc32_flatten (chunks : List (List Byte)) (init : BitVec 32) :
    xcrc32 chunks.flatten init = chunks.foldl (fun crc chunk => xcrc32 chunk crc) init := by
  induction chunks generalizing init with
  | nil => rfl
  | cons chunk chunks ih => rw [List.flatten_cons, xcrc32_append, ih, List.foldl_cons]

/-- The table-driven CRC is the one bit by bit, and the data may come in any chunks. -/
theorem xcrc32_bitwise (init : BitVec 32) :
    (∀ buf, xcrc32 buf init = crc32Bitwise buf init) ∧
      ∀ chunks : List (List Byte), chunks.foldl (fun crc chunk => xcrc32 chunk crc) init =
        crc32Bitwise chunks.flatten init := by
  constructor
  · exact fun buf => xcrc32_bits buf init
  · intro chunks
    rw [← xcrc32_flatten, xcrc32_bits]

end Rf4ce.Common

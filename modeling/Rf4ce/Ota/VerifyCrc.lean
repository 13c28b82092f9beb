import Rf4ce.Common.CrcPoly
import Rf4ce.Ota.Client

/-! When `verifyFirmwareCrc` returns, and what it then says. -/
namespace Rf4ce.Ota
open Crash Drv Common Os

section Verify
variable (mcu : Mcu) (f : Flash) (otaAddr : Nat)

/-- The image with its keyword byte as it is in a running image. -/
def keyed (image : List Byte) : List Byte := image.set mcu.keywordAddrOffset tlImageStartFlag

/-- The byte at offset `i`, read in blocks whose addresses are 32-bit sums. -/
def blockByte (i : Nat) : Byte := f (u32 (otaAddr + i / 48 * 48) + i % 48)

/-- The length word of the image. -/
def imageLength : Nat := ofLe (bytes f (otaAddr + firmwareLengthAddr) 4)

/-- The last word of the image. -/
def imageCrc : Nat := ofLe (bytes f (u32Sub (otaAddr + imageLength f otaAddr) firmwarecrcLength) firmwarecrcLength)

/-- The image is of a legal size and ends with the CRC of what precedes. -/
def FirmwareOk : Prop :=
  4 < imageLength f otaAddr ∧ imageLength f otaAddr ≤ otaMaxImageSize ∧
    (xcrc32 (keyed mcu (bytes f otaAddr (imageLength f otaAddr - 4))) 0xffffffff).toNat =
      ofLe (bytes f (otaAddr + (imageLength f otaAddr - 4)) 4)

instance : Decidable (FirmwareOk mcu f otaAddr) := inferInstanceAs (Decidable (_ ∧ _ ∧ _))

/-- The images that the function judges right. -/
def Judged : Prop :=
  (52 < imageLength f otaAddr ∧ imageLength f otaAddr ≤ otaMaxImageSize) ∨
  (imageLength f otaAddr = 4 ∧ imageCrc f otaAddr ≠ 0xffffffff) ∨
  (4 < imageLength f otaAddr ∧ imageLength f otaAddr ≤ 52 ∧
    ((xcrc32 (keyed mcu (List.replicate (imageLength f otaAddr - 4) 0)) 0xffffffff).toNat = imageCrc f otaAddr ↔
      (xcrc32 (keyed mcu (bytes f otaAddr (imageLength f otaAddr - 4))) 0xffffffff).toNat = imageCrc f otaAddr)) ∨
  (otaMaxImageSize < imageLength f otaAddr ∧ imageLength f otaAddr ≤ 4294967284 ∧
    (xcrc32 (keyed mcu (bytes (blockByte f otaAddr) 0 (imageLength f otaAddr - 4))) 0xffffffff).toNat ≠
      imageCrc f otaAddr)

end Verify

variable {mcu : Mcu} {f : Flash} {otaAddr m : Nat}

theorem keywordAddrOffset_inBlock (mcu : Mcu) : mcu.keywordAddrOffset < 48 := by
  cases mcu <;> decide

/-- A block after the first one leaves the keyword alone. -/
theorem keyed_append {xs ys : List Byte} (h : 48 ≤ xs.length) : keyed mcu (xs ++ ys) = keyed mcu xs ++ ys := by
  have hlt := keywordAddrOffset_inBlock mcu
  exact List.set_append_left _ _ (by omega)

theorem blockBytes (f : Flash) (otaAddr j n : Nat) (hn : n ≤ 48) :
    bytes (blockByte f otaAddr) (48 * j) n = bytes f (u32 (otaAddr + 48 * j)) n := by
  apply List.ext_getElem (by simp)
  intro i h₁ h₂
  rw [bytes_length] at h₁
  have hdiv : (48 * j + i) / 48 * 48 = 48 * j := by omega
  have hmod : (48 * j + i) % 48 = i := by omega
  rw [bytes_getElem, bytes_getElem]
  unfold blockByte
  rw [hdiv, hmod]

theorem bytes_take (g : Nat → Byte) (a : Nat) {k n : Nat} (h : k ≤ n) : (bytes g a n).take k = bytes g a k := by
  have hsub := bytes_sub (rfl : bytes g a n = _) 0 k (by omega)
  rw [Nat.add_zero, List.drop_zero] at hsub
  exact hsub.symm

/-- The buffer of a round at offset `i`. -/
def verifyBuf (mcu : Mcu) (f : Flash) (otaAddr i frameLen : Nat) (binBuf : List Byte) : List Byte :=
  let binBuf := bytes f (u32 (otaAddr + i)) frameLen ++ binBuf.drop frameLen
  if i = 0 then keyed mcu binBuf else binBuf

/-- The length that a round at offset `i` sums. -/
def verifyLen (m i : Nat) : Nat := if u32 (i + 48) < m then 48 else m - i

theorem verifyLoop_step {fuel i frameLen : Nat} {binBuf : List Byte} {calcCrc : U32} (hi : i < m) :
    verifyLoop mcu f otaAddr m (fuel + 1) i frameLen binBuf calcCrc =
      verifyLoop mcu f otaAddr m fuel (u32 (i + verifyLen m i)) (verifyLen m i) (verifyBuf mcu f otaAddr i frameLen binBuf)
        (xcrc32 ((verifyBuf mcu f otaAddr i frameLen binBuf).take (verifyLen m i)) calcCrc) := by
  rw [verifyLoop, if_pos hi]
  simp only [flashRead_eq]
  rfl

theorem verifyLoop_end {fuel frameLen : Nat} {binBuf : List Byte} {calcCrc : U32} (hfuel : fuel ≠ 0) :
    verifyLoop mcu f otaAddr m fuel m frameLen binBuf calcCrc = some calcCrc := by
  obtain ⟨fuel, rfl⟩ := Nat.exists_eq_succ_of_ne_zero hfuel
  rw [verifyLoop, if_neg (Nat.lt_irrefl m)]

/-- The CRC of the blocks before block `j`. -/
def crcBefore (mcu : Mcu) (f : Flash) (otaAddr n : Nat) : U32 :=
  xcrc32 (keyed mcu (bytes (blockByte f otaAddr) 0 n)) 0xffffffff

/-- A block continues the CRC of the blocks before it. -/
theorem crcBefore_add {j n : Nat} {binBuf : List Byte} (hbuf : binBuf.length = 48) (hn : n ≤ 48) :
    xcrc32 ((verifyBuf mcu f otaAddr (48 * j) 48 binBuf).take n) (crcBefore mcu f otaAddr (48 * j)) =
      crcBefore mcu f otaAddr (48 * j + n) := by
  have hdrop : binBuf.drop 48 = [] := List.drop_eq_nil_of_le (by omega)
  unfold verifyBuf crcBefore
  rw [hdrop, List.append_nil, ← blockBytes f otaAddr j 48 (Nat.le_refl 48)]
  cases j with
  | zero =>
    have hnil : keyed mcu (bytes (blockByte f otaAddr) 0 (48 * 0)) = [] := rfl
    rw [if_pos rfl, hnil, xcrc32_nil]
    unfold keyed
    rw [List.take_set, bytes_take _ _ hn, Nat.mul_zero, Nat.zero_add]
  | succ j =>
    rw [if_neg (by omega), bytes_take _ _ hn, bytes_append, keyed_append (by rw [bytes_length]; omega), xcrc32_append,
      Nat.zero_add]

theorem verifyBuf_length {i : Nat} {binBuf : List Byte} (hbuf : binBuf.length = 48) :
    (verifyBuf mcu f otaAddr i 48 binBuf).length = 48 := by
  unfold verifyBuf keyed
  split_ifs <;> simp [hbuf]

/-- The loop from block `j` on, when no offset wraps. -/
theorem verifyLoop_blocks {fuel j : Nat} {binBuf : List Byte} (hmax : m ≤ 4294967280) (hj : 48 * j < m)
    (hfuel : m - 48 * j < fuel) (hbuf : binBuf.length = 48) :
    verifyLoop mcu f otaAddr m fuel (48 * j) 48 binBuf (crcBefore mcu f otaAddr (48 * j)) =
      some (crcBefore mcu f otaAddr m) := by
  induction fuel generalizing j binBuf with
  | zero => omega
  | succ fuel ih =>
    have hnext : u32 (48 * j + 48) = 48 * j + 48 := u32_eq (by omega)
    by_cases hlast : 48 * j + 48 < m
    · have hlen : verifyLen m (48 * j) = 48 := if_pos (by rw [hnext]; exact hlast)
      rw [verifyLoop_step hj, hlen, crcBefore_add hbuf (Nat.le_refl 48), hnext]
      exact ih (j := j + 1) hlast (by omega) (verifyBuf_length hbuf)
    · have hlen : verifyLen m (48 * j) = m - 48 * j := if_neg (by rw [hnext]; exact hlast)
      have hend : u32 (48 * j + (m - 48 * j)) = m := by
        rw [u32_eq (by omega)]
        omega
      have hm : 48 * j + (m - 48 * j) = m := by omega
      rw [verifyLoop_step hj, hlen, crcBefore_add hbuf (by omega), hend, verifyLoop_end (by omega), hm]

/-- An image of at most one block is not read at all. -/
theorem verifyLoop_short {fuel : Nat} (hpos : 0 < m) (hm : m ≤ 48) (hfuel : m < fuel) :
    verifyLoop mcu f otaAddr m fuel 0 0 (List.replicate otaFramesize 0) 0xffffffff =
      some (xcrc32 (keyed mcu (List.replicate m 0)) 0xffffffff) := by
  obtain ⟨fuel, rfl⟩ := Nat.exists_eq_succ_of_ne_zero (show fuel ≠ 0 by omega)
  have hnext : u32 (0 + 48) = 48 := rfl
  have hlen : verifyLen m 0 = m := by
    unfold verifyLen
    rw [hnext, if_neg (by omega), Nat.sub_zero]
  have hbuf : (verifyBuf mcu f otaAddr 0 0 (List.replicate otaFramesize 0)).take m = keyed mcu (List.replicate m 0) := by
    unfold verifyBuf keyed
    rw [if_pos rfl, bytes_zero, List.nil_append, List.drop_zero, List.take_set, List.take_replicate]
    unfold otaFramesize
    rw [Nat.min_eq_left hm]
  have hend : u32 (0 + m) = m := by
    rw [u32_eq (by omega), Nat.zero_add]
  rw [verifyLoop_step hpos, hlen, hbuf, hend, verifyLoop_end (by omega)]

/-- Offsets wrap in multiples of 16 and never reach a length above the greatest of them. -/
theorem verifyLoop_diverges {fuel i frameLen : Nat} {binBuf : List Byte} {calcCrc : U32} (hmin : 4294967280 < m)
    (hmul : i % 16 = 0) (hi : i < 4294967296) : verifyLoop mcu f otaAddr m fuel i frameLen binBuf calcCrc = none := by
  induction fuel generalizing i frameLen binBuf calcCrc with
  | zero => rfl
  | succ fuel ih =>
    have hwrap : u32 (i + 48) % 16 = 0 ∧ u32 (i + 48) < 4294967296 := by
      unfold u32
      omega
    have hlen : verifyLen m i = 48 := if_pos (by omega)
    rw [verifyLoop_step (by omega), hlen]
    exact ih hwrap.1 hwrap.2

/-! ### The verdict -/

theorem imageLength_lt (f : Flash) (otaAddr : Nat) : imageLength f otaAddr < 4294967296 := by
  have hword := ofLe_lt (bytes f (otaAddr + firmwareLengthAddr) 4)
  rwa [bytes_length] at hword

theorem verifyFirmwareCrc_eq (mcu : Mcu) (mcuBootAddr : Nat) (f : Flash) :
    verifyFirmwareCrc mcu mcuBootAddr f =
      (verifyLoop mcu f (otaBaseAddr mcuBootAddr) (u32Sub (imageLength f (otaBaseAddr mcuBootAddr)) 4)
        (u32Sub (imageLength f (otaBaseAddr mcuBootAddr)) 4 + 1) 0
        (if 48 < u32Sub (imageLength f (otaBaseAddr mcuBootAddr)) 4 then 48 else 0)
        (List.replicate otaFramesize 0) 0xffffffff).map
          fun calcCrc => decide (calcCrc.toNat = imageCrc f (otaBaseAddr mcuBootAddr)) := by
  unfold verifyFirmwareCrc imageCrc imageLength firmwarecrcLength
  simp only [flashRead_eq]
  rfl

section Verdict
variable {mcuBootAddr : Nat}

theorem verify_empty (hlen : imageLength f (otaBaseAddr mcuBootAddr) = 4) :
    verifyFirmwareCrc mcu mcuBootAddr f = some (decide (0xffffffff = imageCrc f (otaBaseAddr mcuBootAddr))) := by
  have hm : u32Sub 4 4 = 0 := rfl
  have hones : (0xffffffff : U32).toNat = 0xffffffff := rfl
  rw [verifyFirmwareCrc_eq, hlen, hm, verifyLoop_end (by omega), Option.map_some, hones]

theorem verify_short (hmin : 4 < imageLength f (otaBaseAddr mcuBootAddr))
    (hmax : imageLength f (otaBaseAddr mcuBootAddr) ≤ 52) :
    verifyFirmwareCrc mcu mcuBootAddr f =
      some (decide ((xcrc32 (keyed mcu (List.replicate (imageLength f (otaBaseAddr mcuBootAddr) - 4) 0)) 0xffffffff).toNat =
        imageCrc f (otaBaseAddr mcuBootAddr))) := by
  rw [verifyFirmwareCrc_eq, u32Sub_eq (by omega) (imageLength_lt _ _), if_neg (by omega),
    verifyLoop_short (by omega) (by omega) (by omega), Option.map_some]

theorem verify_long (hmin : 52 < imageLength f (otaBaseAddr mcuBootAddr))
    (hmax : imageLength f (otaBaseAddr mcuBootAddr) ≤ 4294967284) :
    verifyFirmwareCrc mcu mcuBootAddr f =
      some (decide ((xcrc32 (keyed mcu (bytes (blockByte f (otaBaseAddr mcuBootAddr)) 0
        (imageLength f (otaBaseAddr mcuBootAddr) - 4))) 0xffffffff).toNat = imageCrc f (otaBaseAddr mcuBootAddr))) := by
  have hloop := @verifyLoop_blocks mcu f (otaBaseAddr mcuBootAddr) (imageLength f (otaBaseAddr mcuBootAddr) - 4)
    (imageLength f (otaBaseAddr mcuBootAddr) - 4 + 1) 0 (List.replicate otaFramesize 0) (by omega) (by omega) (by omega) rfl
  have hstart : crcBefore mcu f (otaBaseAddr mcuBootAddr) (48 * 0) = 0xffffffff := rfl
  rw [hstart] at hloop
  rw [verifyFirmwareCrc_eq, u32Sub_eq (by omega) (imageLength_lt _ _), if_pos (by omega), hloop, Option.map_some]
  rfl

/-- For every other length the loop goes on for ever. -/
theorem verify_diverges (hout : imageLength f (otaBaseAddr mcuBootAddr) < 4 ∨
    4294967284 < imageLength f (otaBaseAddr mcuBootAddr)) (fuel frameLen : Nat) (binBuf : List Byte) (calcCrc : U32) :
    verifyLoop mcu f (otaBaseAddr mcuBootAddr) (u32Sub (imageLength f (otaBaseAddr mcuBootAddr)) 4) fuel 0 frameLen binBuf
      calcCrc = none := by
  have hlt := imageLength_lt f (otaBaseAddr mcuBootAddr)
  apply verifyLoop_diverges _ rfl (by omega)
  unfold u32Sub u32
  omega

end Verdict

theorem otaBaseAddr_le (mcuBootAddr : Nat) : otaBaseAddr mcuBootAddr ≤ 262144 := by
  unfold otaBaseAddr flashOtaNewimageAddr
  split_ifs <;> omega

/-- No address wraps in an image of legal size. -/
theorem image_bytes {n : Nat} (hbase : otaAddr ≤ 262144) (hn : n ≤ otaMaxImageSize) :
    bytes (blockByte f otaAddr) 0 n = bytes f otaAddr n := by
  have hmax : n ≤ 196608 := hn
  apply List.ext_getElem (by simp)
  intro i h₁ h₂
  rw [bytes_length] at h₁
  have haddr : u32 (otaAddr + i / 48 * 48) = otaAddr + i / 48 * 48 := u32_eq (by omega)
  have hoff : otaAddr + i / 48 * 48 + i % 48 = otaAddr + i := by omega
  rw [bytes_getElem, bytes_getElem, Nat.zero_add]
  unfold blockByte
  rw [haddr, hoff]

theorem imageCrc_eq (hbase : otaAddr ≤ 262144) (hmin : 4 ≤ imageLength f otaAddr)
    (hmax : imageLength f otaAddr ≤ otaMaxImageSize) :
    imageCrc f otaAddr = ofLe (bytes f (otaAddr + (imageLength f otaAddr - 4)) 4) := by
  have hmax : imageLength f otaAddr ≤ 196608 := hmax
  unfold imageCrc firmwarecrcLength
  rw [u32Sub_eq (by omega) (by omega), Nat.add_sub_assoc hmin]

theorem firmwareOk_iff (hbase : otaAddr ≤ 262144) (hmin : 4 < imageLength f otaAddr)
    (hmax : imageLength f otaAddr ≤ otaMaxImageSize) :
    FirmwareOk mcu f otaAddr ↔
      (xcrc32 (keyed mcu (bytes f otaAddr (imageLength f otaAddr - 4))) 0xffffffff).toNat = imageCrc f otaAddr := by
  unfold FirmwareOk
  rw [imageCrc_eq hbase (Nat.le_of_lt hmin) hmax]
  simp [hmin, hmax]

theorem some_decide_iff {p q : Prop} [Decidable p] [Decidable q] : some (decide p) = some (decide q) ↔ (p ↔ q) := by
  simp

theorem verify_verdict_iff (mcu : Mcu) (mcuBootAddr : Nat) (f : Flash) :
    verifyFirmwareCrc mcu mcuBootAddr f = some (decide (FirmwareOk mcu f (otaBaseAddr mcuBootAddr))) ↔
      Judged mcu f (otaBaseAddr mcuBootAddr) := by
  have hbase := otaBaseAddr_le mcuBootAddr
  have hsize : otaMaxImageSize = 196608 := rfl
  have hok : FirmwareOk mcu f (otaBaseAddr mcuBootAddr) → 4 < imageLength f (otaBaseAddr mcuBootAddr) ∧
      imageLength f (otaBaseAddr mcuBootAddr) ≤ otaMaxImageSize := fun h => ⟨h.1, h.2.1⟩
  unfold Judged
  by_cases hout : imageLength f (otaBaseAddr mcuBootAddr) < 4 ∨ 4294967284 < imageLength f (otaBaseAddr mcuBootAddr)
  · rw [verifyFirmwareCrc_eq, verify_diverges hout, Option.map_none]
    constructor
    · intro h
      cases h
    · omega
  by_cases hempty : imageLength f (otaBaseAddr mcuBootAddr) = 4
  · have hno : ¬FirmwareOk mcu f (otaBaseAddr mcuBootAddr) := fun h => by
      have := hok h
      omega
    rw [verify_empty hempty, some_decide_iff]
    constructor
    · exact fun h => .inr (.inl ⟨hempty, fun heq => hno (h.mp heq.symm)⟩)
    · rintro (h | ⟨-, hcrc⟩ | h | h)
      · omega
      · exact ⟨fun heq => absurd heq.symm hcrc, fun h => absurd h hno⟩
      · omega
      · omega
  by_cases hshort : imageLength f (otaBaseAddr mcuBootAddr) ≤ 52
  · rw [verify_short (by omega) hshort, some_decide_iff, firmwareOk_iff hbase (by omega) (by omega)]
    constructor
    · exact fun h => .inr (.inr (.inl ⟨by omega, hshort, h⟩))
    · rintro (h | h | ⟨-, -, h⟩ | h)
      · omega
      · omega
      · exact h
      · omega
  rw [verify_long (by omega) (by omega), some_decide_iff]
  by_cases hmax : imageLength f (otaBaseAddr mcuBootAddr) ≤ otaMaxImageSize
  · rw [firmwareOk_iff hbase (by omega) hmax, image_bytes hbase (by omega)]
    constructor
    · exact fun _ => .inl ⟨by omega, hmax⟩
    · exact fun _ => Iff.rfl
  · have hno : ¬FirmwareOk mcu f (otaBaseAddr mcuBootAddr) := fun h => hmax (hok h).2
    constructor
    · exact fun h => .inr (.inr (.inr ⟨by omega, by omega, fun heq => hno (h.mp heq)⟩))
    · rintro (h | h | h | ⟨-, -, hcrc⟩)
      · omega
      · omega
      · omega
      · exact ⟨fun heq => absurd heq hcrc, fun h => absurd h hno⟩

/-- `verifyFirmwareCrc` returns the verdict on an image exactly when it is one of those it judges
right, and when it does not return its loop never ends. -/
theorem verifyFirmwareCrc_iff (mcu : Mcu) (mcuBootAddr : Nat) (f : Flash) :
    (verifyFirmwareCrc mcu mcuBootAddr f = some (decide (FirmwareOk mcu f (otaBaseAddr mcuBootAddr))) ↔
      Judged mcu f (otaBaseAddr mcuBootAddr)) ∧
    (verifyFirmwareCrc mcu mcuBootAddr f = none → ∀ fuel frameLen binBuf calcCrc,
      verifyLoop mcu f (otaBaseAddr mcuBootAddr) (u32Sub (imageLength f (otaBaseAddr mcuBootAddr)) 4) fuel 0 frameLen
        binBuf calcCrc = none) := by
  refine ⟨verify_verdict_iff mcu mcuBootAddr f, fun hnone => ?_⟩
  apply verify_diverges
  by_contra hin
  -- any length in between gives a result
  by_cases hempty : imageLength f (otaBaseAddr mcuBootAddr) = 4
  · rw [verify_empty hempty] at hnone
    cases hnone
  by_cases hshort : imageLength f (otaBaseAddr mcuBootAddr) ≤ 52
  · rw [verify_short (by omega) hshort] at hnone
    cases hnone
  · rw [verify_long (by omega) (by omega)] at hnone
    cases hnone

/-- On an erased bank the length word is 0xffffffff, and the check does not return. -/
theorem verify_erased :
    verifyFirmwareCrc .mcu8258 0 (fun _ => 0xff) = none ∧ ∀ fuel frameLen binBuf calcCrc,
      verifyLoop .mcu8258 (fun _ => 0xff) flashOtaNewimageAddr 0xfffffffb fuel 0 frameLen binBuf calcCrc = none := by
  have hlen : imageLength (fun _ => 0xff) (otaBaseAddr 0) = 0xffffffff := by decide +kernel
  have hloop := @verify_diverges .mcu8258 (fun _ => 0xff) 0 (by rw [hlen]; decide)
  rw [hlen] at hloop
  constructor
  · rw [verifyFirmwareCrc_eq, hlen, hloop, Option.map_none]
  · exact hloop

/-! ### Changed images -/

theorem keyed_bytes (mcu : Mcu) (f : Flash) (otaAddr n : Nat) :
    keyed mcu (bytes f otaAddr n) =
      bytes (Function.update f (otaAddr + mcu.keywordAddrOffset) tlImageStartFlag) otaAddr n := by
  unfold keyed
  apply List.ext_getElem (by simp)
  intro i h₁ h₂
  rw [List.getElem_set, bytes_getElem, bytes_getElem, Function.update_apply]
  by_cases hi : mcu.keywordAddrOffset = i
  · rw [if_pos hi, if_pos (by rw [hi])]
  · rw [if_neg hi, if_neg (by omega)]

/-- Of an image of more than one block, no change of up to four bytes in a row passes, apart from one
in the length word, in the keyword, or in the CRC itself. -/
theorem verify_burst {f' : Flash} {mcuBootAddr a : Nat} (hok : FirmwareOk mcu f (otaBaseAddr mcuBootAddr))
    (hlong : 52 < imageLength f (otaBaseAddr mcuBootAddr))
    (hsame : ∀ x, x < a ∨ a + 4 ≤ x → f' x = f x) (ha : otaBaseAddr mcuBootAddr ≤ a)
    (hfit : a + 4 ≤ otaBaseAddr mcuBootAddr + (imageLength f (otaBaseAddr mcuBootAddr) - 4))
    (hlen : imageLength f' (otaBaseAddr mcuBootAddr) = imageLength f (otaBaseAddr mcuBootAddr))
    (hne : ∃ x, x ≠ otaBaseAddr mcuBootAddr + mcu.keywordAddrOffset ∧ f' x ≠ f x) :
    verifyFirmwareCrc mcu mcuBootAddr f' = some false := by
  obtain ⟨hmin, hmax, hcrc⟩ := hok
  have hbase := otaBaseAddr_le mcuBootAddr
  have hsize : otaMaxImageSize = 196608 := rfl
  have hstored : imageCrc f' (otaBaseAddr mcuBootAddr) =
      ofLe (bytes f (otaBaseAddr mcuBootAddr + (imageLength f (otaBaseAddr mcuBootAddr) - 4)) 4) := by
    rw [imageCrc_eq hbase (by omega) (by omega), hlen]
    congr 1
    exact bytes_congr fun x hx _ => hsame x (by omega)
  rw [verify_long (by omega) (by omega), hlen, image_bytes hbase (by omega), hstored, ← hcrc, Option.some_inj,
    decide_eq_false_iff_not, ← BitVec.toNat_eq, keyed_bytes, keyed_bytes]
  intro heq
  obtain ⟨x, hx, hchanged⟩ := hne
  have hkey := xcrc32_bytes (Nat.le_refl 4) ha hfit (by
    intro x hx
    rw [Function.update_apply, Function.update_apply, hsame x hx]) heq
  have hbyte := congrFun hkey x
  rw [Function.update_of_ne hx, Function.update_of_ne hx] at hbyte
  exact hchanged hbyte

/-- 56 bytes with their CRC in the upper bank. -/
def summedImage : Flash := fun x =>
  (List.replicate 24 0 ++ le32 56 ++ List.replicate 24 0 ++ [0x2e, 0xd8, 0x73, 0x6d]).getD (x - flashOtaNewimageAddr)
    0xff

theorem verify_burst_byte :
    verifyFirmwareCrc .mcu8258 0 (Function.update summedImage (flashOtaNewimageAddr + 30) 1) = some false := by
  have hok : FirmwareOk .mcu8258 summedImage (otaBaseAddr 0) := by decide +kernel
  refine verify_burst (a := flashOtaNewimageAddr + 30) hok (by decide +kernel) ?_ (by decide) (by decide +kernel)
    (by decide +kernel) ⟨flashOtaNewimageAddr + 30, by decide, by decide +kernel⟩
  intro x hx
  exact Function.update_of_ne (by omega) _ _

end Rf4ce.Ota

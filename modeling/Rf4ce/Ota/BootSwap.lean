import Rf4ce.Ota.Types

/-! The swap of the boot bank in `ota_mcuReboot` under power failures. -/
namespace Rf4ce.Ota
open Crash Drv Common

/-- The flash programs of `ota_mcuReboot`. -/
def otaMcuReboot (mcu : Mcu) (mcuBootAddr : Nat) : FlashM Unit := do
  let baseAddr := if mcuBootAddr ≠ 0 then flashOtaNewimageAddr else 0
  let newAddr := if mcuBootAddr ≠ 0 then 0 else flashOtaNewimageAddr
  flashWrite (newAddr + mcu.keywordAddrOffset) [tlImageStartFlag]
  flashWrite (baseAddr + mcu.keywordAddrOffset) [0]

/-! ### Images and banks -/

def HasStartUpFlag (mcu : Mcu) (f : Flash) (base : Nat) : Prop :=
  ofLe (bytes f (base + mcu.flashTlnkFlagOffset) 4) = tlStartUpFlagWhole

instance (mcu : Mcu) (f : Flash) (base : Nat) : Decidable (HasStartUpFlag mcu f base) :=
  inferInstanceAs (Decidable (_ = _))

/-- A complete image: it fits a bank, has the start-up flag and the keyword byte. -/
structure Image (mcu : Mcu) (img : List Byte) : Prop where
  fits : img.length ≤ flashOtaNewimageAddr
  keyword : img[mcu.keywordAddrOffset]? = some tlImageStartFlag
  flag : (img.drop mcu.flashTlnkFlagOffset).take 4 = le32 tlStartUpFlagWhole

/-- The bank at `base` holds the image `img`. -/
def HoldsImage (f : Flash) (base : Nat) (img : List Byte) : Prop := bytes f base img.length = img

def otherBank (b : Nat) : Nat := if b = 0 then flashOtaNewimageAddr else 0

theorem mcuBootAddrGet_eq (mcu : Mcu) (f : Flash) : mcuBootAddrGet mcu f =
    if HasStartUpFlag mcu f 0 then 0
    else if HasStartUpFlag mcu f flashOtaNewimageAddr then flashOtaNewimageAddr
    else 0xFFFFFFFF := by
  have hzero : HasStartUpFlag mcu f 0 ↔ ofLe (bytes f mcu.flashTlnkFlagOffset 4) = tlStartUpFlagWhole := by
    unfold HasStartUpFlag
    rw [Nat.zero_add]
  unfold mcuBootAddrGet
  rw [flashRead_eq, flashRead_eq]
  exact if_congr hzero.symm rfl rfl

theorem Image.flag_fits {mcu : Mcu} {img : List Byte} (h : Image mcu img) :
    mcu.flashTlnkFlagOffset + 4 ≤ img.length := by
  have hlen := congrArg List.length h.flag
  rw [List.length_take, List.length_drop, le32_length] at hlen
  omega

theorem Image.hasStartUpFlag {mcu : Mcu} {img : List Byte} (h : Image mcu img) {f : Flash} {base : Nat}
    (hold : HoldsImage f base img) : HasStartUpFlag mcu f base := by
  unfold HasStartUpFlag
  rw [bytes_sub hold mcu.flashTlnkFlagOffset 4 h.flag_fits, h.flag]
  exact ofLe_le32 (by decide)

/-- Another first byte of the flag word, and the bank does not boot. -/
theorem not_hasStartUpFlag {mcu : Mcu} {f : Flash} {base : Nat}
    (h : f (base + mcu.flashTlnkFlagOffset) ≠ tlImageStartFlag) : ¬ HasStartUpFlag mcu f base := by
  intro hflag
  have hmod := congrArg (· % 256) hflag
  have hlt := (f (base + mcu.flashTlnkFlagOffset)).isLt
  apply h
  apply BitVec.eq_of_toNat_eq
  simp only [bytes, List.range_succ, List.range_zero, List.nil_append, List.map_cons,
    List.map_nil, List.cons_append, ofLe, Nat.add_zero, tlStartUpFlagWhole] at hmod
  change _ = 0x4b
  omega

/-! ### The two programs -/

theorem flashWrite_byte_ops (addr : Nat) (b : Byte) (f : Flash) :
    (flashWrite addr [b]).ops f = [.program addr [b]] := by
  have hpieces : flashOp addr 1 = [(addr, 1)] := by
    unfold flashOp flashPieces
    exact if_pos (by split_ifs <;> omega)
  unfold flashWrite
  rw [List.length_singleton, hpieces]
  rfl

/-- The flash after the new image is enabled, and after the old one is disabled as well. -/
def enabled (mcu : Mcu) (f : Flash) : Flash :=
  f.program (flashOtaNewimageAddr + mcu.keywordAddrOffset) [tlImageStartFlag]

def swapped (mcu : Mcu) (f : Flash) : Flash := (enabled mcu f).program mcu.keywordAddrOffset [0]

theorem otaMcuReboot_ops (mcu : Mcu) (f : Flash) : (otaMcuReboot mcu 0).ops f =
    [.program (flashOtaNewimageAddr + mcu.keywordAddrOffset) [tlImageStartFlag],
      .program mcu.keywordAddrOffset [0]] := by
  have hops : (otaMcuReboot mcu 0).ops f =
      (flashWrite (flashOtaNewimageAddr + mcu.keywordAddrOffset) [tlImageStartFlag]).ops f ++
      (flashWrite (0 + mcu.keywordAddrOffset) [0]).ops
        ((flashWrite (flashOtaNewimageAddr + mcu.keywordAddrOffset) [tlImageStartFlag]).final f) := rfl
  rw [hops, flashWrite_byte_ops, flashWrite_byte_ops, Nat.zero_add]
  rfl

theorem otaMcuReboot_final (mcu : Mcu) (f : Flash) : (otaMcuReboot mcu 0).final f = swapped mcu f := by
  rw [Prog.final, otaMcuReboot_ops]
  rfl

theorem otaMcuReboot_cut {mcu : Mcu} {f t : Flash} :
    (otaMcuReboot mcu 0).Cut f t ↔ t = f ∨ t = enabled mcu f ∨ t = swapped mcu f := by
  unfold Prog.Cut
  rw [otaMcuReboot_ops]
  constructor
  · rintro ⟨ops, hops, rfl⟩
    rcases List.prefix_cons_iff.mp hops with rfl | ⟨ops₁, rfl, hops₁⟩
    · exact .inl rfl
    · rcases List.prefix_cons_iff.mp hops₁ with rfl | ⟨ops₂, rfl, hops₂⟩
      · exact .inr (.inl rfl)
      · obtain rfl := List.prefix_nil.mp hops₂
        exact .inr (.inr rfl)
  · rintro (rfl | rfl | rfl)
    · exact ⟨[], List.nil_prefix, rfl⟩
    · exact ⟨_, List.prefix_append [_] [_], rfl⟩
    · exact ⟨_, List.prefix_rfl, rfl⟩

theorem enabled_of_ne {mcu : Mcu} {f : Flash} {x : Nat}
    (h : x ≠ flashOtaNewimageAddr + mcu.keywordAddrOffset) : enabled mcu f x = f x :=
  program_outside f _ _ (by rw [List.length_singleton]; omega)

theorem swapped_of_ne {mcu : Mcu} {f : Flash} {x : Nat} (h : x ≠ mcu.keywordAddrOffset) :
    swapped mcu f x = enabled mcu f x :=
  program_outside _ _ _ (by rw [List.length_singleton]; omega)

theorem swapped_keyword (mcu : Mcu) (f : Flash) : swapped mcu f mcu.keywordAddrOffset = 0 := by
  have h := program_apply (enabled mcu f) mcu.keywordAddrOffset [0] 0 (by decide)
  rw [Nat.add_zero] at h
  unfold swapped
  rw [h]
  exact BitVec.and_zero

theorem keywordAddrOffset_lt (mcu : Mcu) : mcu.keywordAddrOffset < 64 := by
  cases mcu <;> decide

/-- Programming the keyword completes the image in the upper bank. -/
theorem enabled_holds {mcu : Mcu} {f : Flash} {img : List Byte} (himg : Image mcu img)
    (h : bytes f flashOtaNewimageAddr img.length = img.set mcu.keywordAddrOffset 0xff) :
    HoldsImage (enabled mcu f) flashOtaNewimageAddr img := by
  obtain ⟨hk, hkey⟩ := List.getElem?_eq_some_iff.mp himg.keyword
  have hf (i : Nat) (hi : i < img.length) :
      some (f (flashOtaNewimageAddr + i)) = (img.set mcu.keywordAddrOffset 0xff)[i]? := by
    rw [← h, bytes_getElem?, if_pos hi]
  apply bytes_eq_iff.mpr
  intro i hi
  by_cases hik : i = mcu.keywordAddrOffset
  · subst hik
    have hff := hf _ hi
    rw [List.getElem?_set_self hi] at hff
    have happly := program_apply f (flashOtaNewimageAddr + mcu.keywordAddrOffset) [tlImageStartFlag] 0 (by decide)
    rw [Nat.add_zero, Option.some.inj hff] at happly
    unfold enabled
    rw [happly, hkey]
    exact BitVec.allOnes_and
  · have hsame := hf i hi
    rw [List.getElem?_set_ne (Ne.symm hik), List.getElem?_eq_getElem hi] at hsame
    rw [enabled_of_ne (by omega)]
    exact Option.some.inj hsame

/-! ### Crash safety -/

/-- The boot rule selects a bank that holds its complete image. -/
def BootsComplete (mcu : Mcu) (b : Nat) (old new : List Byte) (t : Flash) : Prop :=
  mcuBootAddrGet mcu t = b ∧ HoldsImage t b old ∨
    mcuBootAddrGet mcu t = otherBank b ∧ HoldsImage t (otherBank b) new

/-- The swap is crash safe and ends with the other bank. -/
def SwapSafe (mcu : Mcu) (mcuBootAddr b : Nat) (old new : List Byte) (f : Flash) : Prop :=
  (∀ t, (otaMcuReboot mcu mcuBootAddr).Cut f t → BootsComplete mcu b old new t) ∧
    mcuBootAddrGet mcu ((otaMcuReboot mcu mcuBootAddr).final f) = otherBank b

section Swap
variable {mcu : Mcu} {f : Flash} {old new : List Byte} (hold : Image mcu old) (hnew : Image mcu new)

theorem offsets_eq {mcu : Mcu} (h : mcu ≠ .b92) : mcu.keywordAddrOffset = mcu.flashTlnkFlagOffset := by
  cases mcu with
  | b92 => exact absurd rfl h
  | _ => rfl

theorem swapped_not_flag (hmcu : mcu ≠ .b92) : ¬ HasStartUpFlag mcu (swapped mcu f) 0 := by
  apply not_hasStartUpFlag
  rw [Nat.zero_add, ← offsets_eq hmcu, swapped_keyword]
  decide

include hold hnew

/-- From the lower bank the new image is enabled before the old one is disabled. -/
theorem swapSafe_lower (hrun : HoldsImage f 0 old)
    (hother : bytes f flashOtaNewimageAddr new.length = new.set mcu.keywordAddrOffset 0xff)
    (hmcu : mcu ≠ .b92) : SwapSafe mcu 0 0 old new f := by
  have hkey := keywordAddrOffset_lt mcu
  have hfits := hold.fits
  have hrun₁ : HoldsImage (enabled mcu f) 0 old := by
    have hsame : bytes (enabled mcu f) 0 old.length = bytes f 0 old.length :=
      bytes_congr fun x _ hx => enabled_of_ne (by omega)
    exact hsame.trans hrun
  have hnew₁ : HoldsImage (enabled mcu f) flashOtaNewimageAddr new := enabled_holds hnew hother
  have hnew₂ : HoldsImage (swapped mcu f) flashOtaNewimageAddr new := by
    have hsame : bytes (swapped mcu f) flashOtaNewimageAddr new.length =
        bytes (enabled mcu f) flashOtaNewimageAddr new.length :=
      bytes_congr fun x hx _ => swapped_of_ne (by unfold flashOtaNewimageAddr at hx; omega)
    exact hsame.trans hnew₁
  have hboot {t : Flash} (h : HoldsImage t 0 old) : BootsComplete mcu 0 old new t := by
    left
    rw [mcuBootAddrGet_eq, if_pos (hold.hasStartUpFlag h)]
    exact ⟨rfl, h⟩
  have hget : mcuBootAddrGet mcu (swapped mcu f) = flashOtaNewimageAddr := by
    rw [mcuBootAddrGet_eq, if_neg (swapped_not_flag hmcu), if_pos (hnew.hasStartUpFlag hnew₂)]
  constructor
  · intro t ht
    rcases otaMcuReboot_cut.mp ht with rfl | rfl | rfl
    · exact hboot hrun
    · exact hboot hrun₁
    · exact .inr ⟨hget, hnew₂⟩
  · rw [otaMcuReboot_final, hget]
    rfl

/-- Where flag and keyword differ, clearing the keyword does not disable the lower bank. -/
theorem not_swapSafe_b92_lower (hrun : HoldsImage f 0 old) (hmcu : mcu = .b92) :
    ¬ SwapSafe mcu 0 0 old new f := by
  rintro ⟨-, hget⟩
  subst hmcu
  have hflag : HasStartUpFlag .b92 (swapped .b92 f) 0 := by
    have hsame : bytes (swapped .b92 f) (0 + Mcu.b92.flashTlnkFlagOffset) 4 =
        bytes f (0 + Mcu.b92.flashTlnkFlagOffset) 4 := by
      refine bytes_congr fun x _ hx => ?_
      change x < 12 at hx
      rw [swapped_of_ne (by change x ≠ 32; omega),
        enabled_of_ne (by unfold flashOtaNewimageAddr; omega)]
    unfold HasStartUpFlag
    rw [hsame]
    exact hold.hasStartUpFlag hrun
  rw [otaMcuReboot_final, mcuBootAddrGet_eq, if_pos hflag] at hget
  exact absurd hget (by decide)

/-- From the upper bank `mcuBootAddr` is truncated to 0, and the new image is disabled. -/
theorem not_swapSafe_upper
    (hother : bytes f 0 new.length = new.set mcu.keywordAddrOffset 0xff) :
    ¬ SwapSafe mcu 0 flashOtaNewimageAddr old new f := by
  rintro ⟨hcut, hget⟩
  by_cases hmcu : mcu = .b92
  · subst hmcu
    have hfits := hnew.flag_fits
    change 8 + 4 ≤ new.length at hfits
    have hflag : HasStartUpFlag .b92 f 0 := by
      have hsub : bytes f (0 + 8) 4 = (new.drop 8).take 4 := by
        rw [bytes_sub hother 8 4 hfits, List.drop_set, if_neg (by decide), List.take_set_of_le (by decide)]
      change ofLe (bytes f (0 + 8) 4) = _
      rw [hsub]
      change ofLe ((new.drop Mcu.b92.flashTlnkFlagOffset).take 4) = _
      rw [hnew.flag]
      exact ofLe_le32 (by decide)
    have hboot : mcuBootAddrGet .b92 f = 0 := by
      rw [mcuBootAddrGet_eq, if_pos hflag]
    rcases hcut f (otaMcuReboot_cut.mpr (.inl rfl)) with ⟨hb, -⟩ | ⟨-, hb⟩
    · rw [hboot] at hb
      exact absurd hb (by decide)
    · have hset := hother.symm.trans hb
      have hkey := congrArg (fun l => l[Mcu.b92.keywordAddrOffset]?) hset
      obtain ⟨hk, -⟩ := List.getElem?_eq_some_iff.mp hnew.keyword
      rw [hnew.keyword, List.getElem?_set_self hk] at hkey
      exact absurd hkey (by decide)
  · rw [otaMcuReboot_final, mcuBootAddrGet_eq, if_neg (swapped_not_flag hmcu)] at hget
    split_ifs at hget
    · exact absurd hget (by decide)
    · exact absurd hget (by decide)

end Swap

/-- The swap of boot banks is crash safe exactly from the lower bank, on the devices whose
start-up flag begins with the keyword byte. -/
theorem otaMcuReboot_crash_safe_iff {mcu : Mcu} {f₀ f : Flash} {b : Nat} {old new : List Byte}
    (hb : b = 0 ∨ b = flashOtaNewimageAddr)
    (hinit : HasStartUpFlag mcu f₀ b ∧ ¬ HasStartUpFlag mcu f₀ (otherBank b))
    (hold : Image mcu old) (hnew : Image mcu new) (hrun : HoldsImage f b old)
    (hother : bytes f (otherBank b) new.length = new.set mcu.keywordAddrOffset 0xff) :
    SwapSafe mcu (mcuBootAddrByte mcu f₀) b old new f ↔ b = 0 ∧ mcu ≠ .b92 := by
  obtain ⟨hflag, hno⟩ := hinit
  rcases hb with rfl | rfl
  · have hbyte : mcuBootAddrByte mcu f₀ = 0 := by
      rw [mcuBootAddrByte, mcuBootAddrGet_eq, if_pos hflag]
    rw [hbyte]
    constructor
    · intro h
      exact ⟨rfl, fun hmcu => not_swapSafe_b92_lower hold hnew hrun hmcu h⟩
    · rintro ⟨-, hmcu⟩
      exact swapSafe_lower hold hnew hrun hother hmcu
  · have hbyte : mcuBootAddrByte mcu f₀ = 0 := by
      have hno' : ¬ HasStartUpFlag mcu f₀ 0 := hno
      rw [mcuBootAddrByte, mcuBootAddrGet_eq, if_neg hno', if_pos hflag]
      rfl
    rw [hbyte]
    constructor
    · intro h
      exact absurd h (not_swapSafe_upper hold hnew hother)
    · rintro ⟨h, -⟩
      exact absurd h (by decide)

/-- The shortest complete image of a device with the flag at offset 8. -/
def shortImage : List Byte := List.replicate 8 0 ++ le32 tlStartUpFlagWhole

/-- A flash with `lower` at 0 and `upper` in the other bank. -/
def twoBanks (lower upper : List Byte) : Flash := fun x =>
  if x < flashOtaNewimageAddr then lower.getD x 0xff else upper.getD (x - flashOtaNewimageAddr) 0xff

theorem shortImage_ok : Image .mcu8258 shortImage := ⟨by decide, by decide, by decide⟩

theorem otaMcuReboot_crash_safe_iff_lower :
    SwapSafe .mcu8258 (mcuBootAddrByte .mcu8258 (twoBanks shortImage [])) 0 shortImage shortImage
      (twoBanks shortImage (shortImage.set 8 0xff)) ↔ 0 = 0 ∧ Mcu.mcu8258 ≠ .b92 :=
  otaMcuReboot_crash_safe_iff (.inl rfl) (by decide +kernel) shortImage_ok shortImage_ok
    (by unfold HoldsImage; decide +kernel) (by decide +kernel)

/-- Running from 0x40000: after the reboot call the boot rule selects the old image again. -/
theorem otaMcuReboot_upper :
    let f₀ := twoBanks [] shortImage
    let f := twoBanks (shortImage.set 8 0xff) shortImage
    (HasStartUpFlag .mcu8258 f₀ flashOtaNewimageAddr ∧ ¬ HasStartUpFlag .mcu8258 f₀ 0) ∧
      mcuBootAddrGet .mcu8258 ((otaMcuReboot .mcu8258 (mcuBootAddrByte .mcu8258 f₀)).final f) =
        flashOtaNewimageAddr := by
  decide +kernel

end Rf4ce.Ota

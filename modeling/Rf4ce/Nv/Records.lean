import Rf4ce.Nv.Store

/-! Facts about the layout and the record formats that the later modules build on. -/
namespace Rf4ce.Nv
open Crash Drv Common

section Layout
variable (c : NvCfg) (id : Nat)

theorem sizeofNvInfoIdx_cases : sizeofNvInfoIdx c = 8 ∨ sizeofNvInfoIdx c = 16 := by
  unfold sizeofNvInfoIdx
  split_ifs <;> simp

theorem moduleInfoSize_cases :
    (moduleInfoSize id = 256 ∧ nvSectorSize id = 4096) ∨
      (moduleInfoSize id = 512 ∧ nvSectorSize id = 16384) := by
  unfold moduleInfoSize nvSectorSize flashPageSize flashSectorSize
  split_ifs <;> simp

theorem modulesStartAddr_mod : modulesStartAddr c id % 4096 = 0 := by
  unfold modulesStartAddr flashSectorSize
  split_ifs <;> omega

theorem moduleSectStart_mod (s : Nat) : moduleSectStart c id s % 4096 = 0 := by
  have h := modulesStartAddr_mod c id
  unfold moduleSectStart
  rcases moduleInfoSize_cases id with ⟨-, h'⟩ | ⟨-, h'⟩ <;> rw [h'] <;> omega

theorem moduleSectEnd_eq (s : Nat) :
    moduleSectEnd c id s = moduleSectStart c id s + nvSectorSize id := by
  unfold moduleSectEnd moduleSectStart
  rw [Nat.add_mul, Nat.one_mul, Nat.add_assoc]

theorem moduleContextStart_eq (s : Nat) :
    moduleContextStart c id s = moduleSectStart c id s + moduleInfoSize id := rfl

variable {id} in
/-- All modules lie in the first megabyte. -/
theorem moduleSectEnd_le (hid : id < dsMaxModuls) {s : Nat} (hs : s < 2) :
    moduleSectEnd c id s ≤ 0x100000 := by
  unfold dsMaxModuls at hid
  unfold moduleSectEnd modulesStartAddr nvSectorSize flashSectorSize dsIrLearnModule
  obtain rfl | rfl : s = 0 ∨ s = 1 := by omega
  all_goals split_ifs <;> omega

/-- The two sectors of a module are disjoint. -/
theorem moduleSect_disjoint {s t : Nat} (h : s < t) : moduleSectEnd c id s ≤ moduleSectStart c id t := by
  unfold moduleSectEnd moduleSectStart
  exact Nat.add_le_add_left (Nat.mul_le_mul_right _ h) _

theorem idxTable_fits : 4 + moduleIdxNum c id * sizeofNvInfoIdx c ≤ moduleInfoSize id := by
  have h := Nat.div_mul_le_self (moduleInfoSize id - sizeofNvSectInfo) (sizeofNvInfoIdx c)
  unfold moduleIdxNum
  unfold sizeofNvSectInfo at h ⊢
  rcases moduleInfoSize_cases id with ⟨h', -⟩ | ⟨h', -⟩ <;> rw [h'] at h ⊢ <;> omega

theorem moduleIdxNum_pos : 0 < moduleIdxNum c id := by
  unfold moduleIdxNum sizeofNvSectInfo
  rcases moduleInfoSize_cases id with ⟨h', -⟩ | ⟨h', -⟩ <;>
    rcases sizeofNvInfoIdx_cases c with h | h <;> rw [h', h] <;> decide

theorem idxAddr_lower (s i : Nat) : moduleSectStart c id s + 4 ≤ idxAddr c id s i := by
  unfold idxAddr moduleIdxStart sizeofNvSectInfo
  omega

variable {c id} in
theorem idxAddr_upper {s i : Nat} (h : i < moduleIdxNum c id) :
    idxAddr c id s i + sizeofNvInfoIdx c ≤ moduleContextStart c id s := by
  have h₁ := idxTable_fits c id
  have h₂ : i * sizeofNvInfoIdx c + sizeofNvInfoIdx c ≤ moduleIdxNum c id * sizeofNvInfoIdx c := by
    rw [← Nat.succ_mul]
    exact Nat.mul_le_mul_right _ h
  unfold idxAddr moduleIdxStart moduleContextStart sizeofNvSectInfo
  omega

theorem idxAddr_lt (s : Nat) {i j : Nat} (h : i < j) :
    idxAddr c id s i + sizeofNvInfoIdx c ≤ idxAddr c id s j := by
  have h' : i * sizeofNvInfoIdx c + sizeofNvInfoIdx c ≤ j * sizeofNvInfoIdx c := by
    rw [← Nat.succ_mul]
    exact Nat.mul_le_mul_right _ h
  unfold idxAddr
  omega

end Layout

/-- Rounding up to a word when nothing wraps. -/
def roundUp4 (n : Nat) : Nat := (n + 3) / 4 * 4

theorem alignUp4_eq {n : Nat} (h : n + 3 < 4294967296) : alignUp4 n = roundUp4 n := by
  unfold alignUp4 roundUp4 u32
  rw [Nat.mod_eq_of_lt h]

/-! ### Record formats -/

@[simp] theorem NvSectInfo.encode_length (s : NvSectInfo) : s.encode.length = 4 := rfl

@[simp] theorem ItemHdr.encode_length (h : ItemHdr) : h.encode.length = 8 := rfl

@[simp] theorem NvInfoIdx.encode_length (i : NvInfoIdx) : i.encode.length = 8 + i.resv.length := by
  simp [NvInfoIdx.encode]
  omega

theorem NvSectInfo.decode_encode {s : NvSectInfo} (h : s.usedFlag < 65536) :
    NvSectInfo.decode s.encode = s := by
  have hu : ofLe (s.encode.take 2) = s.usedFlag := ofLe_le16 h
  simp [NvSectInfo.decode, hu]
  simp [NvSectInfo.encode, le16]

theorem NvInfoIdx.decode_encode {i : NvInfoIdx} (ho : i.offset < 4294967296) (hs : i.size < 65536) :
    NvInfoIdx.decode i.encode = i := by
  have h₁ : ofLe (i.encode.take 4) = i.offset := ofLe_le32 ho
  have h₂ : ofLe ((i.encode.drop 4).take 2) = i.size := ofLe_le16 hs
  simp only [NvInfoIdx.decode, h₁, h₂]
  rfl

theorem ItemHdr.decode_encode {h : ItemHdr} (hs : h.size < 65536) :
    ItemHdr.decode h.encode = h := by
  have h₁ : ofLe (h.encode.take 4) = h.checkSum.toNat := ofLe_le32 h.checkSum.isLt
  have h₂ : ofLe ((h.encode.drop 4).take 2) = h.size := ofLe_le16 hs
  simp only [ItemHdr.decode, h₁, h₂]
  simp [ItemHdr.encode, le32, le16]

private theorem low16_getLsbD (a : BitVec 32) (i : Nat) :
    (a &&& 0xffff#32).getLsbD i = (a.getLsbD i && decide (i < 16)) := by
  have h : (0xffff#32 : BitVec 32).getLsbD i = Nat.testBit (2 ^ 16 - 1) i := by simp [BitVec.getLsbD]
  rw [BitVec.getLsbD_and, h, Nat.testBit_two_pow_sub_one]

/-- The upper half of a stored checksum. -/
theorem checkSum_high (a b : BitVec 32) :
    (((a &&& 0xffff#32) <<< 16 ||| (b &&& 0xffff#32)) >>> 16) &&& 0xffff#32 = a &&& 0xffff#32 := by
  refine BitVec.eq_of_getLsbD_eq fun i _ => ?_
  simp only [low16_getLsbD, BitVec.getLsbD_ushiftRight, BitVec.getLsbD_or, BitVec.getLsbD_shiftLeft]
  by_cases h : i < 16
  · simp [h, show 16 + i < 32 by omega, show ¬ 16 + i < 16 by omega]
  · simp [h]

/-- The lower half of a stored checksum. -/
theorem checkSum_low (a b : BitVec 32) :
    ((a &&& 0xffff#32) <<< 16 ||| (b &&& 0xffff#32)) &&& 0xffff#32 = b &&& 0xffff#32 := by
  refine BitVec.eq_of_getLsbD_eq fun i _ => ?_
  simp only [low16_getLsbD, BitVec.getLsbD_or, BitVec.getLsbD_shiftLeft]
  by_cases h : i < 16 <;> simp [h]

theorem readSectInfo_of_bytes {f : Flash} {a : Nat} {s : NvSectInfo} (h : bytes f a 4 = s.encode)
    (hs : s.usedFlag < 65536) : readSectInfo f a = s := by
  unfold readSectInfo sizeofNvSectInfo
  rw [flashRead_eq, h, NvSectInfo.decode_encode hs]

theorem readInfoIdx_of_bytes {c : NvCfg} {f : Flash} {a : Nat} {i : NvInfoIdx}
    (h : bytes f a (sizeofNvInfoIdx c) = i.encode) (ho : i.offset < 4294967296)
    (hs : i.size < 65536) : readInfoIdx c f a = i := by
  unfold readInfoIdx
  rw [flashRead_eq, h, NvInfoIdx.decode_encode ho hs]

theorem readItemHdr_of_bytes {f : Flash} {a : Nat} {h : ItemHdr} (hb : bytes f a 8 = h.encode)
    (hs : h.size < 65536) : readItemHdr f a = h := by
  unfold readItemHdr sizeofItemHdr
  rw [flashRead_eq, hb, ItemHdr.decode_encode hs]

theorem readItemHdr_used (f : Flash) (a : Nat) : (readItemHdr f a).used = f (a + 7) := by
  simp [readItemHdr, ItemHdr.decode, sizeofItemHdr, List.getD_eq_getElem?_getD, bytes_getElem]

/-- Without `resv` the state byte is the last one, which the index CRC leaves out. -/
theorem crcIdx_state {c : NvCfg} (hc : c.idxResv = false) (i : NvInfoIdx) (st : Byte) :
    crcIdx c { i with usedState := st } = crcIdx c i := by
  simp [crcIdx, sizeofNvInfoIdx, hc, NvInfoIdx.encode, le32, le16]

end Rf4ce.Nv

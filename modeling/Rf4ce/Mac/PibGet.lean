import Rf4ce.Mac.Pib
import Mathlib.Data.List.GetD

/-! The two read paths of the information base: into a buffer of the caller, and as a confirm that is
built in the memory of its request. -/
namespace Rf4ce.Mac
open Crash

/-! ### Little-endian words -/

/-- The `k` low bytes of a number. -/
def leBytes : Nat → Nat → List Byte
  | 0, _ => []
  | k + 1, n => BitVec.ofNat 8 n :: leBytes k (n / 256)

@[simp] theorem leBytes_length (k n : Nat) : (leBytes k n).length = k := by
  induction k generalizing n with
  | zero => rfl
  | succ k ih => rw [leBytes, List.length_cons, ih]

/-- The low bytes of a number are the first ones of its bytes. -/
theorem leBytes_ofLe (xs ys : List Byte) : leBytes xs.length (ofLe (xs ++ ys)) = xs := by
  induction xs with
  | nil => rfl
  | cons b bs ih =>
    have hb := b.isLt
    rw [List.length_cons, List.cons_append, leBytes, ofLe]
    congr 1
    · apply BitVec.eq_of_toNat_eq
      rw [BitVec.toNat_ofNat]
      omega
    · have hhigh : (b.toNat + 256 * ofLe (bs ++ ys)) / 256 = ofLe (bs ++ ys) := by omega
      rw [hhigh, ih]

/-- A shift by one byte. -/
theorem leBytes_shift (k n : Nat) : leBytes (k + 1) (n <<< 8) = 0 :: leBytes k n := by
  rw [leBytes, Nat.shiftLeft_eq]
  congr 1
  · apply BitVec.eq_of_toNat_eq
    rw [BitVec.toNat_ofNat, Nat.mul_mod_left]
    rfl
  · rw [Nat.mul_div_cancel n (by decide)]

/-- A byte goes into the free low byte of a number. -/
theorem ofLe_or (l : List Byte) (b : Byte) : ofLe (0 :: l) ||| b.toNat = ofLe (b :: l) := by
  have hor := Nat.two_pow_add_eq_or_of_lt b.isLt (ofLe l)
  have hzero : ofLe (0 :: l) = 2 ^ 8 * ofLe l := Nat.zero_add _
  rw [hzero, ← hor, ofLe]
  omega

/-! ### The two paths -/

def macMlmeGetCnf : Byte := 0x4e
def macSuccess : Byte := 0

/-- The beacon payload, which lies in the memory `mem`. -/
def beaconPayload (pib : MacPib) (mem : Nat → Byte) : List Byte :=
  bytes mem (ofLe (bytes pib (offsetOf .pBeaconPayload) 4)) (pib (offsetOf .beaconPayloadLength)).toNat

/-- The bytes copied to `pValue` come with the status. -/
def macMlmeGetReq (pib : MacPib) (mem : Nat → Byte) (pibAttribute : Byte) : MacSts × List Byte :=
  if pibAttribute = macBeaconPayload then (.success, beaconPayload pib mem)
  else
    match macPibTbl[macPibIndex pibAttribute]? with
    | none => (.unsupportedAttribute, [])
    | some e => (.success, e.value pib)

/-- The address of `pibAttributeValue` in a confirm, behind three bytes and the padding; there is none
where structures are packed. -/
def cnfValue (pad : Nat) : Nat := 3 + pad

/-- One pass of the loop. The byte at `pValue + i` is read when the value has been shifted, and may
be a byte of the value. -/
def cnfShift (pad : Nat) (m : Nat → Byte) (i : Nat) : Nat → Byte :=
  let m := storeBytes m (cnfValue pad) (leBytes 8 (ofLe (bytes m (cnfValue pad) 8) <<< 8))
  storeBytes m (cnfValue pad) (leBytes 8 (ofLe (bytes m (cnfValue pad) 8) ||| (m (3 + i)).toNat))

/-- The bytes `value` copied to `pValue` and shifted into the value of the confirm. -/
def cnfBuild (pad : Nat) (value : List Byte) (m : Nat → Byte) : Nat → Byte :=
  (List.range 8).foldl (cnfShift pad) (storeBytes (storeBytes m 3 value) 1 [macSuccess])

/-- `pGetReq` is the memory from the request on; the confirm sent comes with the status. -/
def macMlmeGetReqWithCnf (pad : Nat) (pib : MacPib) (mem pGetReq : Nat → Byte) : MacSts × Option (Nat → Byte) :=
  let pibAttribute := pGetReq 1
  let m := storeBytes pGetReq 2 [pibAttribute]
  let m := storeBytes m 0 [macMlmeGetCnf]
  if pibAttribute = macBeaconPayload then (.success, some (cnfBuild pad (beaconPayload pib mem) m))
  else
    match macPibTbl[macPibIndex pibAttribute]? with
    | none => (.unsupportedAttribute, none)
    | some e => (.success, some (cnfBuild pad (e.value pib) m))

/-! ### The loop -/

section Loop
variable (pad : Nat) (m : Nat → Byte)

/-- The byte that pass `i` brings in. The passes from `pad` on read the bytes shifted in before,
the first of which is the cleared one. -/
def cnfByte (i : Nat) : Byte := if i < pad then m (3 + i) else 0

theorem cnfShift_bytes (i : Nat) : bytes (cnfShift pad m i) (cnfValue pad) 8 =
    storeBytes m (cnfValue pad) (0 :: bytes m (cnfValue pad) 7) (3 + i) :: bytes m (cnfValue pad) 7 := by
  have hsplit : bytes m (cnfValue pad) 8 = bytes m (cnfValue pad) 7 ++ bytes m (cnfValue pad + 7) 1 :=
    bytes_append m _ 7 1
  have hseven := leBytes_ofLe (bytes m (cnfValue pad) 7) (bytes m (cnfValue pad + 7) 1)
  rw [bytes_length] at hseven
  have hshift : leBytes 8 (ofLe (bytes m (cnfValue pad) 8) <<< 8) = 0 :: bytes m (cnfValue pad) 7 := by
    rw [leBytes_shift, hsplit, hseven]
  have hback := bytes_storeBytes m (cnfValue pad) (0 :: bytes m (cnfValue pad) 7)
  rw [List.length_cons, bytes_length] at hback
  unfold cnfShift
  dsimp only
  rw [hshift, hback, ofLe_or]
  generalize storeBytes m (cnfValue pad) (0 :: bytes m (cnfValue pad) 7) = m'
  have hword := leBytes_ofLe (m' (3 + i) :: bytes m (cnfValue pad) 7) []
  rw [List.append_nil, List.length_cons, bytes_length] at hword
  have hstored := bytes_storeBytes m' (cnfValue pad) (m' (3 + i) :: bytes m (cnfValue pad) 7)
  rw [List.length_cons, bytes_length] at hstored
  rw [hword, hstored]

theorem cnfShift_outside {i x : Nat} (hx : x < cnfValue pad) : cnfShift pad m i x = m x := by
  unfold cnfShift
  rw [storeBytes_outside (.inl hx), storeBytes_outside (.inl hx)]

/-- After `n` passes the bytes brought in so far stand before the old ones, in reverse order. -/
theorem cnfLoop {n : Nat} (hn : n ≤ 8) :
    (∀ x < cnfValue pad, (List.range n).foldl (cnfShift pad) m x = m x) ∧
      bytes ((List.range n).foldl (cnfShift pad) m) (cnfValue pad) 8 =
        ((List.range n).map (cnfByte pad m)).reverse ++ bytes m (cnfValue pad) (8 - n) := by
  induction n with
  | zero => exact ⟨fun _ _ => rfl, rfl⟩
  | succ n ih =>
    obtain ⟨hout, hbytes⟩ := ih (by omega)
    rw [List.range_succ, List.foldl_append, List.foldl_cons, List.foldl_nil, List.map_append,
      List.reverse_append]
    generalize (List.range n).foldl (cnfShift pad) m = m' at hout hbytes
    have hseven : bytes m' (cnfValue pad) 7 =
        ((List.range n).map (cnfByte pad m)).reverse ++ bytes m (cnfValue pad) (8 - (n + 1)) := by
      have hsub := bytes_sub hbytes 0 7 (by decide)
      have hlen : ((List.range n).map (cnfByte pad m)).reverse.length = n := by simp
      rw [Nat.add_zero, List.drop_zero, List.take_append, hlen, List.take_of_length_le (by omega)] at hsub
      have hrest := bytes_sub (rfl : bytes m (cnfValue pad) (8 - n) = _) 0 (7 - n) (by omega)
      rw [Nat.add_zero, List.drop_zero] at hrest
      rw [hsub, ← hrest]
      congr 2
      omega
    have hread : storeBytes m' (cnfValue pad) (0 :: bytes m' (cnfValue pad) 7) (3 + n) = cnfByte pad m n := by
      unfold cnfByte
      by_cases hpad : n < pad
      · have hbelow : 3 + n < cnfValue pad := Nat.add_lt_add_left hpad 3
        rw [if_pos hpad, storeBytes_outside (.inl hbelow), hout _ hbelow]
      · -- a byte of the value: the cleared one, or one of a pass from `pad` on
        have haddr : 3 + n = cnfValue pad + (n - pad) := by
          unfold cnfValue
          omega
        rw [if_neg hpad, haddr, storeBytes_apply]
        cases hk : n - pad with
        | zero => rfl
        | succ k =>
          have hkn : k < ((List.range n).map (cnfByte pad m)).reverse.length := by
            simp only [List.length_reverse, List.length_map, List.length_range]
            omega
          have hlate : ¬ n - 1 - k < pad := by omega
          rw [List.getElem?_cons_succ, hseven, List.getElem?_append_left hkn, List.getElem?_eq_getElem hkn,
            Option.getD_some, List.getElem_reverse, List.getElem_map, List.getElem_range, List.length_map,
            List.length_range]
          exact if_neg hlate
    constructor
    · intro x hx
      rw [cnfShift_outside pad m' hx, hout x hx]
    · rw [cnfShift_bytes, hread, hseven]
      rfl

/-- The value of a confirm, most significant byte first. -/
def confirmed (cnf : Nat → Byte) : List Byte := (bytes cnf (cnfValue pad) 8).reverse

theorem cnfBuild_confirmed (value : List Byte) : confirmed pad (cnfBuild pad value m) =
    (List.range 8).map fun i => if i < pad then value[i]?.getD (m (3 + i)) else 0 := by
  have hloop := (cnfLoop pad (storeBytes (storeBytes m 3 value) 1 [macSuccess]) (Nat.le_refl 8)).2
  rw [Nat.sub_self, bytes_zero, List.append_nil] at hloop
  rw [confirmed, cnfBuild, hloop, List.reverse_reverse]
  apply List.map_congr_left
  intro i _
  unfold cnfByte
  rw [storeBytes_outside (.inr (by rw [List.length_singleton]; omega)), storeBytes_apply]

end Loop

/-! ### Agreement -/

/-- A confirm carries, from the most significant byte on, what the other path copies, whatever the
memory of the request held. -/
def ReadsAgree (pad : Nat) (pib : MacPib) (mem : Nat → Byte) (pibAttribute : Byte) : Prop :=
  match macMlmeGetReq pib mem pibAttribute with
  | (.success, l) => ∃ value : List Byte, value.take l.length = l ∧ ∀ m, m 1 = pibAttribute →
      ∃ cnf, macMlmeGetReqWithCnf pad pib mem m = (.success, some cnf) ∧ confirmed pad cnf = value
  | (status, _) => ∀ m, m 1 = pibAttribute → macMlmeGetReqWithCnf pad pib mem m = (status, none)

/-- The bytes that hold a supported attribute. -/
def attributeBytes (pib : MacPib) (mem : Nat → Byte) (a : Byte) : Option (List Byte) :=
  if a = macBeaconPayload then some (beaconPayload pib mem) else (pibEntry a).map fun e => e.value pib

/-- What the loop leaves intact: a value that fills the padding, with zeros behind it. -/
def SurvivesShift (pad : Nat) (l : List Byte) : Prop :=
  min pad 8 ≤ l.length ∧ l.length ≤ 8 ∧ ∀ i (h : i < l.length), pad ≤ i → l[i] = 0

section Agree
variable {pad : Nat} {pib : MacPib} {mem : Nat → Byte} {a : Byte}

theorem macMlmeGetReq_success {l : List Byte} :
    macMlmeGetReq pib mem a = (.success, l) ↔ attributeBytes pib mem a = some l := by
  unfold macMlmeGetReq attributeBytes pibEntry
  by_cases hp : a = macBeaconPayload
  · rw [if_pos hp, if_pos hp]
    simp
  · rw [if_neg hp, if_neg hp]
    cases macPibTbl[macPibIndex a]? with
    | none => simp
    | some e => simp

/-- Both paths take the same bytes, or none. -/
theorem macMlmeGetReqWithCnf_eq {m : Nat → Byte} (hm : m 1 = a) : macMlmeGetReqWithCnf pad pib mem m =
    match macMlmeGetReq pib mem a with
    | (.success, l) => (.success, some (cnfBuild pad l (storeBytes (storeBytes m 2 [a]) 0 [macMlmeGetCnf])))
    | (status, _) => (status, none) := by
  unfold macMlmeGetReqWithCnf macMlmeGetReq
  dsimp only
  rw [hm]
  by_cases hp : a = macBeaconPayload
  · rw [if_pos hp, if_pos hp]
  · rw [if_neg hp, if_neg hp]
    cases macPibTbl[macPibIndex a]? with
    | none => rfl
    | some e => rfl

theorem confirmed_eq {l : List Byte} (m : Nat → Byte) :
    confirmed pad (cnfBuild pad l (storeBytes (storeBytes m 2 [a]) 0 [macMlmeGetCnf])) =
      (List.range 8).map fun i => if i < pad then l[i]?.getD (m (3 + i)) else 0 := by
  rw [cnfBuild_confirmed]
  apply List.map_congr_left
  intro i _
  rw [storeBytes_outside (.inr (by rw [List.length_singleton]; omega)),
    storeBytes_outside (.inr (by rw [List.length_singleton]; omega))]

theorem survivesShift_iff (l : List Byte) :
    (∃ value : List Byte, value.take l.length = l ∧ ∀ m : Nat → Byte, m 1 = a →
      ((List.range 8).map fun i => if i < pad then l[i]?.getD (m (3 + i)) else 0) = value) ↔
      SurvivesShift pad l := by
  constructor
  · intro h
    obtain ⟨value, hvalue, hall⟩ := h
    have hlen : l.length ≤ 8 := by
      have hfix := hall (fun _ => a) rfl
      rw [← hvalue, ← hfix]
      exact Nat.le_trans (List.length_take_le' _ _) (by simp)
    refine ⟨?_, hlen, ?_⟩
    · -- a byte of the padding that is not written shows through
      by_contra hshort
      have hlt : l.length < pad ∧ l.length < 8 := by omega
      have hbyte (b : Byte) : value[l.length]? = some b := by
        have hb := hall (fun x => if x = 1 then a else b) rfl
        rw [← hb, List.getElem?_map, List.getElem?_range hlt.2, Option.map_some, if_pos hlt.1,
          List.getElem?_eq_none (Nat.le_refl _), Option.getD_none, if_neg (by omega)]
      have hcontra := Option.some.inj ((hbyte 0).symm.trans (hbyte 1))
      exact absurd hcontra (by decide)
    · intro i hi hpad
      have hfix := hall (fun _ => a) rfl
      have hget : l[i]? = some 0 := by
        rw [← hvalue, List.getElem?_take_of_lt hi, ← hfix, List.getElem?_map, List.getElem?_range (by omega),
          Option.map_some, if_neg (Nat.not_lt.mpr hpad)]
      rw [List.getElem?_eq_getElem hi] at hget
      exact Option.some.inj hget
  · intro h
    obtain ⟨hfill, hlen, hzero⟩ := h
    refine ⟨(List.range 8).map fun i => if i < pad then l.getD i 0 else 0, ?_, ?_⟩
    · apply List.ext_getElem
      · simp only [List.length_take, List.length_map, List.length_range]
        omega
      · intro i _ hi
        rw [List.getElem_take, List.getElem_map, List.getElem_range, List.getD_eq_getElem _ _ hi]
        split_ifs with hpad
        · rfl
        · exact (hzero i hi (Nat.not_lt.mp hpad)).symm
    · intro m _
      apply List.map_congr_left
      intro i hi
      rw [List.mem_range] at hi
      split_ifs with hpad
      · have hin : i < l.length := by omega
        rw [List.getElem?_eq_getElem hin, Option.getD_some, List.getD_eq_getElem _ _ hin]
      · rfl

/-- The two read paths agree on exactly the values that survive the shifting in place. -/
theorem readsAgree_iff (pad : Nat) (pib : MacPib) (mem : Nat → Byte) (a : Byte) :
    ReadsAgree pad pib mem a ↔ ∀ l, attributeBytes pib mem a = some l → SurvivesShift pad l := by
  simp only [← macMlmeGetReq_success]
  unfold ReadsAgree
  rcases hget : macMlmeGetReq pib mem a with ⟨status, l⟩
  cases status with
  | success =>
    have hcnf (m : Nat → Byte) (hm : m 1 = a) (value : List Byte) :
        (∃ cnf, macMlmeGetReqWithCnf pad pib mem m = (.success, some cnf) ∧ confirmed pad cnf = value) ↔
          ((List.range 8).map fun i => if i < pad then l[i]?.getD (m (3 + i)) else 0) = value := by
      rw [macMlmeGetReqWithCnf_eq hm, hget, ← confirmed_eq m]
      constructor
      · intro h
        obtain ⟨cnf, heq, hvalue⟩ := h
        rw [← hvalue, ← Option.some.inj (Prod.mk.inj heq).2]
      · intro h
        exact ⟨_, rfl, h⟩
    have hsurvives := @survivesShift_iff pad a l
    constructor
    · intro h l' hl'
      obtain ⟨-, rfl⟩ := Prod.mk.inj hl'
      obtain ⟨value, htake, hall⟩ := h
      exact hsurvives.mp ⟨value, htake, fun m hm => (hcnf m hm value).mp (hall m hm)⟩
    · intro h
      obtain ⟨value, htake, hall⟩ := hsurvives.mpr (h l rfl)
      exact ⟨value, htake, fun m hm => (hcnf m hm value).mpr (hall m hm)⟩
  | unsupportedAttribute =>
    refine iff_of_true ?_ fun l' hl' => absurd (Prod.mk.inj hl').1 (by decide)
    intro m hm
    rw [macMlmeGetReqWithCnf_eq hm, hget]
  | invalidParameter =>
    refine iff_of_true ?_ fun l' hl' => absurd (Prod.mk.inj hl').1 (by decide)
    intro m hm
    rw [macMlmeGetReqWithCnf_eq hm, hget]

/-- The channel 11 of the defaults is confirmed as 0. -/
theorem logicalChannel_lost : ¬ ReadsAgree 0 macPibDefaults (fun _ => 0) macLogicalChannel := by
  intro h
  have hget : macMlmeGetReq macPibDefaults (fun _ => 0) macLogicalChannel = (.success, [11]) := by decide +kernel
  unfold ReadsAgree at h
  rw [hget] at h
  obtain ⟨value, htake, hall⟩ := h
  obtain ⟨cnf, heq, hvalue⟩ := hall (fun _ => macLogicalChannel) rfl
  rw [macMlmeGetReqWithCnf_eq rfl, hget] at heq
  rw [← Option.some.inj (Prod.mk.inj heq).2, confirmed_eq] at hvalue
  rw [← hvalue] at htake
  exact absurd htake (by decide)

end Agree

end Rf4ce.Mac

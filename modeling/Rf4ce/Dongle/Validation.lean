import Rf4ce.Crash.Bytes
import Rf4ce.Refine.Run

/-! The validation of a pairing in `vendor/dongle_app/callback_zrc.c`: the code that the host displays,
the keys that the remote sends, and the answers to its requests. -/
namespace Rf4ce.Dongle
open Crash (Byte)
open Refine

section Code

/-- `ZRC_APP_INVALID_STATE` and so on. -/
inductive ZrcAppState where
  | invalid | startValidation | validating | validated | normal
deriving DecidableEq, Repr

/-- `ZRC_SUCC`, `ZRC_PENDING`, `ZRC_FAILURE` -/
inductive ZrcSts where
  | succ | pending | failure
deriving DecidableEq, Repr

/-- `validationCode` is the memory from the array of that name on, which has four bytes. -/
structure ZrcApp where
  zrcAppState : ZrcAppState
  validationCode : Nat → Byte
  validationIndex : Byte
  verifyTimes : Byte

/-- What the stack gets back, and the messages to the host. -/
abbrev ZrcAns := Option ZrcSts × List (List Byte)

def zrcPairCnfCb (status : Byte) (s : ZrcApp) : ZrcApp × ZrcAns :=
  (if status = 0 then { s with zrcAppState := .startValidation } else s, none, [])

/-- `rand` are the three readings of `rand()`, and `random` is the fourth byte of the random data. -/
def drawCode (rand : Nat → Nat) (random : Byte) (s : ZrcApp) : ZrcApp where
  zrcAppState := .validating
  validationCode i :=
    if i < 3 then BitVec.ofNat 8 (rand i % 10) else if i = 3 then random else s.validationCode i
  validationIndex := 0
  verifyTimes := 0

def zrcCkValiReq (rand : Nat → Nat) (random : Byte) (s : ZrcApp) : ZrcApp × ZrcAns :=
  let r := if s.zrcAppState = .startValidation then drawCode rand random s else s
  let msgs := if s.zrcAppState = .startValidation then
      [[4, 0x20, r.validationCode 0, r.validationCode 1, r.validationCode 2]]
    else []
  let sts := if 20 ≤ r.verifyTimes.toNat then .failure
    else if r.zrcAppState = .validating then .pending
    else .succ
  ({ r with verifyTimes := r.verifyTimes + 1 }, some sts, msgs)

def keyMessage (lqi cmdCode : Byte) : List Byte := [6, 0x21, 0xf1, cmdCode, cmdCode - 0x20, 1, lqi]

/-- The comparison is one of two `int`s. -/
def zrcValidationKeyCb (lqi cmdCode : Byte) (s : ZrcApp) : ZrcApp × ZrcAns :=
  let hit := (s.validationCode s.validationIndex.toNat).toNat + 0x20 = cmdCode.toNat
  let index := if hit then s.validationIndex + 1 else 0
  let state := if index = 3 then .validated else s.zrcAppState
  ({ s with validationIndex := index, zrcAppState := state }, none, [keyMessage lqi cmdCode])

inductive ZrcEv where
  | pairCnf (status : Byte)
  | ckValiReq (rand : Nat → Nat) (random : Byte)
  | validationKey (lqi cmdCode : Byte)

def zrcStep (s : ZrcApp) : ZrcEv → ZrcApp × ZrcAns
  | .pairCnf status => zrcPairCnfCb status s
  | .ckValiReq rand random => zrcCkValiReq rand random s
  | .validationKey lqi cmdCode => zrcValidationKeyCb lqi cmdCode s

end Code

/-! ### Matching from the start -/

section Matching
variable {α : Type} {pat typed : List α} {x : α} {i : Nat}

/-- What is known of a matcher that starts over at every wrong element. -/
structure Matched (pat typed : List α) (i : Nat) : Prop where
  suffix : pat.take i <:+ typed
  start : typed <+: pat → i = typed.length

theorem Matched.nil (pat : List α) : Matched pat [] 0 := ⟨List.nil_suffix, fun _ => rfl⟩

theorem Matched.hit (h : Matched pat typed i) (hx : pat[i]? = some x) : Matched pat (typed ++ [x]) (i + 1) := by
  constructor
  · obtain ⟨pre, hpre⟩ := h.suffix
    have htake : pat.take (i + 1) = pat.take i ++ [x] := by
      rw [List.take_add_one, hx]
      rfl
    exact ⟨pre, by rw [htake, ← List.append_assoc, hpre]⟩
  · intro hstart
    have hbefore : typed <+: pat := (List.prefix_append typed [x]).trans hstart
    rw [List.length_append, h.start hbefore, List.length_singleton]

theorem Matched.miss (h : Matched pat typed i) (hx : pat[i]? ≠ some x) : Matched pat (typed ++ [x]) 0 := by
  constructor
  · exact List.nil_suffix
  · intro hstart
    have hbefore : typed <+: pat := (List.prefix_append typed [x]).trans hstart
    have hlen := h.start hbefore
    obtain ⟨post, hpost⟩ := hstart
    refine absurd ?_ hx
    rw [← hpost, hlen, List.append_assoc, List.getElem?_append_right (Nat.le_refl _), Nat.sub_self]
    rfl

theorem Matched.isInfix (h : Matched pat typed pat.length) : pat <:+: typed := by
  have hsuffix := h.suffix
  rw [List.take_length] at hsuffix
  exact hsuffix.isInfix

/-- The pattern at the very start is not overlooked. -/
theorem Matched.not_prefix (h : Matched pat (typed ++ [x]) i) (hi : i < pat.length) (hnot : ¬ pat <+: typed) :
    ¬ pat <+: typed ++ [x] := by
  intro hpre
  rcases List.prefix_concat_iff.mp hpre with heq | hpre
  · have hlen := h.start ⟨[], by rw [List.append_nil, heq]⟩
    rw [← heq] at hlen
    omega
  · exact hnot hpre

end Matching

/-! ### What the host displays and the remote sends -/

/-- An attempt of a remote to pair: the keys of the digits on display, the keys it sent since, and how
many of its requests were answered. -/
structure Attempt where
  keys : List Byte
  typed : List Byte
  polls : Nat

def keysOf (rand : Nat → Nat) : List Byte := (List.range 3).map fun i => BitVec.ofNat 8 (0x20 + rand i % 10)

def codeMessage (rand : Nat → Nat) : List Byte :=
  [4, 0x20] ++ (List.range 3).map fun i => BitVec.ofNat 8 (rand i % 10)

/-- The answers to an attempt, which is `none` until a code is on display. Twenty requests are heard in
every 256, of which `t_verifyTimes` keeps count. -/
inductive Judges : Option Attempt → ZrcEv → ZrcAns → Option Attempt → Prop where
  | paired {m : Option Attempt} : Judges m (.pairCnf 0) (none, []) none
  | failed {m : Option Attempt} {status : Byte} (h : status ≠ 0) : Judges m (.pairCnf status) (none, []) m
  | displayed {rand : Nat → Nat} {random : Byte} :
      Judges none (.ckValiReq rand random) (some .pending, [codeMessage rand]) (some ⟨keysOf rand, [], 1⟩)
  | typed {a : Attempt} {lqi cmdCode : Byte} :
      Judges (some a) (.validationKey lqi cmdCode) (none, [keyMessage lqi cmdCode])
        (some { a with typed := a.typed ++ [cmdCode] })
  | pending {a : Attempt} {rand : Nat → Nat} {random : Byte} (h : a.polls % 256 < 20)
      (htyped : ¬ a.keys <+: a.typed) :
      Judges (some a) (.ckValiReq rand random) (some .pending, []) (some { a with polls := a.polls + 1 })
  | accepted {a : Attempt} {rand : Nat → Nat} {random : Byte} (h : a.polls % 256 < 20)
      (htyped : a.keys <:+: a.typed) :
      Judges (some a) (.ckValiReq rand random) (some .succ, []) (some { a with polls := a.polls + 1 })
  | refused {a : Attempt} {rand : Nat → Nat} {random : Byte} (h : 20 ≤ a.polls % 256) :
      Judges (some a) (.ckValiReq rand random) (some .failure, []) (some { a with polls := a.polls + 1 })

/-- A remote sends keys when a code is on display. -/
def KeysAfterCode (s : ZrcApp) : ZrcEv → Prop
  | .validationKey _ _ => s.zrcAppState ≠ .startValidation
  | _ => True

instance (s : ZrcApp) : (k : ZrcEv) → Decidable (KeysAfterCode s k)
  | .pairCnf _ | .ckValiReq _ _ => inferInstanceAs (Decidable True)
  | .validationKey _ _ => inferInstanceAs (Decidable (s.zrcAppState ≠ .startValidation))

/-! ### The dongle judges so -/

/-- The keys of the digits in memory. -/
structure CodeKeys (s : ZrcApp) (keys : List Byte) : Prop where
  length : keys.length = 3
  code : ∀ i < 3, ∃ k, keys[i]? = some k ∧ k.toNat = (s.validationCode i).toNat + 0x20

/-- What `typed` did to a dongle that waits in one of its states. -/
structure Compared (waiting : ZrcAppState) (s : ZrcApp) (keys typed : List Byte) : Prop extends CodeKeys s keys where
  judged : s.zrcAppState = .validated ∧ keys <:+: typed ∨
    s.zrcAppState = waiting ∧ ¬ keys <+: typed ∧ s.validationIndex.toNat < 3 ∧
      Matched keys typed s.validationIndex.toNat

/-- The state of the dongle in an attempt. -/
structure Displayed (s : ZrcApp) (a : Attempt) : Prop extends Compared .validating s a.keys a.typed where
  polls : s.verifyTimes.toNat = a.polls % 256

def AttemptRep (s : ZrcApp) : Option Attempt → Prop
  | none => s.zrcAppState = .startValidation
  | some a => Displayed s a

section Steps
variable {s : ZrcApp} {a : Attempt}

theorem Displayed.state_ne (h : Displayed s a) : s.zrcAppState ≠ .startValidation := by
  obtain ⟨hstate, -⟩ | ⟨hstate, -⟩ := h.judged <;> rw [hstate] <;> decide

theorem drawn_digit (n : Nat) : (BitVec.ofNat 8 (n % 10)).toNat = n % 10 := by
  rw [BitVec.toNat_ofNat]
  omega

theorem drawn_key (n : Nat) : (BitVec.ofNat 8 (0x20 + n % 10)).toNat = n % 10 + 0x20 := by
  rw [BitVec.toNat_ofNat]
  omega

/-- The first request after a pairing displays a code. -/
theorem zrcCkValiReq_displays (rand : Nat → Nat) (random : Byte) (h : s.zrcAppState = .startValidation) :
    (zrcCkValiReq rand random s).2 = (some .pending, [codeMessage rand]) ∧
      Displayed (zrcCkValiReq rand random s).1 ⟨keysOf rand, [], 1⟩ := by
  unfold zrcCkValiReq
  dsimp only
  rw [if_pos h, if_pos h]
  constructor
  · rfl
  · refine ⟨⟨⟨rfl, fun i hi => ?_⟩, ?_⟩, rfl⟩
    · have hkey : (keysOf rand)[i]? = some (BitVec.ofNat 8 (0x20 + rand i % 10)) := by
        rw [keysOf, List.getElem?_map, List.getElem?_range hi]
        rfl
      refine ⟨_, hkey, ?_⟩
      show _ = (if i < 3 then BitVec.ofNat 8 (rand i % 10) else _).toNat + 0x20
      rw [if_pos hi, drawn_digit, drawn_key]
    · refine .inr ⟨rfl, ?_, Nat.zero_lt_succ 2, .nil _⟩
      intro hpre
      have hle : 3 ≤ 0 := hpre.length_le
      exact absurd hle (by decide)

theorem Displayed.request (h : Displayed s a) (rand : Nat → Nat) (random : Byte) :
    Judges (some a) (.ckValiReq rand random) (zrcCkValiReq rand random s).2 (some { a with polls := a.polls + 1 }) ∧
      Displayed (zrcCkValiReq rand random s).1 { a with polls := a.polls + 1 } := by
  unfold zrcCkValiReq
  dsimp only
  rw [if_neg h.state_ne, if_neg h.state_ne]
  constructor
  · by_cases htimes : 20 ≤ s.verifyTimes.toNat
    · rw [if_pos htimes]
      exact .refused (by rw [← h.polls]; exact htimes)
    · rw [if_neg htimes]
      have hpolls : a.polls % 256 < 20 := by
        rw [← h.polls]
        omega
      obtain ⟨hstate, hinfix⟩ | ⟨hstate, hnot, -⟩ := h.judged
      · rw [hstate, if_neg (by decide)]
        exact .accepted hpolls hinfix
      · rw [if_pos hstate]
        exact .pending hpolls hnot
  · refine ⟨⟨⟨h.length, h.code⟩, h.judged⟩, ?_⟩
    show (s.verifyTimes + 1).toNat = (a.polls + 1) % 256
    rw [BitVec.toNat_add, h.polls]
    simp

/-- Whether the key is the next one of the code. -/
theorem CodeKeys.hit_iff {keys : List Byte} (h : CodeKeys s keys) (hi : s.validationIndex.toNat < 3)
    (cmdCode : Byte) :
    (s.validationCode s.validationIndex.toNat).toNat + 0x20 = cmdCode.toNat ↔
      keys[s.validationIndex.toNat]? = some cmdCode := by
  obtain ⟨k, hk, hcode⟩ := h.code _ hi
  rw [hk, Option.some_inj, ← hcode, BitVec.toNat_inj]

theorem toNat_add_one {i : Byte} (h : i.toNat < 255) : (i + 1).toNat = i.toNat + 1 := by
  rw [BitVec.toNat_add]
  have hone : (1 : Byte).toNat = 1 := rfl
  omega

theorem zrcValidationKeyCb_hit {lqi cmdCode : Byte}
    (h : (s.validationCode s.validationIndex.toNat).toNat + 0x20 = cmdCode.toNat) :
    zrcValidationKeyCb lqi cmdCode s =
      ({ s with
          validationIndex := s.validationIndex + 1
          zrcAppState := if s.validationIndex + 1 = 3 then .validated else s.zrcAppState },
        none, [keyMessage lqi cmdCode]) := by
  unfold zrcValidationKeyCb
  dsimp only
  rw [if_pos h]

theorem zrcValidationKeyCb_miss {lqi cmdCode : Byte}
    (h : (s.validationCode s.validationIndex.toNat).toNat + 0x20 ≠ cmdCode.toNat) :
    zrcValidationKeyCb lqi cmdCode s = ({ s with validationIndex := 0 }, none, [keyMessage lqi cmdCode]) := by
  unfold zrcValidationKeyCb
  dsimp only
  rw [if_neg h, if_neg (by decide)]

/-- A remote that was accepted stays so, whatever it sends. -/
theorem zrcValidationKeyCb_validated (lqi cmdCode : Byte) (h : s.zrcAppState = .validated) :
    (zrcValidationKeyCb lqi cmdCode s).1.zrcAppState = .validated := by
  unfold zrcValidationKeyCb
  dsimp only
  rw [h, ite_self]

theorem Compared.key {waiting : ZrcAppState} {keys typed : List Byte} (h : Compared waiting s keys typed)
    (lqi cmdCode : Byte) : Compared waiting (zrcValidationKeyCb lqi cmdCode s).1 keys (typed ++ [cmdCode]) := by
  refine ⟨⟨h.length, h.code⟩, ?_⟩
  obtain ⟨hstate, hinfix⟩ | ⟨hstate, hnot, hi, hmatch⟩ := h.judged
  · exact .inl ⟨zrcValidationKeyCb_validated lqi cmdCode hstate, hinfix.trans (List.prefix_append _ _).isInfix⟩
  · by_cases hhit : (s.validationCode s.validationIndex.toNat).toNat + 0x20 = cmdCode.toNat
    · have hnext := hmatch.hit ((h.hit_iff hi cmdCode).mp hhit)
      have hindex := toNat_add_one (i := s.validationIndex) (by omega)
      rw [zrcValidationKeyCb_hit hhit]
      by_cases hthree : s.validationIndex + 1 = 3
      · -- the third digit: all of the code is a suffix of what was sent
        have hlast : s.validationIndex.toNat + 1 = keys.length := by
          rw [← hindex, hthree, h.length]
          rfl
        rw [hlast] at hnext
        exact .inl ⟨if_pos hthree, hnext.isInfix⟩
      · have hlt : s.validationIndex.toNat + 1 < 3 := by
          have hne : (s.validationIndex + 1).toNat ≠ 3 := fun heq => hthree (BitVec.eq_of_toNat_eq heq)
          omega
        right
        rw [if_neg hthree, hindex]
        exact ⟨hstate, hnext.not_prefix (by rw [h.length]; exact hlt) hnot, hlt, hnext⟩
    · -- the wrong key is not tried again as a first digit
      have hnext := hmatch.miss (mt (h.hit_iff hi cmdCode).mpr hhit)
      rw [zrcValidationKeyCb_miss hhit]
      exact .inr ⟨hstate, hnext.not_prefix (by rw [h.length]; decide) hnot, Nat.zero_lt_succ 2, hnext⟩

theorem Displayed.key (h : Displayed s a) (lqi cmdCode : Byte) :
    Displayed (zrcValidationKeyCb lqi cmdCode s).1 { a with typed := a.typed ++ [cmdCode] } :=
  ⟨h.toCompared.key lqi cmdCode, h.polls⟩

theorem zrcStep_judges {m : Option Attempt} {k : ZrcEv} (h : AttemptRep s m) (hk : KeysAfterCode s k) :
    ∃ m', Judges m k (zrcStep s k).2 m' ∧ AttemptRep (zrcStep s k).1 m' := by
  cases k with
  | pairCnf status =>
    by_cases hstatus : status = 0
    · subst hstatus
      exact ⟨none, .paired, rfl⟩
    · refine ⟨m, .failed hstatus, ?_⟩
      simp only [zrcStep, zrcPairCnfCb, if_neg hstatus]
      exact h
  | ckValiReq rand random =>
    cases m with
    | none =>
      obtain ⟨hans, hrep⟩ := zrcCkValiReq_displays rand random h
      have hjudged : Judges none (.ckValiReq rand random) (zrcCkValiReq rand random s).2
          (some ⟨keysOf rand, [], 1⟩) := by
        rw [hans]
        exact .displayed
      exact ⟨some ⟨keysOf rand, [], 1⟩, hjudged, hrep⟩
    | some a =>
      obtain ⟨hjudged, hrep⟩ := Displayed.request h rand random
      exact ⟨some { a with polls := a.polls + 1 }, hjudged, hrep⟩
  | validationKey lqi cmdCode =>
    cases m with
    | none => exact absurd h hk
    | some a => exact ⟨some { a with typed := a.typed ++ [cmdCode] }, .typed, Displayed.key h lqi cmdCode⟩

end Steps

/-- From a confirmed pairing on, a remote is accepted when it sent the keys of the digits on display in
a row, and it is never kept waiting when it sent them at once. -/
theorem validation_judged {s : ZrcApp} (h : s.zrcAppState = .startValidation) {es : List ZrcEv}
    (henv : Legal zrcStep KeysAfterCode s es) : ∃ m, Allows Judges none es (run zrcStep s es).2 m := by
  have hstart : AttemptRep s none := h
  obtain ⟨m, hallows, -⟩ := run_allowed (fun _ _ _ => zrcStep_judges) hstart henv
  exact ⟨m, hallows⟩

/-- The dongle after its first pairing. -/
def firstPairing : ZrcApp := ⟨.startValidation, fun _ => 0, 0, 0⟩

/-- A code of 7, 1, 7, with the first key sent twice. -/
def sevens : List ZrcEv :=
  [.ckValiReq (fun i => if i = 1 then 1 else 7) 0, .validationKey 0 0x27, .ckValiReq (fun _ => 0) 0,
    .validationKey 0 0x27, .validationKey 0 0x27, .validationKey 0 0x21, .validationKey 0 0x27,
    .ckValiReq (fun _ => 0) 0]

theorem validation_judged_sevens :
    (∃ m, Allows Judges none sevens (run zrcStep firstPairing sevens).2 m) ∧
      (run zrcStep firstPairing sevens).2.getLast? = some (some .succ, []) := by
  have henv : Legal zrcStep KeysAfterCode firstPairing sevens := by decide
  exact ⟨validation_judged rfl henv, by decide⟩

/-! ### Keys before the first request -/

/-- Keys, and confirms of a pairing that failed. -/
def BeforeRequest : ZrcEv → Prop
  | .pairCnf status => status ≠ 0
  | .ckValiReq _ _ => False
  | .validationKey _ _ => True

/-- The keys that a remote sent. -/
def sentKeys : List ZrcEv → List Byte
  | [] => []
  | .validationKey _ cmdCode :: es => cmdCode :: sentKeys es
  | .pairCnf _ :: es | .ckValiReq _ _ :: es => sentKeys es

section Stale
variable {s : ZrcApp} {keys typed : List Byte} {es : List ZrcEv}

/-- Before a code is drawn keys are compared with the one in memory; by induction over what comes. -/
theorem Compared.beforeRequest (h : Compared .startValidation s keys typed) (hes : ∀ e ∈ es, BeforeRequest e) :
    Compared .startValidation (run zrcStep s es).1 keys (typed ++ sentKeys es) ∧
      (run zrcStep s es).1.verifyTimes = s.verifyTimes := by
  induction es generalizing s typed with
  | nil =>
    rw [sentKeys, List.append_nil]
    exact ⟨h, rfl⟩
  | cons e es ih =>
    obtain ⟨he, hrest⟩ := List.forall_mem_cons.mp hes
    cases e with
    | pairCnf status =>
      have hsame : (zrcStep s (.pairCnf status)).1 = s := by
        simp only [zrcStep, zrcPairCnfCb]
        exact if_neg he
      rw [run, sentKeys]
      dsimp only
      rw [hsame]
      exact ih h hrest
    | ckValiReq rand random => exact he.elim
    | validationKey lqi cmdCode =>
      obtain ⟨hend, htimes⟩ := ih (h.key lqi cmdCode) hrest
      rw [List.append_assoc] at hend
      exact ⟨hend, htimes⟩

/-- Why keys have to wait for the code: before the first request they are compared with the one that is
still in memory. When they start with its keys, that request is accepted and no code is displayed; when
they do not hold its keys at all, it displays a code. -/
theorem validation_stale (h : s.zrcAppState = .startValidation) (hindex : s.validationIndex = 0)
    (htimes : s.verifyTimes.toNat < 20) (hkeys : CodeKeys s keys) (hes : ∀ e ∈ es, BeforeRequest e)
    (rand : Nat → Nat) (random : Byte) :
    let answer := (zrcStep (run zrcStep s es).1 (.ckValiReq rand random)).2
    (keys <+: sentKeys es → answer = (some .succ, [])) ∧
      (¬ keys <:+: sentKeys es → answer = (some .pending, [codeMessage rand])) := by
  have hstart : Compared .startValidation s keys [] := by
    refine ⟨hkeys, .inr ⟨h, fun hpre => ?_, ?_, ?_⟩⟩
    · have hle := hpre.length_le
      rw [hkeys.length] at hle
      exact absurd hle (by decide)
    · rw [hindex]
      decide
    · rw [hindex]
      exact .nil keys
  obtain ⟨hend, hcount⟩ := hstart.beforeRequest hes
  rw [List.nil_append] at hend
  rw [← hcount] at htimes
  generalize (run zrcStep s es).1 = s' at hend htimes
  constructor
  · intro hpre
    obtain ⟨hstate, -⟩ | ⟨-, hnot, -⟩ := hend.judged
    · have hnew : s'.zrcAppState ≠ .startValidation := by
        rw [hstate]
        decide
      have hwait : s'.zrcAppState ≠ .validating := by
        rw [hstate]
        decide
      unfold zrcStep zrcCkValiReq
      dsimp only
      rw [if_neg hnew, if_neg hnew, if_neg (Nat.not_le.mpr htimes), if_neg hwait]
    · exact absurd hpre hnot
  · intro hnot
    obtain ⟨-, hinfix⟩ | ⟨hstate, -⟩ := hend.judged
    · exact absurd hinfix hnot
    · exact (zrcCkValiReq_displays rand random hstate).1

end Stale

/-- After power-on the code in memory is three zeros: their keys, a failed confirm between them, are
accepted. -/
def zerosFirst : List ZrcEv :=
  [.validationKey 0 0x20, .pairCnf 1, .validationKey 0 0x20, .validationKey 0 0x20, .validationKey 0 0x27]

theorem validation_stale_zero :
    (zrcStep (run zrcStep firstPairing zerosFirst).1 (.ckValiReq (fun _ => 7) 7)).2 = (some .succ, []) := by
  have hkeys : CodeKeys firstPairing (List.replicate 3 0x20) := by
    refine ⟨rfl, fun i hi => ⟨0x20, ?_, rfl⟩⟩
    rw [List.getElem?_replicate, if_pos hi]
  have hes : ∀ e ∈ zerosFirst, BeforeRequest e := by
    simp [zerosFirst, BeforeRequest]
  exact (validation_stale rfl rfl (by decide) hkeys hes (fun _ => 7) 7).1 (by decide)

/-! ### The array -/

/-- The next key is compared with a byte of the array. -/
def InArray (s : ZrcApp) (k : ZrcEv) : Prop := (zrcStep s k).1.validationIndex.toNat < 4

/-- After the code no key matches the random byte behind the digits. -/
def NotFourth (s : ZrcApp) : ZrcEv → Prop
  | .validationKey _ cmdCode => s.validationIndex = 3 → (s.validationCode 3).toNat + 0x20 ≠ cmdCode.toNat
  | _ => True

theorem inArray_iff {s : ZrcApp} (h : s.validationIndex.toNat < 4) (k : ZrcEv) : InArray s k ↔ NotFourth s k := by
  cases k with
  | pairCnf status =>
    refine iff_of_true ?_ trivial
    simp only [InArray, zrcStep, zrcPairCnfCb]
    split_ifs <;> exact h
  | ckValiReq rand random =>
    refine iff_of_true ?_ trivial
    simp only [InArray, zrcStep, zrcCkValiReq]
    split_ifs
    · exact Nat.zero_lt_succ 3
    · exact h
  | validationKey lqi cmdCode =>
    by_cases hhit : (s.validationCode s.validationIndex.toNat).toNat + 0x20 = cmdCode.toNat
    · have hnext : (zrcStep s (.validationKey lqi cmdCode)).1.validationIndex = s.validationIndex + 1 := by
        rw [zrcStep, zrcValidationKeyCb_hit hhit]
      rw [InArray, hnext, toNat_add_one (by omega)]
      constructor
      · intro hlt hthree
        rw [hthree] at hlt
        exact absurd hlt (by decide)
      · intro hno
        have hne : s.validationIndex ≠ 3 := by
          intro hthree
          rw [hthree] at hhit
          exact hno hthree hhit
        have hnat : s.validationIndex.toNat ≠ 3 := fun heq => hne (BitVec.eq_of_toNat_eq heq)
        omega
    · have hnext : (zrcStep s (.validationKey lqi cmdCode)).1.validationIndex = 0 := by
        rw [zrcStep, zrcValidationKeyCb_miss hhit]
      refine iff_of_true ?_ ?_
      · rw [InArray, hnext]
        decide
      · intro hthree heq
        rw [hthree] at hhit
        exact hhit heq

/-- Exactly a key that matches the random byte, right after the code, makes the dongle read behind the
array. -/
theorem validation_inArray_iff {s : ZrcApp} (h : s.validationIndex.toNat < 4) (es : List ZrcEv) :
    Legal zrcStep InArray s es ↔ Legal zrcStep NotFourth s es := by
  have henv : Legal zrcStep (fun _ _ => True) s es := legal_forall.mpr fun _ _ => trivial
  exact legal_iff (I := fun s => s.validationIndex.toNat < 4) (fun _ k hs _ => inArray_iff hs k)
    (fun _ _ _ _ hin => hin) h henv

theorem validation_inArray_iff_zero :
    ¬ Legal zrcStep InArray firstPairing (List.replicate 4 (.validationKey 0 0x20)) := by
  rw [validation_inArray_iff (by decide)]
  rintro ⟨-, -, -, hno, -⟩
  exact hno rfl rfl

end Rf4ce.Dongle

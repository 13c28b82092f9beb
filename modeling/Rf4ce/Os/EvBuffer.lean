import Rf4ce.Crash.Bytes
import Rf4ce.Refine.Run
import Mathlib.Data.Fintype.Card
import Mathlib.Logic.Function.Basic

/-! Event buffers and the message pool of `ev_buffer.c`, on the bytes of `ev_bufItem`: a posted
buffer carries its list node either in its header or, as a received packet, in the middle of its
data. -/
namespace Rf4ce.Os
open Crash

def bufferNum : Nat := 14
def bufferSize : Nat := 274
def rfRxBufferOffset : Nat := 128

instance : NeZero bufferNum := ⟨by decide⟩

/-- The states of a message; the table has `BUF_ITEM_STATE_BUSY` as its entry 0. -/
inductive BufItemState where
  | phy2mac | csma2mac | mac2nwk | nwk2profile | profile2nwk | nwk2mac | mac2csma
deriving DecidableEq, Repr

def BufItemState.toNat : BufItemState → Nat
  | .phy2mac => 1
  | .csma2mac => 2
  | .mac2nwk => 3
  | .nwk2profile => 4
  | .profile2nwk => 5
  | .nwk2mac => 6
  | .mac2csma => 7

/-- In the order of the loop of `buf_message_poll`. -/
def BufItemState.all : List BufItemState :=
  [.phy2mac, .csma2mac, .mac2nwk, .nwk2profile, .profile2nwk, .nwk2mac, .mac2csma]

/-! `ev_bufItem_t` without `__DEBUG_BUFFER__`: `next`, `buf_item_state_tbl[8]`, `data[274]`, `used`. -/

def stateTblOffset : Nat := 4
def dataOffset : Nat := 12
def usedOffset : Nat := 286
def sizeofEvBufItem : Nat := 288

inductive BufSts where
  | succ | invalidParameter
deriving DecidableEq, Repr

/-- The memory and `ev_pool`; a pointer is its address, 0 is NULL. -/
structure EvBuffers where
  mem : Nat → Byte
  head : Nat
  tail : Nat
  num : Nat

section Code
variable (base : Nat)

/-- `&ev_bufItem[i]`, where the array starts at `base`. -/
def itemAddr (i : Nat) : Nat := base + i * sizeofEvBufItem

def readNext (mem : Nat → Byte) (p : Nat) : Nat := ofLe (bytes mem p 4)

def writeNext (mem : Nat → Byte) (p next : Nat) : Nat → Byte := storeBytes mem p (le32 next)

/-- The body of the loop of `ev_buf_reset`. -/
def resetItem (mem : Nat → Byte) (i : Nat) : Nat → Byte :=
  storeBytes (storeBytes (writeNext mem (itemAddr base i) 0) (itemAddr base i + usedOffset) (le16 0))
    (itemAddr base i + stateTblOffset) (List.replicate 8 0)

def evBufReset (s : EvBuffers) : EvBuffers where
  mem := (List.range bufferNum).foldl (resetItem base) s.mem
  head := 0
  tail := 0
  num := 0

/-- `none` is NULL. -/
def evBufAllocate (s : EvBuffers) : EvBuffers × Option Nat :=
  match (List.range bufferNum).find? fun i => s.mem (itemAddr base i + stateTblOffset) = 0 with
  | some i =>
    let mem := Function.update s.mem (itemAddr base i + stateTblOffset) 1
    ({ s with mem := storeBytes mem (itemAddr base i + usedOffset) (le16 0xffff) }, some (itemAddr base i + dataOffset))
  | none => (s, none)

def isEvBuf (p : Nat) : Bool :=
  itemAddr base 0 + dataOffset ≤ p && p < itemAddr base (bufferNum - 1) + dataOffset + bufferSize

def evBufGetHead (pd : Nat) : Nat := pd - dataOffset

def evBufFree (s : EvBuffers) (pBuf : Nat) : EvBuffers × BufSts :=
  if !isEvBuf base pBuf then (s, .invalidParameter)
  else
    let pDelBuf := evBufGetHead pBuf
    let mem := Function.update s.mem (pDelBuf + stateTblOffset) 0
    ({ s with mem := storeBytes mem (pDelBuf + usedOffset) (le16 0) }, .succ)

def bufMessagePost (s : EvBuffers) (ptr : Nat) (state : BufItemState) : EvBuffers × BufSts :=
  if !isEvBuf base ptr then (s, .invalidParameter)
  else
    let bufferItemPtr := evBufGetHead ptr
    let mem := Function.update s.mem (bufferItemPtr + stateTblOffset + state.toNat) 1
    let mem := writeNext mem bufferItemPtr 0
    let num := (s.num + 1) % 256
    if s.head = 0 then (⟨mem, bufferItemPtr, bufferItemPtr, num⟩, .succ)
    else
      let mem := writeNext mem s.tail bufferItemPtr
      (⟨mem, s.head, readNext mem s.tail, num⟩, .succ)

/-- The pointer, or `none` for NULL, and what is written to `*state`. -/
def bufMessagePoll (s : EvBuffers) : EvBuffers × Option Nat × Nat :=
  if s.head = 0 then (s, none, 0xff)
  else
    match BufItemState.all.find? fun i => s.mem (s.head + stateTblOffset + i.toNat) = 1 with
    | none => (s, none, 0xff)
    | some i =>
      let mem := Function.update s.mem (s.head + stateTblOffset + i.toNat) 0
      (⟨writeNext mem s.head 0, readNext mem s.head, s.tail, (s.num + 255) % 256⟩,
        some (s.head + dataOffset), i.toNat)

/-! ### Calls -/

/-- A call on buffer `i`. A post takes the data pointer or, with `rx`, the pointer that the
receiver uses; `write` is a store of the buffer's owner to `data[off]`. -/
inductive EvCall where
  | allocate
  | free (i : Fin bufferNum)
  | write (i : Fin bufferNum) (off : Nat) (b : Byte)
  | post (i : Fin bufferNum) (rx : Bool) (state : BufItemState)
  | poll

inductive EvAns where
  | buffer (p : Option Nat)
  | status (sts : BufSts)
  | message (p : Option Nat) (state : Nat)
  | written
deriving DecidableEq, Repr

/-- The pointers to buffer `i`. -/
def bufPtr (i : Fin bufferNum) (rx : Bool) : Nat :=
  itemAddr base i + dataOffset + if rx then rfRxBufferOffset else 0

def evStep (s : EvBuffers) : EvCall → EvBuffers × EvAns
  | .allocate =>
    let r := evBufAllocate base s
    (r.1, .buffer r.2)
  | .free i =>
    let r := evBufFree base s (bufPtr base i false)
    (r.1, .status r.2)
  | .write i off b => ({ s with mem := Function.update s.mem (itemAddr base i + dataOffset + off) b }, .written)
  | .post i rx state =>
    let r := bufMessagePost base s (bufPtr base i rx) state
    (r.1, .status r.2)
  | .poll =>
    let r := bufMessagePoll s
    (r.1, .message r.2.1 r.2.2)

end Code

/-! ### The pool as its users see it -/

/-- A posted message. -/
structure Msg where
  item : Fin bufferNum
  rx : Bool
  state : BufItemState
deriving DecidableEq

/-- The buffers that are handed out, and the messages not polled yet, oldest first. -/
structure Pool where
  held : Fin bufferNum → Bool
  queue : List Msg

def Pool.empty : Pool := ⟨fun _ => false, []⟩

/-- What a user may call: a buffer in the queue is neither freed nor posted again, and a
received packet not written below its pointer; the receiver posts to the MAC only. -/
def Pool.Allows (g : Pool) : EvCall → Prop
  | .allocate => True
  | .free i => g.held i = true ∧ ∀ m ∈ g.queue, m.item ≠ i
  | .write i off _ => off < bufferSize ∧ ∀ m ∈ g.queue, m.item = i → m.rx = true → rfRxBufferOffset ≤ off
  | .post i rx state => (rx = true → state = .phy2mac) ∧ ∀ m ∈ g.queue, m.item ≠ i
  | .poll => True

/-- The pool after a call with its answer, and `none` when the answer is wrong: a buffer that is
handed out was free, none is refused while one is free, and the messages come out in the order in
which they were posted. -/
def Pool.accept (base : Nat) (g : Pool) : EvCall → EvAns → Option Pool
  | .allocate, .buffer (some p) =>
    match (List.finRange bufferNum).find? fun i => bufPtr base i false = p with
    | some i => if g.held i then none else some { g with held := Function.update g.held i true }
    | none => none
  | .allocate, .buffer none => if ∀ i, g.held i = true then some g else none
  | .free i, .status .succ => some { g with held := Function.update g.held i false }
  | .write _ _ _, .written => some g
  | .post i rx state, .status .succ => some { g with queue := g.queue ++ [⟨i, rx, state⟩] }
  | .poll, .message p state =>
    match g.queue with
    | [] => if p = none then some g else none
    | m :: queue =>
      if p = some (bufPtr base m.item m.rx) ∧ state = m.state.toNat then some { g with queue } else none
  | _, _ => none

/-! ### The nodes of the chain -/

section Nodes
variable {base : Nat}

/-- The list node of a message. -/
def Msg.node (base : Nat) (m : Msg) : Nat := itemAddr base m.item + if m.rx then rfRxBufferOffset else 0

def firstNode (base : Nat) : List Msg → Nat
  | [] => 0
  | m :: _ => m.node base

/-- `ev_pool` holds the messages of `g`, and the headers of the buffers agree with it. -/
structure PoolRep (base : Nat) (s : EvBuffers) (g : Pool) : Prop where
  head : s.head = firstNode base g.queue
  tail : ∀ m, g.queue.getLast? = some m → s.tail = m.node base
  num : s.num = g.queue.length
  links : ∀ pre m rest, g.queue = pre ++ m :: rest → readNext s.mem (m.node base) = firstNode base rest
  nodup : (g.queue.map Msg.item).Nodup
  rx : ∀ m ∈ g.queue, m.rx = true → m.state = .phy2mac ∧ s.mem (m.node base + stateTblOffset + 1) = 1
  flags : ∀ i : Fin bufferNum, ∀ st : BufItemState,
    s.mem (itemAddr base i + stateTblOffset + st.toNat) = if ⟨i, false, st⟩ ∈ g.queue then 1 else 0
  busy : ∀ i : Fin bufferNum, s.mem (itemAddr base i + stateTblOffset) = if g.held i then 1 else 0

theorem node_ptr (m : Msg) : bufPtr base m.item m.rx = m.node base + dataOffset := by
  unfold bufPtr Msg.node
  omega

theorem node_getHead (m : Msg) : evBufGetHead (bufPtr base m.item m.rx) = m.node base := by
  rw [node_ptr]
  exact Nat.add_sub_cancel _ _

theorem BufItemState.toNat_bounds (st : BufItemState) : 1 ≤ st.toNat ∧ st.toNat ≤ 7 := by
  cases st <;> decide

theorem BufItemState.toNat_inj {st st' : BufItemState} (h : st.toNat = st'.toNat) : st = st' := by
  cases st <;> cases st' <;> first | rfl | cases h

theorem Msg.node_bounds (base : Nat) (m : Msg) : itemAddr base m.item ≤ m.node base ∧ m.node base ≤ itemAddr base m.item + 128 := by
  unfold Msg.node rfRxBufferOffset
  split_ifs
  · omega
  · omega

/-- Different buffers lie apart. -/
theorem itemAddr_apart (base : Nat) {i j : Fin bufferNum} (h : i ≠ j) :
    itemAddr base i + 288 ≤ itemAddr base j ∨ itemAddr base j + 288 ≤ itemAddr base i := by
  have hne : i.val ≠ j.val := fun hv => h (Fin.ext hv)
  unfold itemAddr sizeofEvBufItem
  omega

theorem readNext_congr {mem mem' : Nat → Byte} {p : Nat} (h : ∀ x, p ≤ x → x < p + 4 → mem' x = mem x) :
    readNext mem' p = readNext mem p := by
  unfold readNext
  rw [bytes_congr h]

theorem readNext_writeNext (mem : Nat → Byte) (p : Nat) {next : Nat} (h : next < 4294967296) :
    readNext (writeNext mem p next) p = next := by
  unfold readNext writeNext
  rw [show 4 = (le32 next).length from rfl, bytes_storeBytes, ofLe_le32 h]

theorem writeNext_outside {mem : Nat → Byte} {p next x : Nat} (h : x < p ∨ p + 4 ≤ x) :
    writeNext mem p next x = mem x := storeBytes_outside h

/-- The pool has room for all buffers, so its counter does not wrap. -/
theorem PoolRep.length_le {s : EvBuffers} {g : Pool} (h : PoolRep base s g) : g.queue.length ≤ 14 := by
  have hle := h.nodup.length_le_card
  rwa [List.length_map, Fintype.card_fin] at hle

theorem PoolRep.item_inj {s : EvBuffers} {g : Pool} (h : PoolRep base s g) {m m' : Msg} (hm : m ∈ g.queue)
    (hm' : m' ∈ g.queue) (hitem : m.item = m'.item) : m = m' :=
  List.inj_on_of_nodup_map h.nodup hm hm' hitem

/-- A change that the pool does not see. -/
theorem PoolRep.frame {s : EvBuffers} {g : Pool} (h : PoolRep base s g) {mem : Nat → Byte} {held : Fin bufferNum → Bool}
    (hhead : ∀ i : Fin bufferNum, ∀ st : BufItemState, mem (itemAddr base i + stateTblOffset + st.toNat) =
      s.mem (itemAddr base i + stateTblOffset + st.toNat))
    (hnode : ∀ m ∈ g.queue, ∀ x, m.node base ≤ x → x < m.node base + 4 ∨ m.rx = true ∧ x = m.node base + 5 → mem x = s.mem x)
    (hbusy : ∀ i : Fin bufferNum, mem (itemAddr base i + stateTblOffset) = if held i then 1 else 0) :
    PoolRep base { s with mem } { g with held } := by
  constructor
  · exact h.head
  · exact h.tail
  · exact h.num
  · intro pre m rest hq
    have hm : m ∈ g.queue := by
      rw [hq]
      simp
    rw [← h.links pre m rest hq]
    exact readNext_congr fun x h₁ h₂ => hnode m hm x h₁ (.inl h₂)
  · exact h.nodup
  · intro m hm hrx
    obtain ⟨hst, hflag⟩ := h.rx m hm hrx
    refine ⟨hst, ?_⟩
    change mem _ = 1
    rw [hnode m hm _ (by unfold stateTblOffset; omega) (.inr ⟨hrx, by unfold stateTblOffset; omega⟩)]
    exact hflag
  · intro i st
    exact (hhead i st).trans (h.flags i st)
  · exact hbusy

/-! ### Reset -/

/-- A byte of the state table of buffer `j`. -/
def InTable (base : Nat) (j : Fin bufferNum) (x : Nat) : Prop :=
  itemAddr base j + stateTblOffset ≤ x ∧ x < itemAddr base j + dataOffset

theorem resetItem_table {mem : Nat → Byte} {j : Fin bufferNum} {x : Nat} (hx : InTable base j x) :
    resetItem base mem j x = 0 := by
  have hlt : x - (itemAddr base j + stateTblOffset) < 8 := by
    unfold InTable dataOffset stateTblOffset at *
    omega
  unfold resetItem storeBytes
  rw [if_pos ⟨hx.1, by rw [List.length_replicate]; unfold stateTblOffset at *; omega⟩, List.getD,
    List.getElem?_replicate, if_pos hlt]
  rfl

theorem resetItem_apart {mem : Nat → Byte} {i j : Fin bufferNum} {x : Nat} (hx : InTable base j x) (hij : i ≠ j) :
    resetItem base mem i x = mem x := by
  have hapart := itemAddr_apart base hij
  unfold InTable stateTblOffset dataOffset at hx
  unfold resetItem
  rw [storeBytes_outside (by rw [List.length_replicate]; unfold stateTblOffset; omega),
    storeBytes_outside (by rw [le16_length]; unfold usedOffset; omega), writeNext_outside (by omega)]

/-- A byte of a table that is 0, or that the loop still comes to, is 0 after the loop. -/
theorem resetItems_table {j : Fin bufferNum} {x : Nat} (hx : InTable base j x) (is : List (Fin bufferNum))
    {mem : Nat → Byte} (h : j ∈ is ∨ mem x = 0) : (is.map Fin.val).foldl (resetItem base) mem x = 0 := by
  induction is generalizing mem with
  | nil =>
    cases h with
    | inl h => cases h
    | inr h => exact h
  | cons i is ih =>
    apply ih
    by_cases hij : i = j
    · right
      rw [hij]
      exact resetItem_table hx
    · rw [resetItem_apart hx hij]
      cases h with
      | inl h => exact .inl (List.mem_of_ne_of_mem (Ne.symm hij) h)
      | inr h => exact .inr h

theorem evBufReset_table (s : EvBuffers) {j : Fin bufferNum} {x : Nat} (hx : InTable base j x) :
    (evBufReset base s).mem x = 0 := by
  change (List.range bufferNum).foldl (resetItem base) s.mem x = 0
  rw [← List.map_coe_finRange_eq_range]
  exact resetItems_table hx _ (.inl (List.mem_finRange j))

theorem evBufReset_rep (s : EvBuffers) : PoolRep base (evBufReset base s) Pool.empty := by
  constructor
  · rfl
  · intro m hm
    cases hm
  · rfl
  · intro pre m rest hq
    cases pre <;> cases hq
  · exact List.nodup_nil
  · intro m hm
    cases hm
  · intro i st
    have hst := st.toNat_bounds
    rw [evBufReset_table s (j := i) ⟨by omega, by unfold stateTblOffset dataOffset; omega⟩]
    rfl
  · intro i
    rw [evBufReset_table s (j := i) ⟨le_rfl, by unfold stateTblOffset dataOffset; omega⟩]
    rfl

/-! ### Allocation, and stores of the owners -/

theorem itemAddr_inj (base : Nat) {i j : Fin bufferNum} (h : itemAddr base i = itemAddr base j) : i = j := by
  by_contra hne
  have hapart := itemAddr_apart base hne
  omega

/-- The busy flag and `used` of a buffer change. -/
theorem PoolRep.mark {s : EvBuffers} {g : Pool} (h : PoolRep base s g) (j : Fin bufferNum) (b : Bool) (used : Nat) :
    PoolRep base
      ⟨storeBytes (Function.update s.mem (itemAddr base j + stateTblOffset) (if b then 1 else 0))
        (itemAddr base j + usedOffset) (le16 used), s.head, s.tail, s.num⟩
      { g with held := Function.update g.held j b } := by
  have hsame : ∀ x, x < itemAddr base j + usedOffset ∨ itemAddr base j + 288 ≤ x → x ≠ itemAddr base j + stateTblOffset →
      storeBytes (Function.update s.mem (itemAddr base j + stateTblOffset) (if b then 1 else 0))
        (itemAddr base j + usedOffset) (le16 used) x = s.mem x := by
    intro x hused hbusy
    rw [storeBytes_outside (by rw [le16_length]; unfold usedOffset at *; omega), Function.update_of_ne hbusy]
  apply h.frame
  · intro i st
    have hst := st.toNat_bounds
    by_cases hij : i = j
    · subst hij
      apply hsame
      · unfold usedOffset stateTblOffset
        omega
      · omega
    · have hapart := itemAddr_apart base hij
      unfold stateTblOffset at *
      apply hsame
      · unfold usedOffset
        omega
      · omega
  · intro m hm x h₁ h₂
    have hnode := m.node_bounds base
    have hx : x < m.node base + 6 := by omega
    by_cases hmj : m.item = j
    · subst hmj
      apply hsame
      · unfold usedOffset
        omega
      · rcases h₂ with h₂ | ⟨hrx, h₂⟩
        · unfold Msg.node rfRxBufferOffset at *
          unfold stateTblOffset
          split_ifs at * <;> omega
        · rw [h₂]
          unfold Msg.node rfRxBufferOffset stateTblOffset
          rw [if_pos hrx]
          omega
    · have hapart := itemAddr_apart base hmj
      apply hsame
      · unfold usedOffset
        omega
      · unfold stateTblOffset
        omega
  · intro i
    by_cases hij : i = j
    · rw [hij, storeBytes_outside (.inl (by unfold stateTblOffset usedOffset; omega)), Function.update_self,
        Function.update_self]
    · have hapart := itemAddr_apart base hij
      rw [hsame _ (by unfold stateTblOffset usedOffset; omega) (by omega), Function.update_of_ne hij]
      exact h.busy i

/-- The owner of a buffer stores below no queued pointer. -/
theorem PoolRep.write {s : EvBuffers} {g : Pool} (h : PoolRep base s g) {j : Fin bufferNum} {off : Nat} {b : Byte}
    (hk : g.Allows (.write j off b)) :
    PoolRep base { s with mem := Function.update s.mem (itemAddr base j + dataOffset + off) b } g := by
  obtain ⟨hoff, hrx⟩ := hk
  have hheader : ∀ i : Fin bufferNum, ∀ x, itemAddr base i ≤ x → x < itemAddr base i + dataOffset →
      x ≠ itemAddr base j + dataOffset + off := by
    intro i x h₁ h₂
    unfold dataOffset bufferSize at *
    by_cases hij : i = j
    · subst hij
      omega
    · have hapart := itemAddr_apart base hij
      omega
  apply h.frame
  · intro i st
    have hst := st.toNat_bounds
    apply Function.update_of_ne
    apply hheader i
    · omega
    · unfold stateTblOffset dataOffset
      omega
  · intro m hm x h₁ h₂
    apply Function.update_of_ne
    have hnode := m.node_bounds base
    have hx : x < m.node base + 6 := by omega
    by_cases hmj : m.item = j
    · by_cases hmrx : m.rx = true
      · have h128 := hrx m hm hmj hmrx
        rw [← hmj]
        unfold dataOffset rfRxBufferOffset at *
        omega
      · apply hheader m.item
        · omega
        · unfold Msg.node at *
          rw [if_neg hmrx] at *
          unfold dataOffset
          omega
    · have hapart := itemAddr_apart base hmj
      unfold dataOffset bufferSize at *
      omega
  · intro i
    rw [Function.update_of_ne]
    · exact h.busy i
    · apply hheader i
      · omega
      · unfold stateTblOffset dataOffset
        omega

/-- The buffer whose data a pointer points to. -/
theorem find_bufPtr (j : Fin bufferNum) :
    (List.finRange bufferNum).find? (fun i => bufPtr base i false = bufPtr base j false) = some j := by
  cases hf : (List.finRange bufferNum).find? (fun i => bufPtr base i false = bufPtr base j false) with
  | none =>
    have hnone := List.find?_eq_none.mp hf j (List.mem_finRange j)
    simp at hnone
  | some i =>
    have hptr := List.find?_some hf
    rw [decide_eq_true_eq] at hptr
    congr 1
    apply itemAddr_inj base
    unfold bufPtr at hptr
    omega

theorem byte_ite_eq_zero {b : Bool} : (if b then 1 else 0 : Byte) = 0 ↔ b = false := by
  cases b <;> decide

theorem PoolRep.allocate {s : EvBuffers} {g : Pool} (h : PoolRep base s g) :
    ∃ g', g.accept base .allocate (.buffer (evBufAllocate base s).2) = some g' ∧
      PoolRep base (evBufAllocate base s).1 g' := by
  unfold evBufAllocate
  split
  · rename_i i hi
    have hlt : i < bufferNum := List.mem_range.mp (List.mem_of_find?_eq_some hi)
    have hfree : g.held ⟨i, hlt⟩ = false := by
      have hzero := List.find?_some hi
      rw [decide_eq_true_eq, h.busy ⟨i, hlt⟩] at hzero
      exact byte_ite_eq_zero.mp hzero
    refine ⟨{ g with held := Function.update g.held ⟨i, hlt⟩ true }, ?_, ?_⟩
    · have hptr : itemAddr base i + dataOffset = bufPtr base ⟨i, hlt⟩ false := rfl
      unfold Pool.accept
      dsimp only
      rw [hptr, find_bufPtr]
      dsimp only
      rw [hfree]
      rfl
    · exact h.mark ⟨i, hlt⟩ true 0xffff
  · rename_i hnone
    refine ⟨g, ?_, h⟩
    apply if_pos
    intro i
    have hbusy := List.find?_eq_none.mp hnone i (List.mem_range.mpr i.isLt)
    rw [h.busy i] at hbusy
    cases hheld : g.held i with
    | true => rfl
    | false => simp [hheld] at hbusy

theorem isEvBuf_bufPtr (i : Fin bufferNum) (rx : Bool) : isEvBuf base (bufPtr base i rx) = true := by
  have hlt : i.val < 14 := i.isLt
  unfold isEvBuf bufPtr itemAddr dataOffset bufferSize bufferNum sizeofEvBufItem rfRxBufferOffset
  rw [Bool.and_eq_true]
  constructor
  · apply decide_eq_true
    split_ifs <;> omega
  · apply decide_eq_true
    split_ifs <;> omega

theorem PoolRep.free {s : EvBuffers} {g : Pool} (h : PoolRep base s g) (i : Fin bufferNum) :
    (evBufFree base s (bufPtr base i false)).2 = .succ ∧
      PoolRep base (evBufFree base s (bufPtr base i false)).1 { g with held := Function.update g.held i false } := by
  unfold evBufFree
  rw [isEvBuf_bufPtr]
  exact ⟨rfl, h.mark i false 0⟩

/-! ### Posting -/

/-- The node of one message lies apart from the nodes of other buffers, -/
theorem node_apart (base : Nat) {m m' : Msg} (h : m.item ≠ m'.item) :
    m.node base + 12 ≤ m'.node base ∨ m'.node base + 12 ≤ m.node base := by
  have hapart := itemAddr_apart base h
  have hm := m.node_bounds base
  have hm' := m'.node_bounds base
  omega

/-- from all header flags but its own, -/
theorem flag_apart (base : Nat) {m : Msg} {i : Fin bufferNum} {st : BufItemState} (h : ⟨i, false, st⟩ ≠ m) :
    (itemAddr base i + stateTblOffset + st.toNat < m.node base ∨
      m.node base + 4 ≤ itemAddr base i + stateTblOffset + st.toNat) ∧
    itemAddr base i + stateTblOffset + st.toNat ≠ m.node base + stateTblOffset + m.state.toNat := by
  have hst := st.toNat_bounds
  have hmst := m.state.toNat_bounds
  have hnode := m.node_bounds base
  unfold stateTblOffset
  by_cases hi : i = m.item
  · subst hi
    cases hrx : m.rx with
    | true =>
      unfold Msg.node rfRxBufferOffset
      rw [if_pos hrx]
      omega
    | false =>
      have hne : st.toNat ≠ m.state.toNat := by
        intro heq
        apply h
        rw [BufItemState.toNat_inj heq, ← hrx]
      unfold Msg.node
      rw [hrx, if_neg Bool.false_ne_true]
      omega
  · have hapart := itemAddr_apart base hi
    omega

/-- from the first states of received packets in other buffers, -/
theorem rxFlag_apart (base : Nat) {m m' : Msg} (h : m'.item ≠ m.item) :
    (m'.node base + stateTblOffset + 1 < m.node base ∨ m.node base + 4 ≤ m'.node base + stateTblOffset + 1) ∧
    m'.node base + stateTblOffset + 1 ≠ m.node base + stateTblOffset + m.state.toNat := by
  have hst := m.state.toNat_bounds
  have hnode := node_apart base h
  unfold stateTblOffset
  omega

/-- and from the busy flags. -/
theorem busy_apart (base : Nat) (m : Msg) (i : Fin bufferNum) :
    (itemAddr base i + stateTblOffset < m.node base ∨ m.node base + 4 ≤ itemAddr base i + stateTblOffset) ∧
    itemAddr base i + stateTblOffset ≠ m.node base + stateTblOffset + m.state.toNat := by
  have hmst := m.state.toNat_bounds
  have hnode := m.node_bounds base
  unfold stateTblOffset
  by_cases hi : i = m.item
  · subst hi
    unfold Msg.node rfRxBufferOffset
    split_ifs <;> omega
  · have hapart := itemAddr_apart base hi
    omega

theorem PoolRep.item_ne_last {s : EvBuffers} {g : Pool} (h : PoolRep base s g) {pre : List Msg} {m r l : Msg} {rest : List Msg}
    (hq : g.queue = pre ++ m :: r :: rest) (hl : g.queue.getLast? = some l) : m.item ≠ l.item := by
  have hnodup := h.nodup
  rw [hq, List.getLast?_append_of_ne_nil _ (List.cons_ne_nil _ _), List.getLast?_cons_cons] at hl
  rw [hq, List.map_append, List.map_cons] at hnodup
  have hnotin := (List.nodup_cons.mp (List.nodup_append.mp hnodup).2.1).1
  intro heq
  apply hnotin
  rw [heq]
  exact List.mem_map_of_mem (List.mem_of_getLast? hl)

/-- The header flags when only the message `m` comes or goes. -/
theorem PoolRep.flags_of {s : EvBuffers} {g : Pool} (h : PoolRep base s g) {m : Msg} {mem : Nat → Byte} {queue : List Msg}
    (hmem : ∀ m', m' ≠ m → (m' ∈ queue ↔ m' ∈ g.queue))
    (hown : mem (m.node base + stateTblOffset + m.state.toNat) = if m ∈ queue then 1 else 0)
    (hsame : ∀ (i : Fin bufferNum) (st : BufItemState), ⟨i, false, st⟩ ≠ m →
      mem (itemAddr base i + stateTblOffset + st.toNat) = s.mem (itemAddr base i + stateTblOffset + st.toNat))
    (i : Fin bufferNum) (st : BufItemState) :
    mem (itemAddr base i + stateTblOffset + st.toNat) = if ⟨i, false, st⟩ ∈ queue then 1 else 0 := by
  by_cases heq : ⟨i, false, st⟩ = m
  · subst heq
    exact hown
  · rw [if_congr (hmem _ heq) rfl rfl, ← h.flags i st]
    exact hsame i st heq

/-- The links of the queue with one node more. -/
theorem PoolRep.links_append {s : EvBuffers} {g : Pool} (h : PoolRep base s g) {m : Msg}
    (hfresh : ∀ m' ∈ g.queue, m'.item ≠ m.item) {mem : Nat → Byte} (hnext : readNext mem (m.node base) = 0)
    (hlast : ∀ l, g.queue.getLast? = some l → readNext mem (l.node base) = m.node base)
    (hsame : ∀ x, (x < m.node base ∨ m.node base + 4 ≤ x) → x ≠ m.node base + stateTblOffset + m.state.toNat →
      (∀ l, g.queue.getLast? = some l → x < l.node base ∨ l.node base + 4 ≤ x) → mem x = s.mem x) :
    ∀ pre m' rest, g.queue ++ [m] = pre ++ m' :: rest → readNext mem (m'.node base) = firstNode base rest := by
  intro pre m' rest hq
  rcases List.eq_nil_or_concat rest with rfl | ⟨rest, r, rfl⟩
  · obtain ⟨-, heq⟩ := List.append_inj' hq rfl
    cases heq
    exact hnext
  · have hq' : g.queue ++ [m] = (pre ++ m' :: rest) ++ [r] := by
      rw [List.append_assoc, List.cons_append]
      rw [List.concat_eq_append] at hq
      exact hq
    obtain ⟨hpre, heq⟩ := List.append_inj' hq' rfl
    cases heq
    cases rest with
    | nil =>
      apply hlast
      rw [hpre, List.getLast?_append_of_ne_nil _ (List.cons_ne_nil _ _)]
      rfl
    | cons r rest =>
      have hm' : m' ∈ g.queue := by
        rw [hpre]
        simp
      rw [readNext_congr fun x h₁ h₂ => ?_, h.links pre m' (r :: rest) hpre]
      · rfl
      · have hnew := node_apart base (hfresh m' hm')
        apply hsame x
        · omega
        · have hst := m.state.toNat_bounds
          unfold stateTblOffset
          omega
        · intro l hl
          have hold := node_apart base (h.item_ne_last hpre hl)
          omega

/-- A fresh node is linked behind the last one. -/
theorem PoolRep.append {s : EvBuffers} {g : Pool} (h : PoolRep base s g) {m : Msg} (hfresh : ∀ m' ∈ g.queue, m'.item ≠ m.item)
    (hstate : m.rx = true → m.state = .phy2mac) {mem : Nat → Byte} (hnext : readNext mem (m.node base) = 0)
    (hlast : ∀ l, g.queue.getLast? = some l → readNext mem (l.node base) = m.node base)
    (hflag : mem (m.node base + stateTblOffset + m.state.toNat) = 1)
    (hsame : ∀ x, (x < m.node base ∨ m.node base + 4 ≤ x) → x ≠ m.node base + stateTblOffset + m.state.toNat →
      (∀ l, g.queue.getLast? = some l → x < l.node base ∨ l.node base + 4 ≤ x) → mem x = s.mem x) :
    PoolRep base ⟨mem, firstNode base (g.queue ++ [m]), m.node base, (s.num + 1) % 256⟩ { g with queue := g.queue ++ [m] } := by
  constructor
  · rfl
  · intro m' hm'
    rw [List.getLast?_append_of_ne_nil _ (List.cons_ne_nil _ _)] at hm'
    cases hm'
    rfl
  · have hle := h.length_le
    have hnum := h.num
    change (s.num + 1) % 256 = (g.queue ++ [m]).length
    rw [List.length_append, List.length_singleton]
    omega
  · exact h.links_append hfresh hnext hlast hsame
  · change ((g.queue ++ [m]).map Msg.item).Nodup
    rw [List.map_append, List.nodup_append]
    refine ⟨h.nodup, List.nodup_singleton _, fun a ha b hb => ?_⟩
    obtain ⟨m', hm', rfl⟩ := List.mem_map.mp ha
    rw [List.mem_singleton.mp hb]
    exact hfresh m' hm'
  · intro m' hm' hrx
    rcases List.mem_append.mp hm' with hm' | hm'
    · obtain ⟨hst, hold⟩ := h.rx m' hm' hrx
      obtain ⟨hnode, hne⟩ := rxFlag_apart base (hfresh m' hm')
      refine ⟨hst, ?_⟩
      change mem _ = 1
      rw [hsame _ hnode hne ?_, hold]
      intro l hl
      by_cases heq : m' = l
      · right
        rw [heq]
        unfold stateTblOffset
        omega
      · exact (rxFlag_apart base fun hitem => heq (h.item_inj hm' (List.mem_of_getLast? hl) hitem)).1
    · cases List.mem_singleton.mp hm'
      have hst := hstate hrx
      refine ⟨hst, ?_⟩
      rw [hst] at hflag
      exact hflag
  · apply h.flags_of
    · intro m' hne
      rw [List.mem_append, List.mem_singleton]
      exact or_iff_left hne
    · rw [if_pos (List.mem_append_right _ List.mem_cons_self)]
      exact hflag
    · intro i st heq
      obtain ⟨hnode, hne⟩ := flag_apart base heq
      apply hsame _ hnode hne
      intro l hl
      by_cases hl' : ⟨i, false, st⟩ = l
      · right
        rw [← hl']
        change itemAddr base i + 0 + 4 ≤ itemAddr base i + 4 + st.toNat
        omega
      · exact (flag_apart base hl').1
  · intro i
    obtain ⟨hnode, hne⟩ := busy_apart base m i
    rw [← h.busy i]
    exact hsame _ hnode hne fun l _ => (busy_apart base l i).1

theorem firstNode_eq_zero (hbase : 0 < base) {q : List Msg} : firstNode base q = 0 ↔ q = [] := by
  cases q with
  | nil => exact ⟨fun _ => rfl, fun _ => rfl⟩
  | cons m q =>
    have hnode := m.node_bounds base
    constructor
    · intro h
      change m.node base = 0 at h
      unfold itemAddr at hnode
      omega
    · intro h
      cases h

theorem node_lt (hbase : base + bufferNum * sizeofEvBufItem ≤ 4294967296) (m : Msg) : m.node base < 4294967296 := by
  have hnode := m.node_bounds base
  have hlt : m.item.val < 14 := m.item.isLt
  unfold itemAddr bufferNum sizeofEvBufItem at *
  omega

theorem PoolRep.post {s : EvBuffers} {g : Pool} (h : PoolRep base s g) (hpos : 0 < base)
    (hbase : base + bufferNum * sizeofEvBufItem ≤ 4294967296) {m : Msg} (hk : g.Allows (.post m.item m.rx m.state)) :
    (bufMessagePost base s (bufPtr base m.item m.rx) m.state).2 = .succ ∧
      PoolRep base (bufMessagePost base s (bufPtr base m.item m.rx) m.state).1 { g with queue := g.queue ++ [m] } := by
  obtain ⟨hstate, hfresh⟩ := hk
  have hst := m.state.toNat_bounds
  have hout : ∀ x, (x < m.node base ∨ m.node base + 4 ≤ x) → x ≠ m.node base + stateTblOffset + m.state.toNat →
      writeNext (Function.update s.mem (m.node base + stateTblOffset + m.state.toNat) 1) (m.node base) 0 x = s.mem x := by
    intro x hx hne
    rw [writeNext_outside hx, Function.update_of_ne hne]
  have hset : writeNext (Function.update s.mem (m.node base + stateTblOffset + m.state.toNat) 1) (m.node base) 0
      (m.node base + stateTblOffset + m.state.toNat) = 1 := by
    rw [writeNext_outside (.inr (by unfold stateTblOffset; omega)), Function.update_self]
  unfold bufMessagePost
  rw [isEvBuf_bufPtr, node_getHead]
  dsimp only
  rw [if_neg (by decide)]
  by_cases hq : g.queue = []
  · rw [if_pos (h.head.trans ((firstNode_eq_zero hpos).mpr hq))]
    obtain ⟨held, queue⟩ := g
    change queue = [] at hq
    subst hq
    constructor
    · rfl
    · apply h.append hfresh hstate
      · exact readNext_writeNext _ _ (by decide)
      · intro l hl
        cases hl
      · exact hset
      · exact fun x hx hne _ => hout x hx hne
  · have hhead : s.head = firstNode base (g.queue ++ [m]) := by
      rw [h.head]
      cases hcons : g.queue with
      | nil => exact absurd hcons hq
      | cons m' q => rfl
    obtain ⟨l, hl⟩ : ∃ l, g.queue.getLast? = some l := ⟨_, List.getLast?_eq_some_getLast hq⟩
    have hapart := node_apart base (hfresh l (List.mem_of_getLast? hl))
    have hlt := node_lt hbase m
    rw [if_neg fun hzero => hq ((firstNode_eq_zero hpos).mp (h.head.symm.trans hzero)), h.tail l hl,
      readNext_writeNext _ _ hlt, hhead]
    constructor
    · rfl
    · apply h.append hfresh hstate
      · rw [readNext_congr fun x h₁ h₂ => writeNext_outside (by omega)]
        exact readNext_writeNext _ _ (by decide)
      · intro l' hl'
        rw [hl] at hl'
        cases hl'
        exact readNext_writeNext _ _ hlt
      · rw [writeNext_outside (by unfold stateTblOffset; omega)]
        exact hset
      · intro x hx hne hlast
        rw [writeNext_outside (hlast l hl)]
        exact hout x hx hne

/-! ### Polling -/

/-- The state of the first message is found in its table; a received packet's table starts with
its state, whatever follows. -/
theorem PoolRep.find_state {s : EvBuffers} {g : Pool} (h : PoolRep base s g) {m : Msg} {rest : List Msg}
    (hq : g.queue = m :: rest) :
    BufItemState.all.find? (fun i => s.mem (m.node base + stateTblOffset + i.toNat) = 1) = some m.state := by
  have hm : m ∈ g.queue := by
    rw [hq]
    exact List.mem_cons_self
  cases hrx : m.rx with
  | true =>
    obtain ⟨hst, hflag⟩ := h.rx m hm hrx
    rw [hst]
    apply List.find?_cons_of_pos
    exact decide_eq_true hflag
  | false =>
    have hflags : ∀ st : BufItemState, s.mem (m.node base + stateTblOffset + st.toNat) = 1 ↔ st = m.state := by
      intro st
      have hnode : m.node base = itemAddr base m.item := by
        unfold Msg.node
        rw [hrx]
        rfl
      rw [hnode, h.flags m.item st]
      constructor
      · intro hone
        by_contra hne
        rw [if_neg] at hone
        · cases hone
        · intro hmem
          apply hne
          rw [← h.item_inj hmem hm rfl]
      · intro hst
        rw [hst, ← hrx]
        exact if_pos hm
    cases hf : BufItemState.all.find? (fun i => s.mem (m.node base + stateTblOffset + i.toNat) = 1) with
    | none =>
      have hall : m.state ∈ BufItemState.all := by
        cases m.state <;> decide
      have hnone := List.find?_eq_none.mp hf m.state hall
      rw [decide_eq_true_eq, hflags] at hnone
      exact absurd rfl hnone
    | some st =>
      have hone := List.find?_some hf
      rw [decide_eq_true_eq, hflags] at hone
      rw [hone]

/-- The first node is taken off the chain. -/
theorem PoolRep.tail_rep {s : EvBuffers} {g : Pool} (h : PoolRep base s g) {m : Msg} {rest : List Msg}
    (hq : g.queue = m :: rest) :
    PoolRep base ⟨writeNext (Function.update s.mem (m.node base + stateTblOffset + m.state.toNat) 0) (m.node base) 0,
      firstNode base rest, s.tail, (s.num + 255) % 256⟩ { g with queue := rest } := by
  have hsame : ∀ x, (x < m.node base ∨ m.node base + 4 ≤ x) → x ≠ m.node base + stateTblOffset + m.state.toNat →
      writeNext (Function.update s.mem (m.node base + stateTblOffset + m.state.toNat) 0) (m.node base) 0 x = s.mem x := by
    intro x hx hne
    rw [writeNext_outside hx, Function.update_of_ne hne]
  have hst := m.state.toNat_bounds
  have hnodup := h.nodup
  rw [hq, List.map_cons, List.nodup_cons] at hnodup
  have hmem : ∀ m' ∈ rest, m' ∈ g.queue := by
    intro m' hm'
    rw [hq]
    exact List.mem_cons_of_mem m hm'
  have hother : ∀ m' ∈ rest, m'.item ≠ m.item := by
    intro m' hm' hitem
    apply hnodup.1
    rw [← hitem]
    exact List.mem_map_of_mem hm'
  constructor
  · rfl
  · intro l hl
    apply h.tail l
    rw [hq]
    cases rest with
    | nil => cases hl
    | cons r rest => exact hl
  · have hlen := h.length_le
    have hnum := h.num
    change (s.num + 255) % 256 = rest.length
    rw [hq, List.length_cons] at hlen hnum
    omega
  · intro pre m' rest' hrest
    have hm' : m' ∈ rest := by
      change rest = _ at hrest
      rw [hrest]
      simp
    have hlink := h.links (m :: pre) m' rest' (hq.trans (congrArg (List.cons m) hrest))
    rw [← hlink]
    apply readNext_congr
    intro x h₁ h₂
    have hnode := node_apart base (hother m' hm')
    apply hsame
    · omega
    · unfold stateTblOffset
      omega
  · exact hnodup.2
  · intro m' hm' hrx
    obtain ⟨hstate, hflag⟩ := h.rx m' (hmem m' hm') hrx
    obtain ⟨hnode, hne⟩ := rxFlag_apart base (hother m' hm')
    constructor
    · exact hstate
    · rw [← hflag]
      exact hsame _ hnode hne
  · apply h.flags_of
    · intro m' hne
      rw [hq, List.mem_cons]
      exact (or_iff_right hne).symm
    · rw [if_neg fun hin => hother m hin rfl]
      change writeNext (Function.update s.mem _ 0) _ _ _ = 0
      rw [writeNext_outside (.inr (by unfold stateTblOffset; omega))]
      exact Function.update_self _ _ _
    · intro i st heq
      obtain ⟨hnode, hne⟩ := flag_apart base heq
      exact hsame _ hnode hne
  · intro i
    obtain ⟨hnode, hne⟩ := busy_apart base m i
    rw [← h.busy i]
    exact hsame _ hnode hne

theorem PoolRep.poll {s : EvBuffers} {g : Pool} (h : PoolRep base s g) (hpos : 0 < base) :
    ∃ g', g.accept base .poll (.message (bufMessagePoll s).2.1 (bufMessagePoll s).2.2) = some g' ∧
      PoolRep base (bufMessagePoll s).1 g' := by
  unfold bufMessagePoll
  cases hq : g.queue with
  | nil =>
    rw [if_pos (h.head.trans ((firstNode_eq_zero hpos).mpr hq))]
    refine ⟨g, ?_, h⟩
    unfold Pool.accept
    rw [hq]
    rfl
  | cons m rest =>
    have hne : s.head ≠ 0 := by
      intro hzero
      have hnil := (firstNode_eq_zero hpos).mp (h.head.symm.trans hzero)
      rw [hq] at hnil
      cases hnil
    have hhead : s.head = m.node base := by
      rw [h.head, hq]
      rfl
    have hlink : readNext (Function.update s.mem (m.node base + stateTblOffset + m.state.toNat) 0) (m.node base) =
        firstNode base rest := by
      rw [← h.links [] m rest hq]
      apply readNext_congr
      intro x h₁ h₂
      apply Function.update_of_ne
      unfold stateTblOffset
      omega
    rw [if_neg hne, hhead, h.find_state hq]
    dsimp only
    rw [hlink]
    refine ⟨{ g with queue := rest }, ?_, h.tail_rep hq⟩
    unfold Pool.accept
    rw [hq]
    apply if_pos
    rw [node_ptr]
    exact ⟨rfl, rfl⟩

/-! ### Runs -/

/-- The nodes from `p` up to the end of the chain. -/
inductive ChainFrom (mem : Nat → Byte) : Nat → List Nat → Prop
  | nil : ChainFrom mem 0 []
  | cons {p : Nat} {nodes : List Nat} (hp : p ≠ 0) (h : ChainFrom mem (readNext mem p) nodes) : ChainFrom mem p (p :: nodes)

theorem PoolRep.chain {s : EvBuffers} {g : Pool} (h : PoolRep base s g) (hpos : 0 < base) :
    ChainFrom s.mem s.head (g.queue.map (Msg.node base)) := by
  have hrest : ∀ rest pre, g.queue = pre ++ rest → ChainFrom s.mem (firstNode base rest) (rest.map (Msg.node base)) := by
    intro rest
    induction rest with
    | nil => exact fun _ _ => .nil
    | cons m rest ih =>
      intro pre hq
      have hne : firstNode base (m :: rest) ≠ 0 := by
        intro hzero
        cases (firstNode_eq_zero hpos).mp hzero
      apply ChainFrom.cons hne
      rw [show readNext s.mem (firstNode base (m :: rest)) = firstNode base rest from h.links pre m rest hq]
      apply ih (pre ++ [m])
      rw [hq, List.append_assoc]
      rfl
  rw [h.head]
  exact hrest g.queue [] rfl

/-- A call on the buffers, with its answer shown to the pool. -/
def poolStep (base : Nat) (c : EvBuffers × Option Pool) (k : EvCall) : (EvBuffers × Option Pool) × EvAns :=
  let r := evStep base c.1 k
  ((r.1, c.2.bind fun g => g.accept base k r.2), r.2)

def PoolLegal (c : EvBuffers × Option Pool) (k : EvCall) : Prop := ∀ g ∈ c.2, g.Allows k

instance (g : Pool) (k : EvCall) : Decidable (g.Allows k) := by
  cases k <;> (unfold Pool.Allows; infer_instance)

instance (c : EvBuffers × Option Pool) (k : EvCall) : Decidable (PoolLegal c k) :=
  match h : c.2 with
  | none => isTrue fun g hg => by
    rw [h] at hg
    cases hg
  | some g => decidable_of_iff (g.Allows k) ⟨fun hk g' hg => by
      rw [h] at hg
      cases hg
      exact hk, fun hk => hk g h⟩

/-- One call keeps the buffers in step with the pool. -/
theorem PoolRep.step {s : EvBuffers} {g : Pool} (h : PoolRep base s g) (hpos : 0 < base)
    (hbase : base + bufferNum * sizeofEvBufItem ≤ 4294967296) {k : EvCall} (hk : g.Allows k) :
    ∃ g', g.accept base k (evStep base s k).2 = some g' ∧ PoolRep base (evStep base s k).1 g' := by
  cases k with
  | allocate => exact h.allocate
  | free i =>
    obtain ⟨hsts, hrep⟩ := h.free i
    refine ⟨_, ?_, hrep⟩
    change g.accept base (.free i) (.status (evBufFree base s (bufPtr base i false)).2) = _
    rw [hsts]
    rfl
  | write i off b => exact ⟨g, rfl, h.write hk⟩
  | post i rx state =>
    obtain ⟨hsts, hrep⟩ := @PoolRep.post base s g h hpos hbase ⟨i, rx, state⟩ hk
    refine ⟨_, ?_, hrep⟩
    change g.accept base (.post i rx state) (.status (bufMessagePost base s (bufPtr base i rx) state).2) = _
    dsimp only at hsts
    rw [hsts]
    rfl
  | poll => exact h.poll hpos

/-- After `ev_buf_reset` the buffers behave as a pool with a queue: buffers are handed out only
when they are free and refused only when none is, messages come out once each, as posted and in
order, and `num` counts the chain from `head`. -/
theorem evBuffers_pool {base : Nat} (hpos : 0 < base) (hbase : base + bufferNum * sizeofEvBufItem ≤ 4294967296)
    (s : EvBuffers) {ks : List EvCall}
    (hks : Refine.Legal (poolStep base) PoolLegal (evBufReset base s, some Pool.empty) ks) :
    ∃ s' g, (Refine.run (poolStep base) (evBufReset base s, some Pool.empty) ks).1 = (s', some g) ∧
      ChainFrom s'.mem s'.head (g.queue.map (Msg.node base)) ∧ s'.num = g.queue.length := by
  have hinv : ∃ g, (Refine.run (poolStep base) (evBufReset base s, some Pool.empty) ks).1.2 = some g ∧
      PoolRep base (Refine.run (poolStep base) (evBufReset base s, some Pool.empty) ks).1.1 g := by
    apply @Refine.run_invariant _ _ _ _ _ (fun c => ∃ g, c.2 = some g ∧ PoolRep base c.1 g) _ _ _ ⟨_, rfl, evBufReset_rep s⟩ hks
    rintro ⟨s, a⟩ k ⟨g, hg, hrep⟩ hk
    obtain ⟨g', hacc, hrep'⟩ := hrep.step hpos hbase (hk g hg)
    dsimp only at hg
    subst hg
    exact ⟨g', hacc, hrep'⟩
  obtain ⟨g, hg, hrep⟩ := hinv
  exact ⟨_, g, Prod.ext rfl hg, hrep.chain hpos, hrep.num⟩

/-- Two buffers are posted, the second as a received packet over its old bytes, and polled. -/
theorem evBuffers_pool_packets :
    ∃ s g, (Refine.run (poolStep 0x840000) (evBufReset 0x840000 ⟨fun _ => 1, 5, 7, 9⟩, some Pool.empty)
        [.allocate, .allocate, .write 1 120 1, .post 0 false .mac2nwk, .post 1 true .phy2mac, .write 1 140 2, .poll,
          .free 0, .allocate, .poll]).1 = (s, some g) ∧
      ChainFrom s.mem s.head (g.queue.map (Msg.node 0x840000)) ∧ s.num = g.queue.length :=
  evBuffers_pool (by decide) (by decide) _ (by decide +kernel)

end Nodes

end Rf4ce.Os

import Rf4ce.Nv.Duplicates

/-! Changing the sector: the valid entries of the full sector are copied to the other one. -/
namespace Rf4ce.Nv
open Crash Drv Common

/-- An entry that is copied when `itemId` is written. -/
def survives (single : Bool) (itemId : Byte) (e : Entry) : Bool :=
  e.stage = .valid && (e.itemId ≠ itemId || !single)

def Entry.copied (c : NvCfg) (e : Entry) : Entry :=
  { e with resv := List.replicate (sizeofNvInfoIdx c - 8) 0 }

/-- The log of the new sector after the copy. -/
def survivors (c : NvCfg) (single : Bool) (itemId : Byte) (es : List Entry) : List Entry :=
  (es.filter (survives single itemId)).map (Entry.copied c)

section Survivors
variable (c : NvCfg) (single : Bool) (itemId : Byte)

theorem mem_survivors {es : List Entry} {e : Entry} (h : e ∈ survivors c single itemId es) :
    ∃ e' ∈ es, survives single itemId e' = true ∧ e'.copied c = e := by
  obtain ⟨e', he', heq⟩ := List.mem_map.mp h
  obtain ⟨hmem, hsurv⟩ := List.mem_filter.mp he'
  exact ⟨e', hmem, hsurv, heq⟩

theorem survivors_valid {es : List Entry} {e : Entry} (h : e ∈ survivors c single itemId es) :
    e.stage = .valid := by
  obtain ⟨e', -, hsurv, heq⟩ := mem_survivors c single itemId h
  simp only [survives, Bool.and_eq_true, decide_eq_true_eq] at hsurv
  rw [← heq]
  exact hsurv.1

theorem survivors_resv {es : List Entry} {e : Entry} (h : e ∈ survivors c single itemId es) :
    e.resv = List.replicate (sizeofNvInfoIdx c - 8) 0 := by
  obtain ⟨e', -, -, heq⟩ := mem_survivors c single itemId h
  rw [← heq]
  rfl

theorem survivors_length_le (es : List Entry) : (survivors c single itemId es).length ≤ es.length := by
  rw [survivors, List.length_map]
  exact List.length_filter_le _ _

theorem survivors_sum_le (es : List Entry) :
    ((survivors c single itemId es).map Entry.slotLen).sum ≤ (es.map Entry.slotLen).sum := by
  induction es with
  | nil => exact Nat.le_refl _
  | cons e es ih =>
    simp only [survivors, List.filter_cons] at ih ⊢
    split_ifs
    · simp only [List.map_cons, List.sum_cons]
      exact Nat.add_le_add_left ih _
    · simp only [List.map_cons, List.sum_cons]
      omega

theorem survivors_take_succ {es : List Entry} {i : Nat} (h : i < es.length) :
    survivors c single itemId (es.take (i + 1)) = survivors c single itemId (es.take i) ++
      if survives single itemId es[i] then [es[i].copied c] else [] := by
  rw [List.take_succ_eq_append_getElem h, survivors, survivors, List.filter_append, List.map_append]
  cases hs : survives single itemId es[i] <;> simp [hs]

variable {c} in
theorem nextResv_eq {es : List Entry}
    (h : ∀ e ∈ es, e.resv = List.replicate (sizeofNvInfoIdx c - 8) 0) :
    nextResv c es = List.replicate (sizeofNvInfoIdx c - 8) 0 := by
  unfold nextResv
  cases hlast : es.getLast? with
  | none => rfl
  | some e => exact h e (List.mem_of_getLast? hlast)

variable {c} in
theorem chainOk_of_valid {es : List Entry} (h : ∀ e ∈ es, e.stage = .valid) (id s : Nat) :
    chainOk c id s es = true := by
  unfold chainOk
  cases hlast : es.getLast? with
  | none => rfl
  | some e => exact Entry.crcOk_of_valid (h e (List.mem_of_getLast? hlast)) c _

end Survivors

section Geometry
variable (c : NvCfg) (id : Nat)

theorem sect_apart {s s' : Nat} (h : s ≠ s') :
    moduleSectEnd c id s ≤ moduleSectStart c id s' ∨ moduleSectEnd c id s' ≤ moduleSectStart c id s := by
  rcases Nat.lt_or_gt_of_ne h with h | h
  · exact .inl (moduleSect_disjoint c id h)
  · exact .inr (moduleSect_disjoint c id h)

/-- A log that fits one sector fits the other one. -/
theorem itemOff_fits {s s' : Nat} {es es' : List Entry}
    (hle : (es'.map Entry.slotLen).sum ≤ (es.map Entry.slotLen).sum)
    (hfit : itemOff c id s es ≤ moduleSectEnd c id s) :
    itemOff c id s' es' ≤ moduleSectEnd c id s' := by
  unfold itemOff at *
  rw [moduleSectEnd_eq, moduleContextStart_eq] at *
  omega

end Geometry

/-- A record read from slot `n` of a sector with the log `es`. -/
def SlotRecord (c : NvCfg) (id s : Nat) (es : List Entry) (n : Nat) (r : NvInfoIdx) : Prop :=
  (∃ h : n < es.length, r = es[n].idx (itemOff c id s (es.take n))) ∨
    es.length ≤ n ∧ ∃ o st, r = idleIdx c o st ∧
      (o = 0xffffffff ∨ n = es.length ∧ o = itemOff c id s es)

section Table
variable {c : NvCfg} {id s s' : Nat} {marked single : Bool} {itemId : Byte} {g : Flash} {es : List Entry}

/-- The copy loop after `i` entries of the old sector `s`. -/
structure CompactInv (c : NvCfg) (id s s' : Nat) (marked single : Bool) (itemId : Byte) (es : List Entry)
    (i : Nat) (st : CompactState) (g : Flash) : Prop where
  place : i ≤ es.length
  old : SectorTable c id s marked g es
  expected : (if st.startChk then moduleContextStart c id s else alignUp4 (st.offsetPrev + st.sizePrev)) =
    itemOff c id s (es.take i)
  count : st.wItemIdx = (survivors c single itemId (es.take i)).length
  used : st.sizeusedAddr = itemOff c id s' (survivors c single itemId (es.take i))
  rep : SectorRep c id s' false g (survivors c single itemId (es.take i))

variable (hid : id < dsMaxModuls) (hs : s < 2) (hs' : s' < 2) (hne : s ≠ s')

include hid hs in
theorem SectorTable.slotRecord (h : SectorTable c id s marked g es) {n : Nat}
    (hn : n < moduleIdxNum c id) : SlotRecord c id s es n (readInfoIdx c g (idxAddr c id s n)) := by
  by_cases hin : n < es.length
  · exact .inl ⟨hin, h.readInfoIdx_entry hid hs hin⟩
  · obtain ⟨o, st, hread, ho, -⟩ := h.readInfoIdx_idle hid hs (Nat.le_of_not_lt hin) hn
    exact .inr ⟨Nat.le_of_not_lt hin, o, st, hread, ho⟩

include hid hs in
/-- The free slot behind the log ends the search. -/
theorem nvCompactItem_idle {st : CompactState}
    (hinv : CompactInv c id s s' marked single itemId es es.length st g) (o : Nat) (state : Byte)
    (ho : o = 0xffffffff ∨ o = itemOff c id s es) :
    nvCompactItem c single id itemId s s' st (idleIdx c o state) = pure (.stop st) := by
  have hexp := hinv.expected
  rw [List.take_length] at hexp
  have hoff := hinv.old.itemOff_lt hid hs
  have hfits := hinv.old.fits
  have hlow := contextStart_le_itemOff c id s es
  have hend := moduleSectEnd_le c hid hs
  have hsize : moduleSectEnd c id s - itemOff c id s es < 0xffff := by
    have hend' := moduleSectEnd_eq c id s
    have hctx := moduleContextStart_eq c id s
    rcases moduleInfoSize_cases id with ⟨-, h⟩ | ⟨-, h⟩ <;> omega
  rw [nvCompactItem, hexp]
  rw [if_pos]
  rcases ho with rfl | rfl
  · refine .inl ?_
    change ¬ 0xffffffff = _
    omega
  · refine .inr ?_
    change u32Sub (moduleSectEnd c id s) (itemOff c id s es) < 0xffff
    rw [u32Sub_eq hfits (by omega)]
    exact hsize

/-- The selection of the copy loop, made on the index record. -/
theorem survives_idx (single : Bool) (itemId : Byte) (e : Entry) (off : Nat) :
    (itemValidFlagCheck (e.idx off).usedState && (decide ((e.idx off).itemId ≠ itemId) ||
      (decide ((e.idx off).itemId = itemId) && !single))) = survives single itemId e := by
  have hflag : itemValidFlagCheck (e.idx off).usedState = decide (e.stage = .valid) := e.state_validFlag
  rw [hflag, survives]
  change (_ && (decide (e.itemId ≠ itemId) || (decide (e.itemId = itemId) && !single))) = _
  by_cases h : e.itemId = itemId <;> simp [h]

include hid hs' hne in
/-- Copying a valid entry of the old sector behind the entries copied before. -/
theorem nvCopyItem_wp {i : Nat} (hi : i < es.length) (hv : es[i].stage = .valid) {news : List Entry}
    (hold : SectorTable c id s marked g es) (hrep : SectorRep c id s' false g news)
    (hvalid : ∀ e ∈ news, e.stage = .valid)
    (hresv : ∀ e ∈ news, e.resv = List.replicate (sizeofNvInfoIdx c - 8) 0)
    (hcount : news.length < moduleIdxNum c id)
    (hfit : itemOff c id s' news + es[i].size ≤ moduleSectEnd c id s') :
    wp (fun x => moduleSectStart c id s' + 4 ≤ x ∧ x < moduleSectEnd c id s')
      (nvWriteItem c es[i].single id es[i].itemId s' news.length es[i].payload.length
        (.flashCopy (itemOff c id s (es.take i))))
      (fun r g' => r = .succ ∧ SectorTable c id s marked g' es ∧
        SectorRep c id s' false g' (news ++ [es[i].copied c]))
      (fun g' => ∃ es', SectorRep c id s' false g' es') g := by
  have hup := @itemOff_take_le c id s es i hi
  have hslot := es[i].size_le_slotLen
  have hsize := es[i].size_eq
  have hfits := hold.fits
  have hlt := hold.size_lt hi
  have hcopy : (es[i].copied c).size = es[i].size := rfl
  have happart := sect_apart c id hne
  have hitem := (hold.entry i hi).item (by rw [hv]; rfl)
  have hctx := contextStart_le_itemOff c id s (es.take i)
  have hctx' := contextStart_le_itemOff c id s' news
  have hstart := moduleContextStart_eq c id s
  have hstart' := moduleContextStart_eq c id s'
  have hwrite := @nvWriteItem_wp c id s' g news hid hs' hrep hcount (es[i].copied c) hv
    (by rw [nextResv_eq hresv]; rfl) hlt (.flashCopy (itemOff c id s (es.take i)))
    (fun g' hg' hblank => by
      refine nvCopyPayload_stores c (es[i].copied c) es[i] (itemOff c id s (es.take i)) rfl rfl hlt ?_ hblank ?_
      · refine (bytes_congr fun x h₁ h₂ => ?_).trans hitem
        exact hg' x (by omega)
      · change itemOff c id s (es.take i) + es[i].size ≤ _ ∨ _ + es[i].payload.length ≤ _
        omega)
  apply wp_mono (wp_frame hwrite)
  · intro r g' hpost
    obtain ⟨hr, hframe⟩ := hpost
    rw [if_pos ⟨chainOk_of_valid hvalid id s', hfit⟩] at hr
    obtain ⟨rfl, hrep'⟩ := hr
    exact ⟨rfl, hold.congr fun x h₁ h₂ => hframe x (by omega), hrep'⟩
  · intro g' hcut
    rcases hcut.1 with h | ⟨e', -, h⟩ | h
    · exact ⟨_, h⟩
    · exact ⟨_, h⟩
    · exact ⟨_, h⟩

include hid hs in
/-- An entry of the log passes the checks of the copy loop. -/
theorem SectorTable.compactCheck (h : SectorTable c id s marked g es) {i : Nat} (hi : i < es.length) :
    ¬ ((es[i].idx (itemOff c id s (es.take i))).offset ≠ itemOff c id s (es.take i) ∨
      u32Sub (moduleSectEnd c id s) (es[i].idx (itemOff c id s (es.take i))).offset <
        (es[i].idx (itemOff c id s (es.take i))).size) := by
  have hup := @itemOff_take_le c id s es i hi
  have hslot := es[i].size_le_slotLen
  have hfits := h.fits
  have hend := moduleSectEnd_le c hid hs
  change ¬ (itemOff c id s (es.take i) ≠ itemOff c id s (es.take i) ∨
    u32Sub (moduleSectEnd c id s) (itemOff c id s (es.take i)) < es[i].size)
  rw [u32Sub_eq (by omega) (by omega)]
  omega

theorem Entry.state_single {e : Entry} (h : e.stage = .valid) :
    decide (e.state = itemFieldValidSingle) = e.single := by
  unfold state
  rw [h]
  cases e.single <;> decide

/-- The payload length that the copy loop gets from an index record. -/
theorem Entry.size_sub_header {e : Entry} (h : e.size < 65536) :
    u32Sub e.size sizeofItemHdr % 65536 = e.payload.length := by
  have hsize := e.size_eq
  change u32Sub e.size 8 % 65536 = _
  rw [u32Sub_eq (by omega) (by omega)]
  omega

/-- The next survivor has room in the other sector. -/
theorem survivor_room (hold : SectorTable c id s marked g es) {i : Nat} (hi : i < es.length)
    (hsurv : survives single itemId es[i] = true) :
    (survivors c single itemId (es.take i)).length < moduleIdxNum c id ∧
      itemOff c id s' (survivors c single itemId (es.take i)) + es[i].slotLen ≤ moduleSectEnd c id s' := by
  have hsucc := survivors_take_succ c single itemId hi
  have hup := @itemOff_take_le c id s es i hi
  have hfits := hold.fits
  constructor
  · have hlen := survivors_length_le c single itemId (es.take i)
    have hcount := hold.count
    rw [List.length_take] at hlen
    omega
  · have hsum := survivors_sum_le c single itemId (es.take (i + 1))
    have htake : itemOff c id s (es.take (i + 1)) ≤ moduleSectEnd c id s := by
      rw [itemOff_take_succ hi]
      omega
    have hle := @itemOff_fits c id s s' _ _ hsum htake
    rw [hsucc, hsurv, itemOff_append] at hle
    exact hle

include hid hs hs' hne in
/-- One entry of the old log: it is copied when it survives. -/
theorem nvCompactItem_entry {i : Nat} (hi : i < es.length) {st : CompactState}
    (hinv : CompactInv c id s s' marked single itemId es i st g) :
    wp (fun x => moduleSectStart c id s' + 4 ≤ x ∧ x < moduleSectEnd c id s')
      (nvCompactItem c single id itemId s s' st (es[i].idx (itemOff c id s (es.take i))))
      (fun r g' => ∃ st', r = .next st' ∧
        CompactInv c id s s' marked single itemId es (i + 1) st' g')
      (fun g' => ∃ es', SectorRep c id s' false g' es') g := by
  have hnow : ∃ es', SectorRep c id s' false g es' := ⟨_, hinv.rep⟩
  have hold := hinv.old
  have hoff := hold.itemOff_lt hid hs
  have hup := @itemOff_take_le c id s es i hi
  have hslot := es[i].size_le_slotLen
  have hnext : alignUp4 (itemOff c id s (es.take i) + es[i].size) = itemOff c id s (es.take (i + 1)) := by
    rw [alignUp4_itemOff c id s (by omega), itemOff_take_succ hi]
  have hsucc := survivors_take_succ c single itemId hi
  rw [nvCompactItem, hinv.expected, if_neg (hold.compactCheck hid hs hi)]
  dsimp only
  rw [survives_idx]
  cases hsurv : survives single itemId es[i] with
  | false =>
    rw [hsurv] at hsucc
    simp only [Bool.false_eq_true, if_false, List.append_nil] at hsucc ⊢
    refine wp_pure ⟨_, rfl, ?_⟩ hnow
    refine ⟨hi, hold, hnext, ?_, ?_, ?_⟩
    · rw [hsucc]
      exact hinv.count
    · rw [hsucc]
      exact hinv.used
    · rw [hsucc]
      exact hinv.rep
  | true =>
    obtain ⟨hcount, hfit⟩ := @survivor_room c id s s' marked single itemId g es hold i hi hsurv
    rw [hsurv] at hsucc
    simp only [if_true] at hsucc ⊢
    have hv : es[i].stage = .valid := by
      simp only [survives, Bool.and_eq_true, decide_eq_true_eq] at hsurv
      exact hsurv.1
    have hhdr := hold.readItemHdr_entry hi (by rw [hv]; rfl)
    apply wp_bind
    refine wp_query ?_ hnow
    change wp _ (if (decide ((readItemHdr g (itemOff c id s (es.take i))).used = _) &&
      !idxCrcCheck c _ (readItemHdr g (itemOff c id s (es.take i)))) = true then _ else _) _ _ g
    rw [hhdr, Entry.idxCrcCheck_of_valid hv, Bool.not_true, Bool.and_false, if_neg Bool.false_ne_true]
    -- the copy has the same id, kind and payload
    have hsgl : decide ((es[i].idx (itemOff c id s (es.take i))).usedState = itemFieldValidSingle) =
        es[i].single := Entry.state_single hv
    have hlen : u32Sub (es[i].idx (itemOff c id s (es.take i))).size sizeofItemHdr % 65536 =
        es[i].payload.length := Entry.size_sub_header (hold.size_lt hi)
    change wp _ (nvWriteItem c _ id es[i].itemId s' st.wItemIdx _ _ >>= _) _ _ g
    rw [hsgl, hlen, hinv.count]
    apply wp_seq (nvCopyItem_wp hid hs' hne hi hv hold hinv.rep (fun e he => survivors_valid c single itemId he)
      (fun e he => survivors_resv c single itemId he) hcount (by omega))
    · exact fun _ hx => hx
    · exact fun _ hcut _ => hcut
    intro r g' hpost _
    obtain ⟨rfl, hold', hrep⟩ := hpost
    have hused : alignUp4 (st.sizeusedAddr + es[i].size) =
        itemOff c id s' (survivors c single itemId (es.take (i + 1))) := by
      have hend' := moduleSectEnd_le c hid hs'
      rw [hinv.used, hsucc, itemOff_append]
      exact alignUp4_itemOff c id s' (e := es[i]) (by omega)
    rw [← hsucc] at hrep
    refine wp_pure ⟨_, rfl, hi, hold', hnext, ?_, hused, hrep⟩ ⟨_, hrep⟩
    rw [hsucc, List.length_append]
    rfl

include hid hs hs' hne in
/-- A group of records read from consecutive slots. -/
theorem nvCompactGroup_wp (l : List NvInfoIdx) {i : Nat} {st : CompactState}
    (hinv : CompactInv c id s s' marked single itemId es i st g)
    (hl : ∀ j (h : j < l.length), SlotRecord c id s es (i + j) l[j]) :
    wp (fun x => moduleSectStart c id s' + 4 ≤ x ∧ x < moduleSectEnd c id s')
      (nvCompactGroup c single id itemId s s' st l)
      (fun r g' => ∃ st',
        r = .next st' ∧ CompactInv c id s s' marked single itemId es (i + l.length) st' g' ∨
        r = .stop st' ∧ CompactInv c id s s' marked single itemId es es.length st' g')
      (fun g' => ∃ es', SectorRep c id s' false g' es') g := by
  induction l generalizing i st g with
  | nil => exact wp_pure ⟨st, .inl ⟨rfl, hinv⟩⟩ ⟨_, hinv.rep⟩
  | cons r l ih =>
    have hrec := hl 0 (Nat.zero_lt_succ _)
    rw [Nat.add_zero, List.getElem_cons_zero] at hrec
    rcases hrec with ⟨hi, rfl⟩ | ⟨hi, o, state, rfl, ho⟩
    · apply wp_bind
      apply wp_mono (nvCompactItem_entry hid hs hs' hne hi hinv)
      · intro r g' hr
        obtain ⟨st', rfl, hinv'⟩ := hr
        have hrest := ih hinv' fun j hj => by
          have := hl (j + 1) (Nat.succ_lt_succ hj)
          rwa [List.getElem_cons_succ, show i + (j + 1) = i + 1 + j by omega] at this
        rw [show i + 1 + l.length = i + (l.length + 1) by omega] at hrest
        exact hrest
      · exact fun _ h => h
    · -- only the slot right behind the log is reached
      have hplace := hinv.place
      obtain rfl : i = es.length := by omega
      have ho' : o = 0xffffffff ∨ o = itemOff c id s es := ho.imp_right And.right
      have hidle := nvCompactItem_idle hid hs hinv o state ho'
      rw [nvCompactGroup, hidle]
      apply wp_bind
      apply wp_pure
      · exact wp_pure ⟨st, .inr ⟨rfl, hinv⟩⟩ ⟨_, hinv.rep⟩
      · exact ⟨_, hinv.rep⟩

include hid hs hs' hne in
/-- The copy loop ends with the survivors of the whole log in the new sector. -/
theorem nvCompactLoop_wp (fuel i : Nat) (hi : i ≤ moduleIdxNum c id)
    (hfuel : moduleIdxNum c id - i ≤ fuel) {st : CompactState}
    (hinv : CompactInv c id s s' marked single itemId es i st g) :
    wp (fun x => moduleSectStart c id s' + 4 ≤ x ∧ x < moduleSectEnd c id s')
      (nvCompactLoop c single id itemId s s' fuel (idxAddr c id s i) (moduleIdxNum c id - i) st)
      (fun r g' => ∃ st', (r = .next st' ∨ r = .stop st') ∧
        CompactInv c id s s' marked single itemId es es.length st' g')
      (fun g' => ∃ es', SectorRep c id s' false g' es') g := by
  have hdone (hi' : moduleIdxNum c id - i = 0) :
      CompactInv c id s s' marked single itemId es es.length st g := by
    have h₁ := hinv.place
    have h₂ := hinv.old.count
    rwa [show es.length = i by omega]
  induction fuel generalizing i st g with
  | zero => exact wp_pure ⟨st, .inl rfl, hdone (by omega)⟩ ⟨_, hinv.rep⟩
  | succ fuel ih =>
    by_cases h0 : moduleIdxNum c id - i = 0
    · rw [nvCompactLoop, if_pos h0]
      exact wp_pure ⟨st, .inl rfl, hdone h0⟩ ⟨_, hinv.rep⟩
    · rw [nvCompactLoop, if_neg h0]
      dsimp only
      generalize hk : (if moduleIdxNum c id - i > 4 then 4 else moduleIdxNum c id - i) = k
      obtain ⟨hkn, hpos⟩ : k ≤ moduleIdxNum c id - i ∧ 0 < k := by split_ifs at hk <;> omega
      have hslot (j : Nat) : idxAddr c id s i + j * sizeofNvInfoIdx c = idxAddr c id s (i + j) := by
        unfold idxAddr
        rw [Nat.add_mul, Nat.add_assoc]
      have hlen : (readInfoIdxs c g (idxAddr c id s i) k).length = k := by simp [readInfoIdxs]
      apply wp_bind
      apply wp_query _ ⟨_, hinv.rep⟩
      apply wp_bind
      apply wp_mono (nvCompactGroup_wp hid hs hs' hne (readInfoIdxs c g (idxAddr c id s i) k) hinv _)
      · intro r g' hr
        obtain ⟨st', ⟨rfl, hinv'⟩ | ⟨rfl, hinv'⟩⟩ := hr
        · rw [hlen] at hinv'
          dsimp only
          rw [hslot, Nat.sub_sub]
          apply ih (i + k) (by omega) (by omega) hinv'
          intro hend
          have h₁ := hinv'.place
          have h₂ := hinv'.old.count
          rwa [show es.length = i + k by omega]
        · exact wp_pure ⟨st', .inr rfl, hinv'⟩ ⟨_, hinv'.rep⟩
      · exact fun _ h => h
      · intro j hj
        rw [hlen] at hj
        have hrec := hinv.old.slotRecord hid hs (n := i + j) (by omega)
        simpa [readInfoIdxs, hslot] using hrec

/-! ### The sector update -/

def HasTable (c : NvCfg) (id s : Nat) (g : Flash) : Prop :=
  ∃ marked es, SectorTable c id s marked g es

/-- A sector update at any point: the old sector still holds the whole log, the other one is
not in use. -/
structure UpdateCut (c : NvCfg) (id s s' : Nat) (marked : Bool) (es : List Entry) (g : Flash) :
    Prop where
  old : CleanedRep c id s marked es g
  dead : SectDead c id g s'
  table : HasTable c id s' g

theorem HasTable.congr (h : HasTable c id s g) {g' : Flash}
    (hg : ∀ x, moduleSectStart c id s + 4 ≤ x → x < moduleSectEnd c id s → g' x = g x) :
    HasTable c id s g' := by
  obtain ⟨marked, es, h⟩ := h
  exact ⟨marked, es, h.congr hg⟩

theorem sectStart_lt (c : NvCfg) (id s : Nat) :
    moduleSectStart c id s + 256 ≤ moduleContextStart c id s ∧
      moduleContextStart c id s ≤ moduleSectStart c id s + 512 := by
  rw [moduleContextStart_eq]
  rcases moduleInfoSize_cases id with ⟨h, -⟩ | ⟨h, -⟩ <;> omega

/-- A sector has its tables first and at least 3840 bytes of items behind them. -/
theorem sect_inner (c : NvCfg) (id s : Nat) :
    moduleSectStart c id s + 256 ≤ moduleContextStart c id s ∧
      moduleContextStart c id s ≤ moduleSectStart c id s + 512 ∧
      moduleContextStart c id s + 3840 ≤ moduleSectEnd c id s :=
  ⟨(sectStart_lt c id s).1, (sectStart_lt c id s).2, contextStart_le_sectEnd c id s⟩

/-- Erasing a sector, seen from the module. -/
theorem eraseSect_wp (c : NvCfg) (id s' : Nat) (f : Flash) :
    wp (fun x => moduleSectStart c id s' ≤ x ∧ x < moduleSectEnd c id s')
      (flashEraseSectors (moduleSectStart c id s') (nvSectorSize id / flashSectorSize))
      (fun _ g => ∀ x, moduleSectStart c id s' ≤ x → x < moduleSectEnd c id s' → g x = 0xff)
      (fun g => g = f ∨ SectDead c id g s' ∧ HasTable c id s' g) f := by
  have hnum : 4096 * (nvSectorSize id / flashSectorSize) = nvSectorSize id := by
    unfold flashSectorSize
    rcases moduleInfoSize_cases id with ⟨-, h⟩ | ⟨-, h⟩ <;> rw [h]
  have hend := moduleSectEnd_eq c id s'
  have hctx := sectStart_lt c id s'
  have herase := flashEraseSectors_wp f (moduleSectStart_mod c id s') (nvSectorSize id / flashSectorSize)
  rw [hnum, ← hend] at herase
  apply wp_mono herase
  · intro _ g hg x h₁ h₂
    rw [hg]
    exact eraseRange_in h₁ (by omega)
  · intro g hg
    obtain ⟨k, hk, rfl⟩ := hg
    by_cases hk0 : k = 0
    · rw [hk0]
      exact .inl (eraseRange_zero f _)
    · have herased {x : Nat} (h₁ : moduleSectStart c id s' ≤ x) (h₂ : x < moduleSectStart c id s' + 4096) :
          f.eraseRange (moduleSectStart c id s') k x = 0xff := eraseRange_in h₁ (by omega)
      refine .inr ⟨.of_erased fun x h₁ h₂ => herased h₁ (by omega), false, [], .of_erased fun x h₁ h₂ => ?_⟩
      exact herased (by omega) (by omega)

/-- The end of a sector update: older duplicates are deleted, and what survives of the log is in the
other sector, whose header is still to be written. -/
def UpdateEnd (c : NvCfg) (id s s' : Nat) (marked single : Bool) (itemId : Byte) (len : Nat) (es : List Entry)
    (r : Except NvSts Nat) (g : Flash) : Prop :=
  ∃ es', Shadowed es es' ∧ SectorRep c id s marked g es' ∧
    SectorRep c id s' false g (survivors c single itemId es') ∧
    (∀ x, moduleSectStart c id s' ≤ x → x < moduleSectStart c id s' + 4 → g x = 0xff) ∧
    r = if (survivors c single itemId es').length = moduleIdxNum c id ∨
        itemOff c id s' (survivors c single itemId es') + itemTotalLen len > moduleSectEnd c id s'
      then .error .notEnoughSapce else .ok (survivors c single itemId es').length

include hid hs hs' hne in
/-- The copy loop from the start, with the other sector erased. -/
theorem nvCompactLoop_all (hold : SectorTable c id s marked g es) (hempty : SectorRep c id s' false g []) :
    wp (fun x => moduleSectStart c id s' + 4 ≤ x ∧ x < moduleSectEnd c id s')
      (nvCompactLoop c single id itemId s s' (moduleIdxNum c id) (moduleIdxStart c id s) (moduleIdxNum c id)
        ⟨true, 0, 0, 0, moduleContextStart c id s'⟩)
      (fun r g' => ∃ st, (r = .next st ∨ r = .stop st) ∧
        st.wItemIdx = (survivors c single itemId es).length ∧
        st.sizeusedAddr = itemOff c id s' (survivors c single itemId es) ∧
        SectorRep c id s' false g' (survivors c single itemId es))
      (fun g' => ∃ es', SectorRep c id s' false g' es') g := by
  have hinit : CompactInv c id s s' marked single itemId es 0 ⟨true, 0, 0, 0, moduleContextStart c id s'⟩ g :=
    ⟨Nat.zero_le _, hold, rfl, rfl, rfl, hempty⟩
  have hloop := nvCompactLoop_wp hid hs hs' hne (moduleIdxNum c id) 0 (Nat.zero_le _) (by omega) hinit
  have hstart : idxAddr c id s 0 = moduleIdxStart c id s := by simp [idxAddr]
  rw [hstart, Nat.sub_zero] at hloop
  apply wp_mono hloop
  · intro r g' hpost
    obtain ⟨st, hr, hinv⟩ := hpost
    have hcount := hinv.count
    have hused := hinv.used
    have hnews := hinv.rep
    rw [List.take_length] at hcount hused hnews
    exact ⟨st, hr, hcount, hused, hnews⟩
  · exact fun _ hcut => hcut

include hid hs hs' hne in
theorem nvSectorUpdate_wp (alloc : Bool) {len : Nat} (hlen : itemTotalLen len ≤ 65536) {q : Byte}
    (hvalid : SectValid c id g s q) (hrep : SectorRep c id s marked g es)
    (hdead : SectDead c id g s') (htable : HasTable c id s' g) :
    wp (fun x => moduleSectStart c id s' ≤ x ∧ x < moduleSectEnd c id s' ∨
        DuplicateByte c id s alloc single itemId es x)
      (nvSectorUpdate c alloc single id itemId len s s')
      (UpdateEnd c id s s' marked single itemId len es)
      (UpdateCut c id s s' marked es) g := by
  have happart := sect_apart c id hne
  have hin := sect_inner c id s
  have hin' := sect_inner c id s'
  -- the other sector is erased
  apply wp_seq (eraseSect_wp c id s' g) fun x hx => .inl hx
  · intro g₁ hcut hframe
    have hrep₁ : SectorRep c id s marked g₁ es := hrep.congr fun x h₁ h₂ => hframe x (by omega)
    rcases hcut with rfl | ⟨hdead₁, htable₁⟩
    · exact ⟨⟨es, .refl es, hrep⟩, hdead, htable⟩
    · exact ⟨⟨es, .refl es, hrep₁⟩, hdead₁, htable₁⟩
  intro _ g₁ herased hframe
  have hrep₁ : SectorRep c id s marked g₁ es := hrep.congr fun x h₁ h₂ => hframe x (by omega)
  have hvalid₁ : SectValid c id g₁ s q := hvalid.congr fun x h₁ h₂ => hframe x (by omega)
  -- older duplicates are deleted
  have herased' {g' : Flash}
      (hg : ∀ x, ¬ (moduleSectStart c id s + 4 ≤ x ∧ x < moduleContextStart c id s) → g' x = g₁ x) :
      ∀ x, moduleSectStart c id s' ≤ x → x < moduleSectEnd c id s' → g' x = 0xff := by
    intro x h₁ h₂
    rw [hg x (by omega), herased x h₁ h₂]
  apply wp_seq (nvExceptionDataHandler_wp hid hs hrep₁ alloc single itemId) fun x hx => .inr hx
  · intro g₂ hcut hframe₂
    have hff := herased' fun x hx => hframe₂ x fun hd => hx (hd.index hrep₁.count)
    refine ⟨hcut, .of_erased fun x h₁ h₂ => hff x h₁ (by omega), false, [], .of_erased ?_⟩
    exact fun x h₁ h₂ => hff x (by omega) (by omega)
  intro _ g₂ hpost hframe₂
  obtain ⟨es', hshadow, hrep₂⟩ := hpost
  have hindex : ∀ x, ¬ (moduleSectStart c id s + 4 ≤ x ∧ x < moduleContextStart c id s) → g₂ x = g₁ x :=
    fun x hx => hframe₂ x fun hd => hx (hd.index hrep₁.count)
  have hff := herased' hindex
  have hvalid₂ : SectValid c id g₂ s q := hvalid₁.congr fun x h₁ h₂ => hindex x (by omega)
  have hempty : SectorRep c id s' false g₂ [] := .of_erased fun x h₁ h₂ => hff x (by omega) h₂
  have hcut {g' : Flash} {es₂ : List Entry}
      (hg : ∀ x, ¬ (moduleSectStart c id s' + 4 ≤ x ∧ x < moduleSectEnd c id s') → g' x = g₂ x)
      (hrep' : SectorRep c id s' false g' es₂) : UpdateCut c id s s' marked es g' := by
    refine ⟨⟨es', hshadow, hrep₂.congr fun x h₁ h₂ => hg x (by omega)⟩,
      .of_erased fun x h₁ h₂ => ?_, false, es₂, hrep'.toSectorTable⟩
    rw [hg x (by omega), hff x h₁ (by omega)]
  have hnow : UpdateCut c id s s' marked es g₂ := hcut (fun _ _ => rfl) hempty
  -- the valid entries are copied
  have hcheck : nvSectInfoCheck c g₂ s id = true := by
    rw [nvSectInfoCheck, readSectInfo_valid hvalid₂]
    rfl
  apply wp_bind
  apply wp_query _ hnow
  rw [hcheck]
  simp only [if_true]
  apply wp_seq (nvCompactLoop_all hid hs hs' hne hrep₂.toSectorTable hempty) fun x hx => .inl (by omega)
  · intro g₃ hpost hframe₃
    obtain ⟨es₂, hrep'⟩ := hpost
    exact hcut hframe₃ hrep'
  intro r g₃ hpost hframe₃
  obtain ⟨st, hr, hcount, hused, hnews⟩ := hpost
  have hcut₃ := hcut hframe₃ hnews
  have hrep₃ : SectorRep c id s marked g₃ es' := hrep₂.congr fun x h₁ h₂ => hframe₃ x (by omega)
  have hhead : ∀ x, moduleSectStart c id s' ≤ x → x < moduleSectStart c id s' + 4 → g₃ x = 0xff := by
    intro x h₁ h₂
    rw [hframe₃ x (by omega), hff x h₁ (by omega)]
  have hu32 : u32 (st.sizeusedAddr + itemTotalLen len) =
      itemOff c id s' (survivors c single itemId es') + itemTotalLen len := by
    have := hnews.itemOff_lt hid hs'
    rw [hused, u32_eq (by omega)]
  have hlast : wp (fun x => moduleSectStart c id s' ≤ x ∧ x < moduleSectEnd c id s' ∨
        DuplicateByte c id s alloc single itemId es x)
      (if st.wItemIdx = moduleIdxNum c id ∨
          u32 (st.sizeusedAddr + itemTotalLen len) > moduleSectEnd c id s' then
        (pure (.error .notEnoughSapce) : FlashM (Except NvSts Nat))
      else pure (.ok st.wItemIdx))
      (UpdateEnd c id s s' marked single itemId len es)
      (UpdateCut c id s s' marked es) g₃ := by
    rw [hu32, hcount]
    split_ifs with hfull
    · exact wp_pure ⟨es', hshadow, hrep₃, hnews, hhead, by rw [if_pos hfull]⟩ hcut₃
    · exact wp_pure ⟨es', hshadow, hrep₃, hnews, hhead, by rw [if_neg hfull]⟩ hcut₃
  rcases hr with rfl | rfl
  · exact hlast
  · exact hlast

end Table

end Rf4ce.Nv

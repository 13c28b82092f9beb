import Rf4ce.Crash.Bytes
import Rf4ce.Refine.Run
import Mathlib.Data.List.Basic

/-! The energy scan of `app_edScan.c`: which channel it reports. -/
namespace Rf4ce.App
open Refine
open Crash (Byte)

def edScanLqiThreshold : Byte := 60

/-- `g_appEdScanInfo`; a pointer is `false` when it is NULL. -/
structure EdScan where
  scanTimer : Bool
  doneCb : Bool
  duration : BitVec 32
  channelTotal : Byte
  bestChannel : Byte
  bestChannelEnergy : Byte
  curChannelIdx : Byte
deriving DecidableEq, Repr

/-- `g_appEdScanInfo = {0}` -/
def EdScan.zero : EdScan := ⟨false, false, 0, 0, 0, 0, 0⟩

inductive EdScanAct where
  | doneCb (channel : Byte)
  | radioRx (on : Bool)
  | setChannel (channel : Byte)
  | startED
  | onTimer (duration : BitVec 32)
deriving DecidableEq, Repr

inductive EdScanCall where
  | start (channelNum duration : Byte) (cb : Bool)
  | energy (curEnergy : Byte)
deriving DecidableEq, Repr

section Code
variable (idx2Channel : Byte → Byte)

/-- The end of a scan, which returns -1. -/
def edScanDone (s : EdScan) : EdScan × List EdScanAct :=
  ({ s with scanTimer := false }, (if s.doneCb then [.doneCb s.bestChannel] else []) ++ [.radioRx true])

/-- A channel with less energy than all before it is the best one; then comes the next channel. -/
def edScanNext (curEnergy : Byte) (s : EdScan) : EdScan :=
  let s' :=
    if curEnergy < s.bestChannelEnergy then
      { s with bestChannelEnergy := curEnergy, bestChannel := idx2Channel s.curChannelIdx }
    else s
  { s' with curChannelIdx := s'.curChannelIdx + 1 }

/-- `curEnergy` is what `rf_stopED` returns; the timer runs on while `scanTimer` is set. -/
def appEnergyScanCb (curEnergy : Byte) (s : EdScan) : EdScan × List EdScanAct :=
  if curEnergy ≤ edScanLqiThreshold then
    edScanDone { s with bestChannel := idx2Channel s.curChannelIdx, bestChannelEnergy := curEnergy }
  else
    let s := edScanNext idx2Channel curEnergy s
    if s.curChannelIdx ≥ s.channelTotal then edScanDone s
    else (s, [.setChannel (idx2Channel s.curChannelIdx), .startED])

def appEdScanStart (channelNum duration : Byte) (cb : Bool) (s : EdScan) : EdScan × List EdScanAct :=
  if s.scanTimer then (s, [])
  else
    let duration := duration.setWidth 32 * 10 * 1000
    ({ s with
        channelTotal := channelNum
        duration := duration
        curChannelIdx := 0
        bestChannelEnergy := 0xff
        doneCb := cb
        scanTimer := true },
      [.radioRx false, .setChannel (idx2Channel 0), .startED, .onTimer duration])

/-- The timer calls back only while it is set. -/
def edScanCall (s : EdScan) : EdScanCall → EdScan × List EdScanAct
  | .start channelNum duration cb => appEdScanStart idx2Channel channelNum duration cb s
  | .energy curEnergy => if s.scanTimer then appEnergyScanCb idx2Channel curEnergy s else (s, [])

end Code

/-- A scan with the energies that its channels have when they are measured. -/
structure Scan where
  duration : Byte
  energies : List Byte
deriving DecidableEq, Repr

/-- `app_edScanStart` with a callback, and one call of the timer for each channel. -/
def Scan.calls (k : Scan) : List EdScanCall :=
  .start (BitVec.ofNat 8 k.energies.length) k.duration true :: k.energies.map .energy

def scanStep (idx2Channel : Byte → Byte) (s : EdScan) (k : Scan) : EdScan × List EdScanAct :=
  let r := run (edScanCall idx2Channel) s k.calls
  (r.1, r.2.flatten)

/-- The channels that `doneCb` is called with. -/
def doneChannels (acts : List EdScanAct) : List Byte :=
  acts.filterMap fun
    | .doneCb channel => some channel
    | _ => none

/-- The first channel below the threshold, or else one with the least energy. -/
inductive EdResult (idx2Channel : Byte → Byte) (es : List Byte) (channel : Byte) : Prop where
  | quiet (i : Nat) (h : i < es.length) (hi : es[i] ≤ edScanLqiThreshold)
      (hfirst : ∀ j (hj : j < i), edScanLqiThreshold < es[j]) (hch : channel = idx2Channel (BitVec.ofNat 8 i))
  | least (hall : ∀ e ∈ es, edScanLqiThreshold < e) (i : Nat) (h : i < es.length) (hmin : ∀ e ∈ es, es[i] ≤ e)
      (hch : channel = idx2Channel (BitVec.ofNat 8 i))

/-- `doneCb` is called once, with the right channel. -/
def ScanOk (idx2Channel : Byte → Byte) (s : EdScan) (k : Scan) : Prop :=
  ∃ channel, doneChannels (scanStep idx2Channel s k).2 = [channel] ∧ EdResult idx2Channel k.energies channel

/-- Some channel is below the sentinel, or the channel left by earlier scans is one of this scan. -/
def ScanFinds (idx2Channel : Byte → Byte) (s : EdScan) (k : Scan) : Prop :=
  (∃ e ∈ k.energies, e ≠ 0xff) ∨ ∃ i < k.energies.length, s.bestChannel = idx2Channel (BitVec.ofNat 8 i)

/-! ### The best channel so far -/

/-- The channel and the energy kept after the energies `es`: `old` stays while all are the sentinel. -/
inductive BestOf (idx2Channel : Byte → Byte) (old : Byte) (es : List Byte) : Byte → Byte → Prop where
  | busy (h : ∀ e ∈ es, e = 0xff) : BestOf idx2Channel old es old 0xff
  | found (i : Nat) (h : i < es.length) (hne : es[i] ≠ 0xff) (hmin : ∀ e ∈ es, es[i] ≤ e) :
      BestOf idx2Channel old es (idx2Channel (BitVec.ofNat 8 i)) es[i]

section Proof
variable {idx2Channel : Byte → Byte} {old channel energy : Byte} {es : List Byte} {s : EdScan}

theorem lt_sentinel {e : Byte} : e < 0xff ↔ e ≠ 0xff := by
  have h := e.isLt
  rw [BitVec.lt_def, ne_eq, BitVec.toNat_inj.symm, show (0xff : Byte).toNat = 255 from rfl]
  omega

theorem BestOf.of_getElem {i : Nat} (hi : i < es.length) (h : es[i] = energy) (hne : energy ≠ 0xff)
    (hmin : ∀ e ∈ es, energy ≤ e) : BestOf idx2Channel old es (idx2Channel (BitVec.ofNat 8 i)) energy := by
  subst h
  exact .found i hi hne hmin

theorem BestOf.le (h : BestOf idx2Channel old es channel energy) : ∀ e ∈ es, energy ≤ e := by
  cases h with
  | busy hall =>
    intro e he
    rw [hall e he]
    exact BitVec.le_refl _
  | found i hi hne hmin => exact hmin

theorem BestOf.next (h : BestOf idx2Channel old es channel energy) (e : Byte) :
    BestOf idx2Channel old (es ++ [e])
      (if e < energy then idx2Channel (BitVec.ofNat 8 es.length) else channel) (if e < energy then e else energy) := by
  have hlen : es.length < (es ++ [e]).length := by simp
  by_cases hlt : e < energy
  · -- the new channel is the best one
    have hlast : (es ++ [e])[es.length] = e := List.getElem_concat_length rfl _
    have hmin : ∀ x ∈ es ++ [e], e ≤ x := by
      rw [List.forall_mem_append, List.forall_mem_singleton]
      exact ⟨fun x hx => BitVec.le_trans (BitVec.le_of_lt hlt) (h.le x hx), BitVec.le_refl e⟩
    have hne : e ≠ 0xff := by
      intro hff
      rw [hff, BitVec.lt_def] at hlt
      have hbound := energy.isLt
      rw [show (0xff : Byte).toNat = 255 from rfl] at hlt
      omega
    rw [if_pos hlt, if_pos hlt]
    exact .of_getElem hlen hlast hne hmin
  · have hle : energy ≤ e := BitVec.not_lt.mp hlt
    rw [if_neg hlt, if_neg hlt]
    cases h with
    | busy hall =>
      apply BestOf.busy
      rw [List.forall_mem_append, List.forall_mem_singleton]
      refine ⟨hall, ?_⟩
      by_contra hne
      exact hlt (lt_sentinel.mpr hne)
    | found i hi hne hmin =>
      have hi' : i < (es ++ [e]).length := by omega
      have hsame : (es ++ [e])[i] = es[i] := List.getElem_append_left hi
      have hmin' : ∀ x ∈ es ++ [e], es[i] ≤ x := by
        rw [List.forall_mem_append, List.forall_mem_singleton]
        exact ⟨hmin, hle⟩
      exact .of_getElem hi' hsame hne hmin'

/-! ### One scan -/

/-- What a scan has found when it ends after the energies `es`. -/
inductive EdEnd (idx2Channel : Byte → Byte) (old : Byte) (es : List Byte) (channel : Byte) : Prop where
  | quiet (i : Nat) (h : i < es.length) (hi : es[i] ≤ edScanLqiThreshold)
      (hfirst : ∀ j (hj : j < i), edScanLqiThreshold < es[j]) (hch : channel = idx2Channel (BitVec.ofNat 8 i))
  | best (hall : ∀ e ∈ es, edScanLqiThreshold < e) (energy : Byte) (h : BestOf idx2Channel old es channel energy)

/-- A scan of `n` channels after the energies `pre`, none of them below the threshold. -/
structure Scanning (idx2Channel : Byte → Byte) (old : Byte) (n : Nat) (pre : List Byte) (s : EdScan) : Prop where
  scanTimer : s.scanTimer = true
  doneCb : s.doneCb = true
  total : s.channelTotal = BitVec.ofNat 8 n
  idx : s.curChannelIdx = BitVec.ofNat 8 pre.length
  loud : ∀ e ∈ pre, edScanLqiThreshold < e
  best : BestOf idx2Channel old pre s.bestChannel s.bestChannelEnergy

theorem doneChannels_append (xs ys : List EdScanAct) :
    doneChannels (xs ++ ys) = doneChannels xs ++ doneChannels ys := List.filterMap_append

theorem edScanDone_reports (h : s.doneCb = true) :
    (edScanDone s).1.scanTimer = false ∧ doneChannels (edScanDone s).2 = [s.bestChannel] := by
  unfold edScanDone
  rw [h]
  exact ⟨rfl, rfl⟩

/-- After its end a scan does nothing more. -/
theorem run_ended (h : s.scanTimer = false) (es : List Byte) :
    run (edScanCall idx2Channel) s (es.map .energy) = (s, es.map fun _ => []) := by
  induction es with
  | nil => rfl
  | cons e es ih =>
    have hstep : edScanCall idx2Channel s (.energy e) = (s, []) := by simp [edScanCall, h]
    simp only [List.map_cons, run, hstep, ih]

theorem doneChannels_ended (h : s.scanTimer = false) (es : List Byte) :
    doneChannels (run (edScanCall idx2Channel) s (es.map .energy)).2.flatten = [] := by
  rw [run_ended h]
  induction es with
  | nil => rfl
  | cons e es ih => simpa using ih

theorem Scanning.next {n : Nat} {pre : List Byte} (h : Scanning idx2Channel old n pre s) {e : Byte}
    (he : edScanLqiThreshold < e) :
    Scanning idx2Channel old n (pre ++ [e]) (edScanNext idx2Channel e s) := by
  have hidx : s.curChannelIdx + 1 = BitVec.ofNat 8 (pre ++ [e]).length := by
    rw [h.idx, List.length_append, List.length_singleton, BitVec.ofNat_add]
    rfl
  have hloud : ∀ x ∈ pre ++ [e], edScanLqiThreshold < x := by
    rw [List.forall_mem_append, List.forall_mem_singleton]
    exact ⟨h.loud, he⟩
  have hbest := h.best.next e
  rw [← h.idx] at hbest
  unfold edScanNext
  split_ifs at hbest ⊢
  · exact ⟨h.scanTimer, h.doneCb, h.total, hidx, hloud, hbest⟩
  · exact ⟨h.scanTimer, h.doneCb, h.total, hidx, hloud, hbest⟩

/-- The measurements that are left end the scan with one report. -/
theorem Scanning.run {n : Nat} {pre rest : List Byte} (h : Scanning idx2Channel old n pre s)
    (hn : (pre ++ rest).length = n) (hn' : n < 256) (hrest : rest ≠ []) :
    (run (edScanCall idx2Channel) s (rest.map .energy)).1.scanTimer = false ∧
      ∃ channel, doneChannels (run (edScanCall idx2Channel) s (rest.map .energy)).2.flatten = [channel] ∧
        EdEnd idx2Channel old (pre ++ rest) channel := by
  induction rest generalizing pre s with
  | nil => exact absurd rfl hrest
  | cons e rest ih =>
    have hlen : pre.length + rest.length + 1 = n := by
      rw [← hn, List.length_append, List.length_cons]
      omega
    have hin : pre.length < (pre ++ e :: rest).length := by omega
    have hat : (pre ++ e :: rest)[pre.length] = e := by simp
    have hcall : edScanCall idx2Channel s (.energy e) = appEnergyScanCb idx2Channel e s := if_pos h.scanTimer
    simp only [List.map_cons, Refine.run, hcall, List.flatten_cons, doneChannels_append]
    by_cases hquiet : e ≤ edScanLqiThreshold
    · -- a quiet channel
      have hcb : appEnergyScanCb idx2Channel e s =
          edScanDone { s with bestChannel := idx2Channel s.curChannelIdx, bestChannelEnergy := e } := if_pos hquiet
      obtain ⟨htimer, hdone⟩ := @edScanDone_reports
        { s with bestChannel := idx2Channel s.curChannelIdx, bestChannelEnergy := e } h.doneCb
      rw [hcb, hdone, doneChannels_ended htimer, run_ended htimer]
      refine ⟨htimer, _, rfl, .quiet pre.length hin (by rwa [hat]) (fun j hj => ?_) ?_⟩
      · rw [List.getElem_append_left hj]
        exact h.loud _ (List.getElem_mem hj)
      · rw [h.idx]
    · have hnext := h.next (BitVec.not_le.mp hquiet)
      have hsplit : pre ++ e :: rest = (pre ++ [e]) ++ rest := by simp
      have hlast : (edScanNext idx2Channel e s).curChannelIdx ≥ (edScanNext idx2Channel e s).channelTotal ↔
          rest = [] := by
        rw [ge_iff_le, hnext.total, hnext.idx, BitVec.le_def, BitVec.toNat_ofNat, BitVec.toNat_ofNat,
          List.length_append, List.length_singleton, Nat.mod_eq_of_lt hn', Nat.mod_eq_of_lt (by omega), ← List.length_eq_zero_iff]
        omega
      have hcb : appEnergyScanCb idx2Channel e s =
          if (edScanNext idx2Channel e s).curChannelIdx ≥ (edScanNext idx2Channel e s).channelTotal then
            edScanDone (edScanNext idx2Channel e s)
          else (edScanNext idx2Channel e s,
            [.setChannel (idx2Channel (edScanNext idx2Channel e s).curChannelIdx), .startED]) := if_neg hquiet
      rw [hcb, hsplit]
      by_cases hnil : rest = []
      · -- the last channel
        subst hnil
        obtain ⟨htimer, hdone⟩ := edScanDone_reports hnext.doneCb
        rw [if_pos (hlast.mpr rfl), hdone, List.append_nil (pre ++ [e])]
        exact ⟨htimer, _, rfl, .best hnext.loud _ hnext.best⟩
      · rw [if_neg fun h => hnil (hlast.mp h)]
        exact ih hnext (by rw [← hsplit]; exact hn) hnil

/-- A scan from an idle state reports once; the old channel is reported when nothing beats the sentinel. -/
theorem scanStep_end {k : Scan} (h : s.scanTimer = false) (hk : k.energies ≠ []) (hn : k.energies.length < 256) :
    (scanStep idx2Channel s k).1.scanTimer = false ∧
      ∃ channel, doneChannels (scanStep idx2Channel s k).2 = [channel] ∧
        EdEnd idx2Channel s.bestChannel k.energies channel := by
  have hstart : (edScanCall idx2Channel s (.start (BitVec.ofNat 8 k.energies.length) k.duration true)) =
      appEdScanStart idx2Channel (BitVec.ofNat 8 k.energies.length) k.duration true s := rfl
  have hscan : Scanning idx2Channel s.bestChannel k.energies.length []
      (appEdScanStart idx2Channel (BitVec.ofNat 8 k.energies.length) k.duration true s).1 := by
    unfold appEdScanStart
    rw [h]
    exact ⟨rfl, rfl, rfl, rfl, fun e he => absurd he List.not_mem_nil, .busy fun e he => absurd he List.not_mem_nil⟩
  have hnone : doneChannels
      (appEdScanStart idx2Channel (BitVec.ofNat 8 k.energies.length) k.duration true s).2 = [] := by
    unfold appEdScanStart
    rw [h]
    rfl
  unfold scanStep Scan.calls
  simp only [Refine.run, hstart, List.flatten_cons, doneChannels_append, hnone, List.nil_append]
  exact hscan.run rfl hn hk

theorem edEnd_iff {k : Scan} (h : EdEnd idx2Channel s.bestChannel k.energies channel) :
    EdResult idx2Channel k.energies channel ↔ ScanFinds idx2Channel s k := by
  cases h with
  | quiet i hi hquiet hfirst hch =>
    refine iff_of_true (.quiet i hi hquiet hfirst hch) (.inl ⟨_, List.getElem_mem hi, ?_⟩)
    intro hff
    rw [hff] at hquiet
    exact absurd hquiet (by decide)
  | best hall energy hbest =>
    cases hbest with
    | found i hi hne hmin => exact iff_of_true (.least hall i hi hmin rfl) (.inl ⟨_, List.getElem_mem hi, hne⟩)
    | busy hff =>
      constructor
      · intro hres
        cases hres with
        | quiet i hi hquiet hfirst hch => exact .inr ⟨i, hi, hch⟩
        | least _ i hi hmin hch => exact .inr ⟨i, hi, hch⟩
      · intro hfinds
        obtain ⟨e, he, hne⟩ | ⟨i, hi, hch⟩ := hfinds
        · exact absurd (hff e he) hne
        · refine .least hall i hi (fun e he => ?_) hch
          rw [hff _ (List.getElem_mem hi), hff e he]
          exact BitVec.le_refl _

end Proof

/-- Whatever scans came before, a scan reports the right channel once, exactly when one of its energies
is below 255 or the channel that the scans before it left is one of its own. -/
theorem edScan_iff (idx2Channel : Byte → Byte) (ks : List Scan)
    (hn : ∀ k ∈ ks, 1 ≤ k.energies.length ∧ k.energies.length ≤ 255) :
    Legal (scanStep idx2Channel) (ScanOk idx2Channel) .zero ks ↔
      Legal (scanStep idx2Channel) (ScanFinds idx2Channel) .zero ks := by
  have henv : Legal (scanStep idx2Channel) (fun _ k => 1 ≤ k.energies.length ∧ k.energies.length ≤ 255) .zero ks :=
    legal_forall.mpr hn
  have hend (s : EdScan) (k : Scan) (hs : s.scanTimer = false) (hk : 1 ≤ k.energies.length ∧ k.energies.length ≤ 255) :=
    @scanStep_end idx2Channel s k hs (List.length_pos_iff.mp hk.1) (by omega)
  refine legal_iff (I := fun s => s.scanTimer = false) (fun s k hs hk => ?_) (fun s k hs hk _ => (hend s k hs hk).1) rfl henv
  obtain ⟨-, channel, hdone, hres⟩ := hend s k hs hk
  constructor
  · intro hok
    obtain ⟨channel', hdone', hres'⟩ := hok
    obtain rfl : channel = channel' := List.singleton_inj.mp (hdone.symm.trans hdone')
    exact (edEnd_iff hres).mp hres'
  · exact fun hfinds => ⟨channel, hdone, (edEnd_iff hres).mpr hfinds⟩

/-- `RF4CE_Idx2Channel` gives 15, 20 and 25. -/
def opChannel (idx : Byte) : Byte := 15 + 5 * idx

theorem edScan_iff_busy :
    Legal (scanStep opChannel) (ScanOk opChannel) .zero [⟨10, [0xf0, 0x50, 0x80]⟩, ⟨10, [0xff, 0xff, 0xff]⟩] := by
  refine (edScan_iff opChannel _ (by decide)).mpr ⟨.inl ⟨0x50, by decide, by decide⟩, ?_, trivial⟩
  exact .inr ⟨1, by decide, by decide⟩

/-- The first scan after power-on finds all channels busy and reports channel 0. -/
theorem edScan_first_busy :
    ¬ Legal (scanStep opChannel) (ScanOk opChannel) .zero [⟨10, [0xff, 0xff, 0xff]⟩] := by
  rintro ⟨⟨channel, hdone, hres⟩, -⟩
  have hzero : doneChannels (scanStep opChannel .zero ⟨10, [0xff, 0xff, 0xff]⟩).2 = [0] := by decide
  obtain rfl : (0 : Byte) = channel := List.singleton_inj.mp (hzero.symm.trans hdone)
  have hno : ∀ i < 3, ¬ (0 : Byte) = opChannel (BitVec.ofNat 8 i) := by decide
  cases hres with
  | quiet i h hi hfirst hch => exact hno i h hch
  | least hall i h hmin hch => exact hno i h hch

end Rf4ce.App

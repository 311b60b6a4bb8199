import LcdInterface.Clocked.Server
import LcdInterface.LcdDriver.Edge

/-!
# The LCD driver is a single-slot server

What the driver is for: it takes one write at a time and shows it to the panel. The abstract
machine is `Server`: down while the panel is reset, then idle, then busy with the write it took for
`Job.duration` cycles: ten for a word to the panel, two for any other address, without end for a
burst that announces at least one word. A write offered while the server is not idle is lost.

* `refines_edge`: one clock edge of the driver is one cycle of the server (`Refines`, one case for
  each state of the machine); `refines_run`, `refines_cycle`: so is every run, on any inputs.
* `captured_eq_taken`: the writes captured in `StateIdle` are the jobs the server takes.
* `log_sent`, `words_eq`: the words the panel sees are the captured writes to its two addresses, in
  order, each once, five cycles late.
-/

namespace LcdInterface.LcdDriver

open Clocked Clocked.Server
open Slave (Inputs)

/-! ## Jobs -/

/-- A captured write; `burst` is `0` outside a burst. -/
structure Job where
  address : BitVec 16
  data : BitVec 16
  byteEnable : BitVec 2
  burst : BitVec picsizeBin
  deriving DecidableEq, Repr

/-- Ones in the enabled bytes. -/
def byteMask (byteEnable : BitVec 2) : BitVec 16 :=
  (if byteEnable.getLsbD 1 then 0xFF#8 else 0x00#8) ++
    (if byteEnable.getLsbD 0 then 0xFF#8 else 0x00#8)

/-- The word the panel is to be shown for `j`: `DC_NSO = '1'` for data, `'0'` for a command. -/
def Job.word (j : Job) : Word :=
  (j.data &&& byteMask j.byteEnable, decide (j.address = regWriteDataAddr))

/-- Cycles from the capture of `j` to the next idle one. -/
def Job.duration (j : Job) : ℕ∞ :=
  if IsTx j.address then (if j.burst = 0 then 10 else ⊤) else 2

/-- `j` goes to the panel. -/
def Job.toPanel (j : Job) : Option Word := if IsTx j.address then some j.word else none

/-- The write in the `_P_` stage, as `StateIdle` captures it. -/
def jobOf (s : Signals) : Job :=
  { address := s.addressPD
    data := s.writeDataPD
    byteEnable := if s.beginBurstTransferPS then BitVec.allOnes 2 else s.byteEnablePD
    burst := if s.beginBurstTransferPS then s.burstCountPD else 0 }

/-- A write is offered by its pulse. -/
def offer (s : Signals) : Option Job := if s.writeEdgeD then some (jobOf s) else none

theorem bitEnable_eq : ∀ byteEnable, bitEnable byteEnable = byteMask byteEnable := by
  decide

theorem dataCmd_eq {address : BitVec 16} (h : IsTx address) :
    dataCmd address = decide (address = regWriteDataAddr) := by
  rcases h with rfl | rfl <;> rfl

theorem one_lt_duration (j : Job) : 1 < j.duration := by
  unfold Job.duration
  split_ifs
  · exact_mod_cast show 1 < 10 by omega
  · exact WithTop.coe_lt_top 1
  · exact_mod_cast show 1 < 2 by omega

theorem lt_duration_iff {j : Job} {k : ℕ} (h2 : 2 ≤ k) (h10 : k < 10) :
    (k : ℕ∞) < j.duration ↔ IsTx j.address := by
  unfold Job.duration
  split_ifs with ha hb
  · exact iff_of_true (by exact_mod_cast h10) ha
  · exact iff_of_true (WithTop.coe_lt_top k) ha
  · exact iff_of_false (by exact_mod_cast show ¬ k < 2 by omega) ha

theorem lt_duration_iff_of_le {j : Job} {k : ℕ} (h10 : 10 ≤ k) :
    (k : ℕ∞) < j.duration ↔ IsTx j.address ∧ j.burst ≠ 0 := by
  unfold Job.duration
  split_ifs with ha hb
  · exact iff_of_false (by exact_mod_cast show ¬ k < 10 by omega) (by simp [hb])
  · exact iff_of_true (WithTop.coe_lt_top k) ⟨ha, hb⟩
  · exact iff_of_false (by exact_mod_cast show ¬ k < 2 by omega) (by simp [ha])

theorem duration_eq_top {j : Job} : j.duration = ⊤ ↔ IsTx j.address ∧ j.burst ≠ 0 := by
  unfold Job.duration
  split_ifs with ha hb
  · exact iff_of_false (WithTop.coe_ne_top (a := 10)) (by simp [hb])
  · exact iff_of_true rfl ⟨ha, hb⟩
  · exact iff_of_false (WithTop.coe_ne_top (a := 2)) (by simp [ha])

/-! ### The server's cycle on a job -/

theorem next_word {j : Job} {k : ℕ} {o : Option Job} (hw : IsTx j.address) (h1 : 0 < k)
    (h9 : k < 9) : next Job.duration (.busy j k) o = .busy j (k + 1) := by
  have hlt : ((k + 1 : ℕ) : ℕ∞) < j.duration :=
    (lt_duration_iff (by omega) (by omega)).mpr hw
  simp only [next, if_pos hlt]

theorem next_other {j : Job} {o : Option Job} (hw : ¬ IsTx j.address) :
    next Job.duration (.busy j 1) o = .idle := by
  have hle : ¬ ((1 + 1 : ℕ) : ℕ∞) < j.duration :=
    mt (lt_duration_iff (by omega) (by omega)).mp hw
  simp only [next, if_neg hle]

theorem next_last {j : Job} {o : Option Job} (hb : j.burst = 0) :
    next Job.duration (.busy j 9) o = .idle := by
  have hle : ¬ ((9 + 1 : ℕ) : ℕ∞) < j.duration :=
    mt (lt_duration_iff_of_le (by omega)).mp fun h => h.2 hb
  simp only [next, if_neg hle]

theorem next_endless {j : Job} {k : ℕ} {o : Option Job} (hw : IsTx j.address)
    (hb : j.burst ≠ 0) : next Job.duration (.busy j k) o = .busy j (k + 1) := by
  have hlt : ((k + 1 : ℕ) : ℕ∞) < j.duration := by
    rw [duration_eq_top.mpr ⟨hw, hb⟩]
    exact WithTop.coe_lt_top _
  simp only [next, if_pos hlt]

/-! ## The simulation -/

/-- Cycles the server stays down after cycle `0`: `StateLcdReset` for 500000001 of them, then
`StateResetIntRegData`. -/
@[irreducible] def bootCycles : ℕ := 500000002

/-- The registers of the transmit states hold `j`. -/
structure Carries (s : Signals) (j : Job) : Prop where
  address : s.regAddressPresD = j.address
  byteEnable : s.regByteEnablePresD = j.byteEnable
  burst : s.burstCountPresD = j.burst

theorem Carries.of_same {s s' : Signals} {j : Job} (h : Carries s j) (hs : SameRegs s s') :
    Carries s' j :=
  ⟨hs.address.trans h.address, hs.byteEnable.trans h.byteEnable, hs.burstCount.trans h.burst⟩

/-- What the driver's registers are in each phase of the server. -/
inductive Refines : Signals → Phase Job → Prop
  | reset {s : Signals} (h : s.statePresD = .stateReset) : Refines s (.down bootCycles)
  | lcdReset {s : Signals} (h : s.statePresD = .stateLcdReset) :
      Refines s (.down (s.idleCountPresD.toNat + 1))
  | booted {s : Signals} (h : s.statePresD = .stateResetIntRegData) : Refines s (.down 0)
  | idle {s : Signals} (h : s.statePresD = .stateIdle) : Refines s .idle
  | evalData {s : Signals} {j : Job} (h : s.statePresD = .stateEvalData) (hj : Carries s j)
      (hd : s.regRxDataPresD = j.data) : Refines s (.busy j 1)
  | prepareTx {s : Signals} {j : Job} {k : ℕ} (h : s.statePresD = .statePrepareTx)
      (hj : Carries s j) (hd : s.regDataPresD = j.data) (hw : IsTx j.address) (h1 : 1 < k)
      (hk : s.idleCountPresD.toNat + k = 4) : Refines s (.busy j k)
  | tx {s : Signals} {j : Job} {k : ℕ} (h : s.statePresD = .stateTx) (hj : Carries s j)
      (hd : s.regDataPresD = j.data) (hw : IsTx j.address) (h4 : 4 < k)
      (hk : s.idleCountPresD.toNat + k = 8) : Refines s (.busy j k)
  | last {s : Signals} {j : Job} (h : s.statePresD = .stateResetIntRegData)
      (hw : IsTx j.address) (hb : j.burst = 0) : Refines s (.busy j 9)
  | nextItem {s : Signals} {j : Job} {k : ℕ} (h : s.statePresD = .stateNextBurstItem)
      (hw : IsTx j.address) (hb : j.burst ≠ 0) (h8 : 8 < k) : Refines s (.busy j k)

/-- **One edge of the driver is one cycle of the server.** -/
theorem refines_edge {s : Signals} {p : Phase Job} (hn : NoStream s) (h : Refines s p)
    (i : Inputs) : Refines (edge s i) (next Job.duration p (offer s)) := by
  cases h with
  | reset h =>
    obtain ⟨h1, h2⟩ := edge_reset (i := i) h
    have hr := Refines.lcdReset h1
    rw [h2] at hr
    rw [show bootCycles = 500000001 + 1 by unfold bootCycles; rfl]
    exact hr
  | lcdReset h =>
    rcases Nat.eq_zero_or_pos s.idleCountPresD.toNat with hc | hc
    · rw [hc]
      exact .booted (edge_lcdReset_zero h hc)
    · obtain ⟨h1, h2⟩ := edge_lcdReset_pos (i := i) h hc
      rw [← h2]
      exact .lcdReset h1
  | booted h => exact .idle (edge_resetIntRegData h)
  | idle h =>
    unfold offer
    cases he : s.writeEdgeD with
    | false => exact .idle (edge_idle_none h he)
    | true =>
      obtain ⟨h1, h2, h3, h4, h5⟩ := edge_idle_some (i := i) h he
      exact .evalData h1 ⟨h2, h4, h5⟩ h3
  | @evalData j h hj hd =>
    by_cases ha : IsTx s.regAddressPresD
    · obtain ⟨h1, h2, h3, h4⟩ := edge_evalData_tx (i := i) h ha
      have hw : IsTx j.address := hj.address ▸ ha
      rw [next_word hw (by omega) (by omega)]
      exact .prepareTx h1 (hj.of_same h4) (h3.trans hd) hw (by omega) (by rw [h2]; rfl)
    · have hw : ¬ IsTx j.address := hj.address ▸ ha
      rw [next_other hw]
      exact .idle (edge_evalData_other h ha)
  | @prepareTx j k h hj hd hw h1 hk =>
    obtain ⟨hs, hd'⟩ := edge_prepareTx_same (i := i) h
    rw [next_word hw (by omega) (by omega)]
    rcases Nat.eq_zero_or_pos s.idleCountPresD.toNat with hc | hc
    · obtain ⟨h2, h3⟩ := edge_prepareTx_zero (i := i) h hc
      refine .tx h2 (hj.of_same hs) (hd'.trans hd) hw (by omega) ?_
      rw [h3]
      show 3 + (k + 1) = 8
      omega
    · obtain ⟨h2, h3⟩ := edge_prepareTx_pos (i := i) h hc
      exact .prepareTx h2 (hj.of_same hs) (hd'.trans hd) hw (by omega) (by omega)
  | @tx j k h hj hd hw h4 hk =>
    rw [next_word hw (by omega) (by omega)]
    rcases Nat.eq_zero_or_pos s.idleCountPresD.toNat with hc | hc
    · by_cases hb : j.burst = 0
      · obtain rfl : k = 8 := by omega
        exact .last (edge_tx_last h hc (hj.burst.trans hb)) hw hb
      · exact .nextItem (edge_tx_next h hc fun h0 => hb (hj.burst.symm.trans h0)) hw hb (by omega)
    · obtain ⟨h2, h3, hs, hd'⟩ := edge_tx_pos (i := i) h hc
      exact .tx h2 (hj.of_same hs) (hd'.trans hd) hw (by omega) (by omega)
  | @last j h hw hb =>
    rw [next_last hb]
    exact .idle (edge_resetIntRegData h)
  | @nextItem j k h hw hb h8 =>
    rw [next_endless hw hb]
    exact .nextItem (edge_nextBurstItem h hn) hw hb (by omega)

/-- **So is a run of any length**, from any state that refines some phase. -/
theorem refines_run {s : Signals} {p : Phase Job} (hn : NoStream s) (h : Refines s p)
    (i : ℕ → Inputs) (t : ℕ) :
    NoStream (run edge s i t) ∧
      Refines (run edge s i t)
        (run (next Job.duration) p (fun t => offer (run edge s i t)) t) := by
  refine run_sim (next Job.duration) (fun s _ => offer s)
    (R := fun s p => NoStream s ∧ Refines s p) ⟨hn, h⟩ ?_ t
  rintro s p x ⟨hn, h⟩
  exact ⟨noStream_edge hn, refines_edge hn h x⟩

/-! ## What the phase says of the driver -/

theorem Refines.idle_iff {s : Signals} {p : Phase Job} (h : Refines s p) :
    s.statePresD = .stateIdle ↔ p = .idle := by
  cases h <;> simp [*]

theorem Refines.tx_iff {s : Signals} {p : Phase Job} (h : Refines s p) :
    s.statePresD = .stateTx ↔ ∃ j k, p = .busy j k ∧ 4 < k ∧ k < 9 := by
  cases h <;> simp [*] <;> omega

/-- In `StateTx` the pins show the job's word. -/
theorem Refines.pins_tx {s : Signals} {j : Job} {k : ℕ} (h : Refines s (.busy j k)) (h4 : 4 < k)
    (h9 : k < 9) : pins s.toLogic = .shown true j.word := by
  cases h with
  | evalData => omega
  | prepareTx _ _ _ _ _ hk => omega
  | tx hs hj hd hw =>
    rw [LcdDriver.pins_tx hs, hd, hj.byteEnable, hj.address, bitEnable_eq, dataCmd_eq hw]
    rfl
  | last => omega
  | nextItem _ _ _ h8 => omega

/-- Throughout `StateTx` the panel's bus holds the job's word. -/
theorem Refines.word {s : Signals} {j : Job} {k : ℕ} (h : Refines s (.busy j k)) (h4 : 4 < k)
    (h9 : k < 9) : (s.dbDio, s.dcNso) = j.word := by
  have hp := h.pins_tx h4 h9
  exact Prod.ext (congrArg Pins.dbDio hp) (congrArg Pins.dcNso hp)

/-! ## Runs from reset -/

section Runs

variable (s : Signals) (i : ℕ → Inputs)

/-- The driver in cycle `t` after reset, `Reset_NRI` staying `'1'`. -/
def cycle (t : ℕ) : Signals := run edge (reset s) i t

/-- The write captured in cycle `t`: `Write_Edge_D = '1'` in `StateIdle`. -/
def captured (t : ℕ) : Option Job :=
  if (cycle s i t).statePresD = .stateIdle then offer (cycle s i t) else none

/-- The word presented by entering `StateTx` at edge `t`. -/
def presented (t : ℕ) : Option Word :=
  if (cycle s i t).statePresD ≠ .stateTx ∧ (cycle s i (t + 1)).statePresD = .stateTx then
    some ((cycle s i (t + 1)).dbDio, (cycle s i (t + 1)).dcNso)
  else none

/-- The words presented up to cycle `t`. -/
def words (t : ℕ) : List Word := log (presented s i) t

/-- The server's phase in cycle `t`. -/
def phaseAt (t : ℕ) : Phase Job :=
  phase Job.duration bootCycles (fun t => offer (cycle s i t)) t

/-- The job whose word `StateTx` is entered with at edge `t`: it is five cycles old then. -/
def sent (t : ℕ) : Option Job := stage 5 (phaseAt s i (t + 1))

variable {s i}

theorem cycle_succ (t : ℕ) : cycle s i (t + 1) = edge (cycle s i t) (i t) := rfl

theorem noStream_cycle (t : ℕ) : NoStream (cycle s i t) :=
  (refines_run (noStream_reset s) (.reset rfl) i t).1

/-- **Every run of the driver from reset is a run of the server.** -/
theorem refines_cycle (t : ℕ) : Refines (cycle s i t) (phaseAt s i t) :=
  (refines_run (noStream_reset s) (.reset rfl) i t).2

/-- The front end runs by itself. -/
theorem cycle_front (t : ℕ) : (cycle s i t).toFrontEnd = Slave.front i t := by
  induction t with
  | zero => rfl
  | succ t ih => rw [cycle_succ, edge_toFrontEnd, ih, Slave.front_succ]

theorem idle_iff (t : ℕ) : (cycle s i t).statePresD = .stateIdle ↔ phaseAt s i t = .idle :=
  (refines_cycle t).idle_iff

theorem captured_eq_taken (t : ℕ) :
    captured s i t = taken Job.duration bootCycles (fun t => offer (cycle s i t)) t := by
  unfold captured taken
  by_cases h : (cycle s i t).statePresD = .stateIdle
  · rw [if_pos h, show phase Job.duration bootCycles _ t = .idle from (idle_iff t).mp h]
    rfl
  · rw [if_neg h]
    have hp : phaseAt s i t ≠ .idle := fun he => h ((idle_iff t).mpr he)
    show none = take (phaseAt s i t) _
    cases hq : phaseAt s i t with
    | idle => exact absurd hq hp
    | down k => rfl
    | busy j k => rfl

/-- **Entering `StateTx` is reaching age five.** -/
theorem presented_eq (t : ℕ) : presented s i t = (stage 5 (phaseAt s i (t + 1))).map Job.word := by
  have hnow := (refines_cycle (s := s) (i := i) t).tx_iff
  have hnext := (refines_cycle (s := s) (i := i) (t + 1)).tx_iff
  unfold presented
  by_cases hst : ∃ j, phaseAt s i (t + 1) = .busy j 5
  · obtain ⟨j, hj⟩ := hst
    have hprev : phaseAt s i t = .busy j 4 := by
      have hsucc : next Job.duration (phaseAt s i t) (offer (cycle s i t)) = .busy j 5 := hj
      rcases next_eq_busy.mp hsucc with ⟨h5, -⟩ | ⟨m, hm, hp, -⟩
      · omega
      · obtain rfl : m = 4 := by omega
        exact hp
    have h1 : (cycle s i t).statePresD ≠ .stateTx := by
      rw [Ne, hnow, hprev]; simp
    have h2 : (cycle s i (t + 1)).statePresD = .stateTx := by
      rw [hnext, hj]; exact ⟨j, 5, rfl, by omega, by omega⟩
    have hw := (refines_cycle (s := s) (i := i) (t + 1))
    rw [hj] at hw
    rw [if_pos ⟨h1, h2⟩, hw.word (by omega) (by omega), stage_eq_some.mpr hj]
    rfl
  · rw [if_neg]
    · have : stage 5 (phaseAt s i (t + 1)) = none :=
        Option.eq_none_iff_forall_ne_some.mpr fun j hj => hst ⟨j, stage_eq_some.mp hj⟩
      rw [this]
      rfl
    · rintro ⟨h1, h2⟩
      obtain ⟨j, k, hp, h4, h9⟩ := hnext.mp h2
      have hsucc : next Job.duration (phaseAt s i t) (offer (cycle s i t)) = .busy j k := hp
      rcases next_eq_busy.mp hsucc with ⟨h5, -⟩ | ⟨m, hm, hpm, -⟩
      · omega
      · -- the job was already in `StateTx`, or this is its fifth cycle
        refine h1 (hnow.mpr ⟨j, m, hpm, ?_, by omega⟩)
        by_contra hle
        obtain rfl : k = 5 := by omega
        exact hst ⟨j, hp⟩

/-- The jobs sent are the captured writes to the panel's addresses, five cycles late. -/
theorem log_sent (t : ℕ) :
    log (sent s i) (4 + t) = (log (captured s i) t).filter fun j => IsTx j.address := by
  have hstage := log_stage (b := bootCycles) (o := fun t => offer (cycle s i t))
    one_lt_duration (show 0 < 5 by omega) t
  have hshift : log (fun t => stage 5 (phaseAt s i t)) (1 + (4 + t)) = log (sent s i) (4 + t) := by
    refine log_shift (fun u hu => ?_) (fun u _ => ?_)
    · obtain rfl : u = 0 := by omega
      rfl
    · rw [Nat.add_comm 1 u]
      rfl
  rw [← hshift, show 1 + (4 + t) = 5 + t by omega]
  unfold phaseAt
  rw [hstage, log_congr fun u _ => captured_eq_taken u, ← List.filterMap_eq_filter]
  refine List.filterMap_congr fun j _ => ?_
  by_cases hw : IsTx j.address
  · rw [if_pos ((lt_duration_iff (by omega) (by omega)).mpr hw)]
    simp [Option.guard, hw]
  · rw [if_neg (mt (lt_duration_iff (by omega) (by omega)).mp hw)]
    simp [Option.guard, hw]

/-- **The panel sees the captured writes to its addresses**, in order, each once, five cycles
after the capture. -/
theorem words_eq (t : ℕ) : words s i (4 + t) = (log (captured s i) t).filterMap Job.toPanel := by
  have hwords : words s i (4 + t) = (log (sent s i) (4 + t)).filterMap fun j => some j.word := by
    rw [log_filterMap]
    refine log_congr fun u _ => ?_
    rw [presented_eq, ← sent]
    cases sent s i u <;> rfl
  rw [hwords, log_sent, List.filterMap_filter]
  refine List.filterMap_congr fun j _ => ?_
  unfold Job.toPanel
  by_cases hw : IsTx j.address
  · simp [hw]
  · simp [hw]

/-- The words so far are the first of those shown later, … -/
theorem words_mono (t n : ℕ) : words s i t <+: words s i (t + n) := by
  unfold words
  rw [log_add]
  exact List.prefix_append _ _

/-- … and the first of those captured so far. -/
theorem words_of_captured (t : ℕ) :
    words s i t <+: (log (captured s i) t).filterMap Job.toPanel := by
  have h := words_mono (s := s) (i := i) t 4
  rwa [Nat.add_comm t, words_eq] at h

end Runs

end LcdInterface.LcdDriver

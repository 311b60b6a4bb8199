import LcdInterface.Clocked.Sensitivity
import LcdInterface.Dma.Edge

/-!
# The DMA master in simulation

`logic` has the sensitivity list of `lcdDriver.vhdl`: `Write_Edge_D`, `StatePres_D`,
`IdleCountPres_D`. The DMA waits for other signals: `StateIdle` for `Read_Edge_D`,
`StateRequestRx` and `StateTx` for `Master_WaitReq_S`. Once `IdleCountPres_D` has settled there, a
simulator misses what they wait for.

* `simulation_eq_iff`: the simulation computes what the hardware does iff, in every cycle that
  begins without an event, the signal the machine waits for is not there. `read_missed` is a read
  that the hardware captures and the simulation does not.
-/

namespace LcdInterface.Dma

open Clocked

/-! ## The two semantics -/

/-- The architecture as registers and process `logic` with its sensitivity list. -/
def logicProcess : Process Regs Logic Event (Bool × State × BitVec 32) where
  clock r l
    | .edge x => clock r l x
    | .reset => resetRegs r.burstStreamD
  logic := logic
  listed r := (r.writeEdgeD, r.statePresD, r.idleCountPresD)

section Runs

variable (stream : ℕ → BitVec 16) (e : ℕ → Event)

/-- The architecture in cycle `t` after power-up, with resets wherever `e` has them. -/
def signals (t : ℕ) : Signals := run handle (powerUp stream) e t

/-- Registers and outputs of `logic` in cycle `t` after power-up, in simulation. Every process runs
once at power-up. -/
def simulated (t : ℕ) : Regs × Logic :=
  run logicProcess.onEvent ((powerUp stream).toRegs, (powerUp stream).toLogic) e t

variable {stream e}

theorem signals_succ (t : ℕ) :
    signals stream e (t + 1) = handle (signals stream e t) (e t) := rfl

/-- `signals` is the run in which `logic` runs in every cycle. -/
theorem always_eq (t : ℕ) :
    run logicProcess.always ((powerUp stream).toRegs, (powerUp stream).toLogic) e t =
      ((signals stream e t).toRegs, (signals stream e t).toLogic) := by
  induction t with
  | zero => rfl
  | succ t ih =>
    rw [run_succ, ih, signals_succ]
    cases e t with
    | edge x => rfl
    | reset => rfl

theorem live_signals (t : ℕ) : Live (signals stream e t) := by
  have hup : Live (powerUp stream) := by
    refine ⟨?_, ?_, rfl⟩
    · intro h; cases h
    · intro h; cases h
  refine run_invariant hup (fun d x h => ?_) t
  cases x with
  | edge x => exact live_edge h
  | reset => exact live_reset d

end Runs

/-! ## Cycles without an event -/

/-- None of the three signals changes. -/
structure NoEvent (r r' : Regs) : Prop where
  writeEdge : r'.writeEdgeD = r.writeEdgeD
  state : r'.statePresD = r.statePresD
  idleCount : r'.idleCountPresD = r.idleCountPresD

theorem listed_eq_iff {r r' : Regs} :
    logicProcess.listed r' = logicProcess.listed r ↔ NoEvent r r' := by
  simp only [logicProcess, Prod.mk.injEq]
  exact ⟨fun h => ⟨h.1, h.2.1, h.2.2⟩, fun h => ⟨h.writeEdge, h.state, h.idleCount⟩⟩

/-- What the machine waits for is not there. -/
def StillWaiting (r : Regs) : Prop :=
  match r.statePresD with
  | .stateIdle => r.readEdgeD = false
  | .stateRequestRx => r.masterWaitReqS = false
  | .stateTx => r.masterWaitReqS = true
  | _ => True

variable {d : Signals} {x : Inputs}

/-- The three states that can be stayed in. -/
theorem stays_cases (hd : Live d) (h : (edge d x).statePresD = d.statePresD) :
    (d.statePresD = .stateIdle ∧ d.readEdgeD = false ∧ ¬ d.regCtrlPresD &&& regCtrlGo ≠ 0) ∨
      (d.statePresD = .stateRequestRx ∧ d.masterWaitReqS = false) ∨
      (d.statePresD = .stateTx ∧ d.masterWaitReqS = true) := by
  have h1 := hd.ne_resetIntRegData
  have h2 := hd.ne_nextBurstItem
  rw [edge_successor hd] at h
  unfold successor at h
  grind

/-- If `logic` changes nothing, the machine stays where it is once more. -/
theorem stillWaiting_of_kept (hd : Live d)
    (h : logic (edge d x).toRegs d.toLogic = d.toLogic) : StillWaiting (edge d x).toRegs := by
  have hnext : (edge (edge d x) x).statePresD = (edge d x).statePresD :=
    congrArg Logic.stateNextD h
  unfold StillWaiting
  rcases stays_cases (live_edge hd) hnext with ⟨hq, hr, -⟩ | ⟨hq, hw⟩ | ⟨hq, hw⟩
  · rw [hq]
    exact hr
  · rw [hq]
    exact hw
  · rw [hq]
    exact hw

theorem logicIdle_kept (hq : d.statePresD = .stateIdle) (he : d.readEdgeD = false)
    (hgo : ¬ d.regCtrlPresD &&& regCtrlGo ≠ 0) (he' : (edge d x).readEdgeD = false) :
    logicIdle (edge d x).toRegs d.toLogic = d.toLogic := by
  have hl : d.toLogic = logicIdle d.toRegs d.toLogic := settled_at hq
  have hctrl : (edge d x).regCtrlPresD = d.regCtrlPresD :=
    congrArg Addressable.ctrl (edge_idle_none (x := x) hq he).2
  unfold logicIdle at hl
  rw [if_neg (by rw [he]; simp), if_neg hgo] at hl
  have hregs : (edge d x).toRegUpdate =
      { d.toRegUpdate with
        regAddressPresD := d.regAddressNextD
        regRxDataPresD := d.regRxDataNextD
        regByteEnablePresD := d.regByteEnableNextD
        regBeginBurstTransferPresS := d.regBeginBurstTransferNextS } := by
    show regUpdate d.toRegs d.toLogic = _
    rw [hl]
    rfl
  unfold logicIdle
  rw [if_neg (by rw [he']; simp), if_neg (by rw [hctrl]; exact hgo)]
  refine Eq.trans ?_ hl.symm
  simp only [Logic.holdAddressable, hregs]

/-- `StateRequestRx` and `StateTx` hold the registers and the burst counter. -/
theorem edge_held (hq : d.statePresD = .stateRequestRx ∨ d.statePresD = .stateTx) :
    (edge d x).toRegUpdate = d.toRegUpdate ∧ (edge d x).burstCountPresD = d.burstCountPresD := by
  have hl := settled_at (d := d) rfl
  refine ⟨?_, ?_⟩
  · show regUpdate d.toRegs d.toLogic = _
    rw [hl]
    rcases hq with hq | hq
    · rw [hq]; rfl
    · rw [hq]; rfl
  · show d.burstCountNextD = _
    rw [hl]
    rcases hq with hq | hq
    · rw [hq]; rfl
    · rw [hq]; rfl

theorem logicRequestRx_kept (hq : d.statePresD = .stateRequestRx) (hw : d.masterWaitReqS = false)
    (hw' : (edge d x).masterWaitReqS = false) :
    logicRequestRx (edge d x).toRegs d.toLogic = d.toLogic := by
  have hl : d.toLogic = logicRequestRx d.toRegs d.toLogic := settled_at hq
  obtain ⟨hregs, hcount⟩ := edge_held (x := x) (Or.inl hq)
  refine Eq.trans ?_ hl.symm
  simp only [logicRequestRx, Logic.read, Logic.holdRegs, Logic.holdAddressable, hregs, hcount, hw,
    hw']

theorem logicTx_kept (hq : d.statePresD = .stateTx) (hw : d.masterWaitReqS = true)
    (hw' : (edge d x).masterWaitReqS = true) :
    logicTx (edge d x).toRegs d.toLogic = d.toLogic := by
  have hl : d.toLogic = logicTx d.toRegs d.toLogic := settled_at hq
  obtain ⟨hregs, hcount⟩ := edge_held (x := x) (Or.inr hq)
  refine Eq.trans ?_ hl.symm
  simp only [logicTx, Logic.holdRegs, Logic.holdAddressable, hregs, hcount, hw, hw']

/-- **In a cycle without an event `logic` has nothing to change iff the machine still waits.** -/
theorem logic_kept_iff (hd : Live d) (hst : (edge d x).statePresD = d.statePresD) :
    logic (edge d x).toRegs d.toLogic = d.toLogic ↔ StillWaiting (edge d x).toRegs := by
  refine ⟨stillWaiting_of_kept hd, fun hw => ?_⟩
  unfold StillWaiting at hw
  unfold logic
  rw [hst] at hw ⊢
  rcases stays_cases hd hst with ⟨hq, he, hgo⟩ | ⟨hq, hw0⟩ | ⟨hq, hw0⟩
  · rw [hq] at hw ⊢
    exact logicIdle_kept hq he hgo hw
  · rw [hq] at hw ⊢
    exact logicRequestRx_kept hq hw0 hw
  · rw [hq] at hw ⊢
    exact logicTx_kept hq hw0 hw

/-- **The simulation computes what the hardware does iff**, in every cycle that begins without an
event, what the machine waits for is not there. -/
theorem simulation_eq_iff (stream : ℕ → BitVec 16) (e : ℕ → Event) :
    (∀ t, simulated stream e t = ((signals stream e t).toRegs, (signals stream e t).toLogic)) ↔
      ∀ t, NoEvent (signals stream e t).toRegs (signals stream e (t + 1)).toRegs →
        StillWaiting (signals stream e (t + 1)).toRegs := by
  have hagree := Process.agree_iff (p := logicProcess) (i := e)
    (x := ((powerUp stream).toRegs, (powerUp stream).toLogic))
  simp only [always_eq, signals_succ, listed_eq_iff] at hagree ⊢
  refine hagree.trans (forall_congr' fun t => forall_congr' fun hno => ?_)
  cases he : e t with
  | edge x =>
    rw [he] at hno
    exact logic_kept_iff (live_signals t) hno.state
  | reset =>
    rw [he] at hno
    -- the machine was in `StateReset` before, which assigns all outputs
    have hq : (signals stream e t).statePresD = .stateReset := hno.state.symm
    have hl : (signals stream e t).toLogic = logicReset (signals stream e t).toLogic :=
      settled_at hq
    exact iff_of_true hl.symm trivial

/-- Power-up, and a read strobe when `StateIdle` has settled. -/
def lateRead (t : ℕ) : Event :=
  .edge (if t = 3 then { quietPort with readSi := true } else quietPort)

/-- **The hardware captures it, the simulation does not.** -/
theorem read_missed :
    ¬ ∀ t, simulated (fun _ => 0) lateRead t =
      ((signals (fun _ => 0) lateRead t).toRegs, (signals (fun _ => 0) lateRead t).toLogic) := by
  intro h
  have hstate := congrArg (fun x => x.1.statePresD) (h 6)
  revert hstate
  decide

end LcdInterface.Dma

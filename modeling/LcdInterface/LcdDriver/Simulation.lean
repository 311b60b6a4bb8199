import LcdInterface.Clocked.Sensitivity
import LcdInterface.LcdDriver.Counters

/-!
# The LCD driver in simulation

The sensitivity list of `logic` is `Write_Edge_D`, `StatePres_D`, `IdleCountPres_D`, but `logic`
reads all registers. A simulator that runs it on events of these three only still computes what
the hardware does:

* `StateLcdReset`, `StatePrepareTx` and `StateTx` count `IdleCountPres_D` down or are left, and
  `StateReset`, `StateResetIntRegData` and `StateEvalData` are left at once: there is an event in
  every cycle.
* `StateIdle` is left by an event, and until then holds all registers it reads.
* `StateNextBurstItem` also reads `BurstStreamCountPres_D`, which is always `0` (`NoStream`).

`simulation_eq` puts this together, for runs from power-up with resets anywhere.
-/

namespace LcdInterface.LcdDriver

open Clocked
open Slave (Inputs)

/-! ## The two semantics -/

/-- The architecture as registers and process `logic` with its sensitivity list. -/
def logicProcess : Process Regs Logic Event (Bool × State × BitVec 32) where
  clock r l
    | .edge x => clock r l x
    | .reset => resetRegs r.burstStreamD
  logic := logic
  listed r := (r.writeEdgeD, r.statePresD, r.idleCountPresD)

section Runs

variable (stream : ℕ → BitVec 16) (e : ℕ → Event)

/-- Registers and outputs of `logic` in cycle `t` after power-up, in simulation. Every process runs
once at power-up. -/
def simulated (t : ℕ) : Regs × Logic :=
  run logicProcess.onEvent ((powerUp stream).toRegs, (powerUp stream).toLogic) e t

variable {stream e}

/-- `signals` is the run in which `logic` runs in every cycle. -/
theorem always_eq (t : ℕ) :
    run logicProcess.always ((powerUp stream).toRegs, (powerUp stream).toLogic) e t =
      ((signals stream e t).toRegs, (signals stream e t).toLogic) := by
  induction t with
  | zero => rfl
  | succ t ih =>
    rw [run_succ, ih, signals_succ]
    cases e t with
    | edge x => rfl
    | reset => rfl

end Runs

/-! ## Cycles without an event -/

/-- None of the three signals changes. -/
structure NoEvent (r r' : Regs) : Prop where
  writeEdge : r'.writeEdgeD = r.writeEdgeD
  state : r'.statePresD = r.statePresD
  idleCount : r'.idleCountPresD = r.idleCountPresD

theorem listed_eq_iff {r r' : Regs} :
    logicProcess.listed r' = logicProcess.listed r ↔ NoEvent r r' := by
  simp only [logicProcess, Prod.mk.injEq]
  exact ⟨fun h => ⟨h.1, h.2.1, h.2.2⟩, fun h => ⟨h.writeEdge, h.state, h.idleCount⟩⟩

variable {s : Signals} {x : Inputs}

/-- The states that count are left, or count. -/
theorem NoEvent.not_counting (h : NoEvent s.toRegs (edge s x).toRegs) :
    ¬ Counting s.statePresD := by
  intro hq
  have hcount : (edge s x).idleCountPresD = s.idleCountPresD := h.idleCount
  rcases Nat.eq_zero_or_pos s.idleCountPresD.toNat with hc | hc
  · exact edge_counting_zero hq hc h.state
  · have hdown := (edge_counting_pos (x := x) hq hc).2
    rw [hcount] at hdown
    omega

/-- Such a cycle is spent in `StateIdle` without a pulse, or in `StateNextBurstItem`. -/
theorem NoEvent.state_cases (h : NoEvent s.toRegs (edge s x).toRegs) :
    (s.statePresD = .stateIdle ∧ s.writeEdgeD = false) ∨ s.statePresD = .stateNextBurstItem := by
  have hstate : (edge s x).statePresD = s.statePresD := h.state
  cases hq : s.statePresD with
  | stateReset =>
    rw [(edge_reset hq).1, hq] at hstate
    simp at hstate
  | stateLcdReset => exact absurd (Or.inl hq) h.not_counting
  | stateResetIntRegData =>
    rw [edge_resetIntRegData hq, hq] at hstate
    simp at hstate
  | stateIdle =>
    refine Or.inl ⟨rfl, ?_⟩
    by_contra he
    rw [(edge_idle_some hq (by simpa using he)).1, hq] at hstate
    simp at hstate
  | stateNextBurstItem => exact Or.inr rfl
  | stateEvalData =>
    by_cases ha : IsTx s.regAddressPresD
    · rw [(edge_evalData_tx hq ha).1, hq] at hstate
      simp at hstate
    · rw [edge_evalData_other hq ha, hq] at hstate
      simp at hstate
  | statePrepareTx => exact absurd (Or.inr (Or.inl hq)) h.not_counting
  | stateTx => exact absurd (Or.inr (Or.inr hq)) h.not_counting

/-- Without a pulse `StateIdle` holds its registers. -/
theorem logicIdle_kept (hq : s.statePresD = .stateIdle) (he : s.writeEdgeD = false)
    (he' : (edge s x).writeEdgeD = false) :
    logicIdle (edge s x).toRegs s.toLogic = s.toLogic := by
  have hl : s.toLogic = logicIdle s.toRegs s.toLogic := settled_at hq
  unfold logicIdle at hl
  rw [if_neg (by rw [he]; simp)] at hl
  have hregs : (edge s x).toRegUpdate = s.toRegUpdate := by
    show regUpdate s.toRegs s.toLogic = _
    rw [hl]
    rfl
  unfold logicIdle
  rw [if_neg (by rw [he']; simp)]
  refine Eq.trans ?_ hl.symm
  simp only [Logic.holdRegs, hregs]

/-- `StateNextBurstItem` clears `RegData` and holds the other registers. -/
theorem logicNextBurstItem_kept (hq : s.statePresD = .stateNextBurstItem) (hn : NoStream s) :
    logicNextBurstItem (edge s x).toRegs s.toLogic = s.toLogic := by
  have hle : ∀ {s : Signals}, NoStream s → ¬ s.burstStreamCountPresD > s.burstCountPresD := by
    intro s hn
    rw [hn.pres]
    simp
  have hl : s.toLogic = logicNextBurstItem s.toRegs s.toLogic := settled_at hq
  unfold logicNextBurstItem at hl
  rw [if_neg (hle hn)] at hl
  have hregs : (edge s x).toRegUpdate = { s.toRegUpdate with regDataPresD := 0 } := by
    show regUpdate s.toRegs s.toLogic = _
    rw [hl]
    rfl
  have hcount : (edge s x).burstCountPresD = s.burstCountPresD := by
    rw [edge_burstCountPresD, hl]
  unfold logicNextBurstItem
  rw [if_neg (hle (noStream_edge hn))]
  refine Eq.trans ?_ hl.symm
  simp only [Logic.holdRegs, hregs, hcount]

/-- **Without an event `logic` has nothing to change.** -/
theorem logic_kept (hn : NoStream s) (h : NoEvent s.toRegs (edge s x).toRegs) :
    logic (edge s x).toRegs s.toLogic = s.toLogic := by
  have hstate : (edge s x).statePresD = s.statePresD := h.state
  unfold logic
  rcases h.state_cases with ⟨hq, he⟩ | hq
  · rw [hstate, hq]
    exact logicIdle_kept hq he (h.writeEdge.trans he)
  · rw [hstate, hq]
    exact logicNextBurstItem_kept hq hn

/-- **The simulation computes what the hardware does.** -/
theorem simulation_eq (stream : ℕ → BitVec 16) (e : ℕ → Event) (t : ℕ) :
    simulated stream e t = ((signals stream e t).toRegs, (signals stream e t).toLogic) := by
  rw [← always_eq]
  refine Process.agree_iff.mpr (fun t => ?_) t
  simp only [always_eq, signals_succ]
  rw [listed_eq_iff]
  intro hno
  cases he : e t with
  | edge x =>
    rw [he] at hno
    exact logic_kept (noStream_signals t) hno
  | reset =>
    rw [he] at hno
    -- the machine was in `StateReset` before, which assigns all outputs but `BitEnable_D`
    have hq : (signals stream e t).statePresD = .stateReset := hno.state.symm
    have hl : (signals stream e t).toLogic = logicReset (signals stream e t).toLogic :=
      settled_at hq
    exact hl.symm

end LcdInterface.LcdDriver

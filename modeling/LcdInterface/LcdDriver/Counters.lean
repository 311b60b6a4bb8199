import LcdInterface.LcdDriver.Strobe

/-!
# The counters of the LCD driver

`IdleCountPres_D` times `StateLcdReset`, `StatePrepareTx` and `StateTx`: whichever state comes
before loads it, and these three count it down. `BurstCountPres_D` is what is left of a burst. Runs
are from power-up, with resets anywhere.

* `counterStep_edge`: what one edge does to the two counters. None is decremented at zero.
* `counter_law`: the bounds of `IdleCountPres_D`, and how long the three states last.
-/

namespace LcdInterface.LcdDriver

open Clocked
open Slave (Inputs)

/-- The states that count `IdleCountPres_D` down. -/
def Counting (q : State) : Prop := q = .stateLcdReset ∨ q = .statePrepareTx ∨ q = .stateTx

/-- The values that are loaded into `IdleCountPres_D`. -/
def idleReloads : List (BitVec 32) := [0#32, 2#32, 3#32, 5#32, 500000000#32]

/-- The counters before and after an edge. -/
structure CounterStep (s s' : Signals) : Prop where
  /-- `IdleCountPres_D` is loaded, or counts down from above zero. -/
  idle : s'.idleCountPresD ∈ idleReloads ∨
    Counting s.statePresD ∧ 0 < s.idleCountPresD.toNat ∧
      s'.idleCountPresD.toNat + 1 = s.idleCountPresD.toNat
  /-- `BurstCountPres_D` is cleared, held, captured in `StateIdle`, or counts down in `StateTx` from
  above zero. -/
  burst : s'.burstCountPresD = 0 ∨ s'.burstCountPresD = s.burstCountPresD ∨
    (s.statePresD = .stateIdle ∧ s'.burstCountPresD = s.burstCountPD) ∨
    s.statePresD = .stateTx ∧ 0 < s.burstCountPresD.toNat ∧
      s'.burstCountPresD.toNat + 1 = s.burstCountPresD.toNat

variable {s : Signals} {x : Inputs}

/-! ## One edge -/

/-- Above zero the state is kept. -/
theorem edge_counting_pos (hq : Counting s.statePresD) (hc : 0 < s.idleCountPresD.toNat) :
    (edge s x).statePresD = s.statePresD ∧
      (edge s x).idleCountPresD.toNat + 1 = s.idleCountPresD.toNat := by
  rcases hq with hq | hq | hq
  · rw [hq]
    exact edge_lcdReset_pos hq hc
  · rw [hq]
    exact edge_prepareTx_pos hq hc
  · rw [hq]
    obtain ⟨hstate, hdown, -⟩ := edge_tx_pos (i := x) hq hc
    exact ⟨hstate, hdown⟩

/-- At zero it is left. -/
theorem edge_counting_zero (hq : Counting s.statePresD) (hc : s.idleCountPresD.toNat = 0) :
    (edge s x).statePresD ≠ s.statePresD := by
  rcases hq with hq | hq | hq
  · rw [edge_lcdReset_zero hq hc, hq]
    simp
  · rw [(edge_prepareTx_zero hq hc).1, hq]
    simp
  · rw [hq]
    by_cases hb : s.burstCountPresD = 0
    · rw [edge_tx_last hq hc hb]
      simp
    · rw [edge_tx_next hq hc hb]
      simp

/-- What each state loads into the idle counter. -/
theorem idle_reload (h : Counting s.statePresD → s.idleCountPresD.toNat = 0) :
    (edge s x).idleCountPresD = match s.statePresD with
      | .stateReset => 500000000#32
      | .stateLcdReset => 0
      | .stateResetIntRegData => 0
      | .stateIdle => 5#32
      | .stateNextBurstItem => 2#32
      | .stateEvalData => 2#32
      | .statePrepareTx => 3#32
      | .stateTx => 0 := by
  rw [edge_idleCountPresD]
  cases hq : s.statePresD with
  | stateReset =>
    have hl : s.toLogic = logicReset s.toLogic := settled_at hq
    rw [hl]
    rfl
  | stateLcdReset =>
    have hc := h (Or.inl hq)
    have hl : s.toLogic = logicLcdReset s.toRegs s.toLogic := settled_at hq
    rw [hl]
    simp only [logicLcdReset, hc, Nat.lt_irrefl, if_false]
  | stateResetIntRegData =>
    have hl : s.toLogic = logicResetIntRegData s.toLogic := settled_at hq
    rw [hl]
    rfl
  | stateIdle =>
    have hl : s.toLogic = logicIdle s.toRegs s.toLogic := settled_at hq
    rw [hl]
    simp only [logicIdle]
    split <;> rfl
  | stateNextBurstItem =>
    have hl : s.toLogic = logicNextBurstItem s.toRegs s.toLogic := settled_at hq
    rw [hl]
    simp only [logicNextBurstItem]
    split <;> rfl
  | stateEvalData =>
    have hl : s.toLogic = logicEvalData s.toRegs s.toLogic := settled_at hq
    rw [hl]
    simp only [logicEvalData]
    split_ifs <;> rfl
  | statePrepareTx =>
    have hc := h (Or.inr (Or.inl hq))
    exact (edge_prepareTx_zero (i := x) hq hc).2
  | stateTx =>
    have hc := h (Or.inr (Or.inr hq))
    have hl : s.toLogic = logicTx s.toRegs s.toLogic := settled_at hq
    rw [hl]
    simp only [logicTx, hc, Nat.lt_irrefl, if_false]
    split <;> rfl

theorem idle_step : (edge s x).idleCountPresD ∈ idleReloads ∨
    Counting s.statePresD ∧ 0 < s.idleCountPresD.toNat ∧
      (edge s x).idleCountPresD.toNat + 1 = s.idleCountPresD.toNat := by
  by_cases h : Counting s.statePresD ∧ 0 < s.idleCountPresD.toNat
  · exact Or.inr ⟨h.1, h.2, (edge_counting_pos h.1 h.2).2⟩
  · left
    rw [idle_reload fun hq => by
      by_contra hne
      exact h ⟨hq, Nat.pos_of_ne_zero hne⟩]
    cases s.statePresD <;> decide

theorem burst_step : (edge s x).burstCountPresD = 0 ∨
    (edge s x).burstCountPresD = s.burstCountPresD ∨
    (s.statePresD = .stateIdle ∧ (edge s x).burstCountPresD = s.burstCountPD) ∨
    s.statePresD = .stateTx ∧ 0 < s.burstCountPresD.toNat ∧
      (edge s x).burstCountPresD.toNat + 1 = s.burstCountPresD.toNat := by
  rw [edge_burstCountPresD]
  cases hq : s.statePresD with
  | stateReset =>
    have hl : s.toLogic = logicReset s.toLogic := settled_at hq
    left
    rw [hl]
    rfl
  | stateLcdReset =>
    have hl : s.toLogic = logicLcdReset s.toRegs s.toLogic := settled_at hq
    right; left
    rw [hl]
    rfl
  | stateResetIntRegData =>
    have hl : s.toLogic = logicResetIntRegData s.toLogic := settled_at hq
    left
    rw [hl]
    rfl
  | stateIdle =>
    have hl : s.toLogic = logicIdle s.toRegs s.toLogic := settled_at hq
    by_cases hload : s.writeEdgeD = true ∧ s.beginBurstTransferPS = true
    · right; right; left
      refine ⟨rfl, ?_⟩
      rw [hl]
      simp [logicIdle, hload.1, hload.2]
    · left
      rw [hl]
      simp only [logicIdle]
      split
      · rename_i he
        simp [show s.beginBurstTransferPS = false by simpa [he] using hload]
      · rfl
  | stateNextBurstItem =>
    have hl : s.toLogic = logicNextBurstItem s.toRegs s.toLogic := settled_at hq
    right; left
    rw [hl]
    simp only [logicNextBurstItem]
    split <;> rfl
  | stateEvalData =>
    have hl : s.toLogic = logicEvalData s.toRegs s.toLogic := settled_at hq
    right; left
    rw [hl]
    simp only [logicEvalData]
    split_ifs <;> rfl
  | statePrepareTx =>
    have hl : s.toLogic = logicPrepareTx s.toRegs s.toLogic := settled_at hq
    right; left
    rw [hl]
    rfl
  | stateTx =>
    have hl : s.toLogic = logicTx s.toRegs s.toLogic := settled_at hq
    rw [hl]
    simp only [logicTx]
    have hdown : ∀ v : BitVec 17, 0 < v.toNat → (v - 1#17).toNat + 1 = v.toNat := by
      intro v hv
      bv_omega
    split_ifs with hc hb
    · exact Or.inr (Or.inl rfl)
    · exact Or.inr (Or.inr (Or.inr ⟨trivial, hb, hdown _ hb⟩))
    · exact Or.inl rfl

theorem counterStep_edge (s : Signals) (x : Inputs) : CounterStep s (edge s x) :=
  ⟨idle_step, burst_step⟩

/-! ## Bounds -/

/-- The bounds of `IdleCountPres_D`. -/
structure IdleBounded (s : Signals) : Prop where
  /-- `to_integer` of it is an `integer`. -/
  le : s.idleCountPresD.toNat ≤ 500000000
  prepareTx_le : s.statePresD = .statePrepareTx → s.idleCountPresD.toNat ≤ 2
  tx_le : s.statePresD = .stateTx → s.idleCountPresD.toNat ≤ 3

theorem idleBounded_reset (s : Signals) : IdleBounded (reset s) :=
  ⟨Nat.zero_le _, fun _ => Nat.zero_le _, fun _ => Nat.zero_le _⟩

theorem edge_idle (hq : s.statePresD = .stateIdle) :
    (edge s x).statePresD = .stateIdle ∨ (edge s x).statePresD = .stateEvalData := by
  cases he : s.writeEdgeD with
  | false => exact Or.inl (edge_idle_none hq he)
  | true => exact Or.inr (edge_idle_some hq he).1

/-- A count loaded for `StatePrepareTx` or `StateTx`. -/
theorem idle_loaded (h : Counting s.statePresD → s.idleCountPresD.toNat = 0)
    (hn : (edge s x).statePresD = .statePrepareTx ∨ (edge s x).statePresD = .stateTx) :
    (edge s x).idleCountPresD.toNat ≤ 3 ∧
      ((edge s x).statePresD = .statePrepareTx → (edge s x).idleCountPresD.toNat ≤ 2) := by
  have hload := idle_reload (x := x) h
  cases hq : s.statePresD with
  | stateReset =>
    rw [(edge_reset hq).1] at hn
    simp at hn
  | stateIdle =>
    rcases edge_idle (x := x) hq with he | he
    · rw [he] at hn; simp at hn
    · rw [he] at hn; simp at hn
  | statePrepareTx =>
    rw [hq] at hload
    have hnext := (edge_prepareTx_zero (i := x) hq (h (Or.inr (Or.inl hq)))).1
    rw [hload, hnext]
    exact ⟨by decide, fun he => by simp at he⟩
  | stateLcdReset => rw [hload, hq]; exact ⟨by decide, fun _ => by decide⟩
  | stateResetIntRegData => rw [hload, hq]; exact ⟨by decide, fun _ => by decide⟩
  | stateNextBurstItem => rw [hload, hq]; exact ⟨by decide, fun _ => by decide⟩
  | stateEvalData => rw [hload, hq]; exact ⟨by decide, fun _ => by decide⟩
  | stateTx => rw [hload, hq]; exact ⟨by decide, fun _ => by decide⟩

theorem idleBounded_edge (h : IdleBounded s) : IdleBounded (edge s x) := by
  by_cases hcount : Counting s.statePresD ∧ 0 < s.idleCountPresD.toNat
  · obtain ⟨hstate, hdown⟩ := edge_counting_pos (x := x) hcount.1 hcount.2
    refine ⟨?_, fun hn => ?_, fun hn => ?_⟩
    · have := h.le
      omega
    · have := h.prepareTx_le (hstate.symm.trans hn)
      omega
    · have := h.tx_le (hstate.symm.trans hn)
      omega
  · have hzero : Counting s.statePresD → s.idleCountPresD.toNat = 0 := by
      intro hq
      by_contra hne
      exact hcount ⟨hq, Nat.pos_of_ne_zero hne⟩
    refine ⟨?_, fun hn => (idle_loaded hzero (Or.inl hn)).2 hn,
      fun hn => (idle_loaded hzero (Or.inr hn)).1⟩
    rw [idle_reload hzero]
    cases s.statePresD <;> decide

/-! ## The law -/

/-- What holds of the counters in a reachable state. -/
structure CounterLaw (s : Signals) : Prop extends IdleBounded s where
  step : ∀ x, CounterStep s (edge s x)
  /-- A stay that starts with count `n` lasts `n + 1` cycles. -/
  stay : Counting s.statePresD → ∀ i : ℕ → Inputs,
    (∀ k, k ≤ s.idleCountPresD.toNat → (run edge s i k).statePresD = s.statePresD) ∧
      (run edge s i (s.idleCountPresD.toNat + 1)).statePresD ≠ s.statePresD

theorem idleBounded_signals {stream : ℕ → BitVec 16} {e : ℕ → Event} (t : ℕ) :
    IdleBounded (signals stream e t) := by
  refine run_invariant (s := powerUp stream) (idleBounded_reset (powerUp stream))
    (fun s x h => ?_) t
  cases x with
  | edge x => exact idleBounded_edge h
  | reset => exact idleBounded_reset s

/-- How long the machine stays where it counts. -/
theorem stay_eq (hq : Counting s.statePresD) (i : ℕ → Inputs) :
    (∀ k, k ≤ s.idleCountPresD.toNat → (run edge s i k).statePresD = s.statePresD) ∧
      (run edge s i (s.idleCountPresD.toNat + 1)).statePresD ≠ s.statePresD := by
  refine run_countdown (P := fun r : Signals => r.statePresD = s.statePresD)
    (c := fun r => r.idleCountPresD.toNat) (fun r x hr hc => ?_) (fun r x hr hc => ?_) rfl
  · obtain ⟨hstate, hdown⟩ := edge_counting_pos (x := x) (hr ▸ hq) hc
    exact ⟨hstate.trans hr, hdown⟩
  · rw [← hr]
    exact edge_counting_zero (hr ▸ hq) hc

/-- **The counters in every reachable state.** -/
theorem counter_law (stream : ℕ → BitVec 16) (e : ℕ → Event) (t : ℕ) :
    CounterLaw (signals stream e t) :=
  { idleBounded_signals t with
    step := fun x => counterStep_edge _ x
    stay := stay_eq }

end LcdInterface.LcdDriver

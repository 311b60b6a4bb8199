import LcdInterface.LcdDriver.Bus

/-!
# The panel's bus across the write strobe

The panel latches `DB_DIO` and `DC_NSO` at the rising edge of `Wr_NSO`, which is the edge from
`StatePrepareTx` to `StateTx`. Both states mask `RegDataPres_D` with the variable `BitEnable_D`, but
only `StateTx` computes it: `StatePrepareTx` uses what the last transmitted word left there. Runs
here are from power-up, with resets anywhere.

* `strobe_iff`: the strobe is the entry into `StateTx`.
* `bitEnableD_eq`: `BitEnable_D` is the byte enables of the last transmitted word.
* `stable_iff`: the bus is stable across every strobe iff every byte whose enable differs from that
  of the word before is zero. `first_write_unstable` is the first write after power-up.
-/

namespace LcdInterface.LcdDriver

open Clocked Clocked.Server
open Slave (Inputs)

/-! ## The strobe signals in each state -/

/-- The panel is selected in the transmit states only; `StateResetIntRegData` keeps it selected. -/
theorem state_of_select {s : Signals} (h : s.csNso = false) :
    (s.statePresD = .statePrepareTx ∧ s.wrNso = false) ∨
      (s.statePresD = .stateTx ∧ s.wrNso = true) ∨ s.statePresD = .stateResetIntRegData := by
  have hcs : (pins s.toLogic).csNso = false := h
  cases hq : s.statePresD with
  | stateReset =>
    rw [pins_reset hq] at hcs
    simp [Pins.reset] at hcs
  | stateLcdReset =>
    rw [pins_lcdReset hq] at hcs
    simp [Pins.lcdReset] at hcs
  | stateResetIntRegData => exact Or.inr (Or.inr rfl)
  | stateIdle =>
    rw [pins_idle hq] at hcs
    simp [Pins.idle] at hcs
  | stateNextBurstItem =>
    rw [pins_nextBurstItem hq] at hcs
    simp [Pins.idle] at hcs
  | stateEvalData =>
    rw [pins_evalData hq] at hcs
    simp [Pins.evalData] at hcs
  | statePrepareTx => exact Or.inl ⟨rfl, congrArg Pins.wrNso (pins_prepareTx hq)⟩
  | stateTx => exact Or.inr (Or.inl ⟨rfl, congrArg Pins.wrNso (pins_tx hq)⟩)

theorem prepareTx_outputs {s : Signals} (h : s.statePresD = .statePrepareTx) :
    s.csNso = false ∧ s.wrNso = false ∧ s.dbDio = s.regDataPresD &&& s.bitEnableD ∧
      s.dcNso = dataCmd s.regAddressPresD := by
  have hp := pins_prepareTx h
  exact ⟨congrArg Pins.csNso hp, congrArg Pins.wrNso hp, congrArg Pins.dbDio hp,
    congrArg Pins.dcNso hp⟩

theorem tx_outputs {s : Signals} (h : s.statePresD = .stateTx) :
    s.csNso = false ∧ s.wrNso = true ∧
      s.dbDio = s.regDataPresD &&& bitEnable s.regByteEnablePresD ∧
      s.dcNso = dataCmd s.regAddressPresD := by
  have hp := pins_tx h
  exact ⟨congrArg Pins.csNso hp, congrArg Pins.wrNso hp, congrArg Pins.dbDio hp,
    congrArg Pins.dcNso hp⟩

/-- `StatePrepareTx` leads to itself or to `StateTx`. -/
theorem edge_prepareTx {s : Signals} {x : Inputs} (h : s.statePresD = .statePrepareTx) :
    (edge s x).statePresD = .statePrepareTx ∨ (edge s x).statePresD = .stateTx := by
  rcases Nat.eq_zero_or_pos s.idleCountPresD.toNat with hc | hc
  · exact Or.inr (edge_prepareTx_zero h hc).1
  · exact Or.inl (edge_prepareTx_pos h hc).1

/-- `StateTx` is entered from `StatePrepareTx` only. -/
theorem prepareTx_of_edge {s : Signals} {x : Inputs} (h : s.statePresD ≠ .stateTx)
    (hn : (edge s x).statePresD = .stateTx) : s.statePresD = .statePrepareTx := by
  have hs := s.settled
  rw [edge_statePresD, ← hs] at hn
  unfold logic at hn
  cases hq : s.statePresD with
  | statePrepareTx => rfl
  | stateTx => exact absurd hq h
  | stateReset => rw [hq] at hn; exact absurd hn (by simp [branch, logicReset])
  | stateLcdReset =>
    rw [hq] at hn
    simp only [branch, logicLcdReset] at hn
    split at hn <;> simp at hn
  | stateResetIntRegData => rw [hq] at hn; exact absurd hn (by simp [branch, logicResetIntRegData])
  | stateIdle =>
    rw [hq] at hn
    simp only [branch, logicIdle] at hn
    split at hn <;> simp at hn
  | stateNextBurstItem =>
    rw [hq] at hn
    simp only [branch, logicNextBurstItem] at hn
    split at hn <;> simp at hn
  | stateEvalData =>
    rw [hq] at hn
    simp only [branch, logicEvalData] at hn
    split_ifs at hn

/-- `StateResetIntRegData` is entered with the panel deselected or `Wr_NSO` back at `'1'`. -/
theorem select_of_edge {s : Signals} {x : Inputs}
    (hn : (edge s x).statePresD = .stateResetIntRegData) : s.csNso = true ∨ s.wrNso = true := by
  by_contra hno
  rw [not_or, Bool.not_eq_true, Bool.not_eq_true] at hno
  obtain ⟨hcs, hwr⟩ := hno
  rcases state_of_select hcs with ⟨hq, -⟩ | ⟨-, hw⟩ | hq
  · rcases edge_prepareTx (x := x) hq with h | h
    · rw [h] at hn; simp at hn
    · rw [h] at hn; simp at hn
  · rw [hw] at hwr
    simp at hwr
  · rw [edge_resetIntRegData hq] at hn
    simp at hn

/-! ## `BitEnable_D` -/

theorem bitEnableD_tx {s : Signals} (h : s.statePresD = .stateTx) :
    s.bitEnableD = bitEnable s.regByteEnablePresD := by
  have hl : s.toLogic = logicTx s.toRegs s.toLogic := settled_at h
  rw [hl]
  unfold logicTx
  split_ifs <;> rfl

/-- Only `StateTx` writes `BitEnable_D`. -/
theorem logic_bitEnableD {r : Regs} (h : r.statePresD ≠ .stateTx) (l : Logic) :
    (logic r l).bitEnableD = l.bitEnableD := by
  unfold logic
  cases hq : r.statePresD with
  | stateReset => rfl
  | stateLcdReset => rfl
  | stateResetIntRegData => rfl
  | stateIdle => simp only [branch, logicIdle]; split <;> rfl
  | stateNextBurstItem => simp only [branch, logicNextBurstItem]; split <;> rfl
  | stateEvalData => simp only [branch, logicEvalData]; split_ifs <;> rfl
  | statePrepareTx => rfl
  | stateTx => exact absurd hq h

/-! ## Runs from power-up -/

section Runs

variable (stream : ℕ → BitVec 16) (e : ℕ → Event)

/-- The architecture in cycle `t` after power-up, with resets wherever `e` has them. -/
def signals (t : ℕ) : Signals := run handle (powerUp stream) e t

/-- `Wr_NSO` rises after cycle `t` while `Cs_NSO` stays `'0'`. -/
structure Strobe (t : ℕ) : Prop where
  select : (signals stream e t).csNso = false
  selectNext : (signals stream e (t + 1)).csNso = false
  low : (signals stream e t).wrNso = false
  high : (signals stream e (t + 1)).wrNso = true

/-- The bus is the same in both cycles: `RegDataPres_D` masked by the byte enables of its write. -/
structure Stable (t : ℕ) : Prop where
  data : (signals stream e t).dbDio = (signals stream e (t + 1)).dbDio
  dataCmd : (signals stream e t).dcNso = (signals stream e (t + 1)).dcNso
  masked : (signals stream e t).dbDio =
    (signals stream e t).regDataPresD &&& byteMask (signals stream e t).regByteEnablePresD

/-- `StateTx` is entered after cycle `t`. -/
def EntersTx (t : ℕ) : Prop :=
  (signals stream e t).statePresD ≠ .stateTx ∧ (signals stream e (t + 1)).statePresD = .stateTx

/-- The byte enables of the last word transmitted by cycle `t`, none at power-up. -/
def lastSent : ℕ → BitVec 2
  | 0 => 0
  | t + 1 =>
    if (signals stream e (t + 1)).statePresD = .stateTx then
      (signals stream e (t + 1)).regByteEnablePresD
    else lastSent t

variable {stream e}

theorem signals_succ (t : ℕ) :
    signals stream e (t + 1) = handle (signals stream e t) (e t) := rfl

theorem noStream_signals (t : ℕ) : NoStream (signals stream e t) := by
  refine run_invariant (s := powerUp stream) ⟨rfl, rfl, rfl⟩ (fun s x h => ?_) t
  cases x with
  | edge x => exact noStream_edge h
  | reset => exact noStream_reset s

/-- In `StateResetIntRegData` the strobe is over. -/
theorem wrNso_resetIntRegData (t : ℕ) :
    (signals stream e t).statePresD = .stateResetIntRegData →
      (signals stream e t).csNso = true ∨ (signals stream e t).wrNso = true := by
  cases t with
  | zero => intro h; exact absurd h (by simp [signals, powerUp, settle, resetRegs])
  | succ t =>
    rw [signals_succ]
    cases e t with
    | reset => intro h; exact absurd h (by simp [handle, reset, settle, resetRegs])
    | edge x =>
      intro h
      have hkept := pins_kept (s := signals stream e t) (i := x) h
      have hcs : (edge (signals stream e t) x).csNso = (signals stream e t).csNso :=
        congrArg Pins.csNso hkept
      have hwr : (edge (signals stream e t) x).wrNso = (signals stream e t).wrNso :=
        congrArg Pins.wrNso hkept
      show (edge (signals stream e t) x).csNso = true ∨ (edge (signals stream e t) x).wrNso = true
      rw [hcs, hwr]
      exact select_of_edge h

theorem next_prepareTx {t : ℕ} (h : (signals stream e t).statePresD = .statePrepareTx) :
    (signals stream e (t + 1)).statePresD ≠ .stateResetIntRegData := by
  rw [signals_succ]
  cases e t with
  | reset => simp [handle, reset, settle, resetRegs]
  | edge x =>
    show (edge (signals stream e t) x).statePresD ≠ _
    rcases edge_prepareTx (x := x) h with hq | hq
    · rw [hq]; simp
    · rw [hq]; simp

theorem EntersTx.prepareTx {t : ℕ} (h : EntersTx stream e t) :
    (signals stream e t).statePresD = .statePrepareTx ∧
      ∃ x, signals stream e (t + 1) = edge (signals stream e t) x := by
  obtain ⟨hne, htx⟩ := h
  rw [signals_succ] at htx ⊢
  cases he : e t with
  | reset =>
    rw [he] at htx
    exact absurd htx (by simp [handle, reset, settle, resetRegs])
  | edge x =>
    rw [he] at htx
    exact ⟨prepareTx_of_edge hne htx, x, rfl⟩

/-- **The strobe is the entry into `StateTx`.** -/
theorem strobe_iff {t : ℕ} : Strobe stream e t ↔ EntersTx stream e t := by
  constructor
  · intro h
    have hq : (signals stream e t).statePresD = .statePrepareTx := by
      rcases state_of_select h.select with ⟨hq, -⟩ | ⟨-, hw⟩ | hq
      · exact hq
      · rw [h.low] at hw
        simp at hw
      · rcases wrNso_resetIntRegData t hq with hc | hw
        · rw [h.select] at hc
          simp at hc
        · rw [h.low] at hw
          simp at hw
    refine ⟨by rw [hq]; simp, ?_⟩
    rcases state_of_select h.selectNext with ⟨-, hw⟩ | ⟨hq', -⟩ | hq'
    · rw [h.high] at hw
      simp at hw
    · exact hq'
    · exact absurd hq' (next_prepareTx hq)
  · intro h
    obtain ⟨hcs, hwr, -, -⟩ := prepareTx_outputs h.prepareTx.1
    obtain ⟨hcs', hwr', -, -⟩ := tx_outputs h.2
    exact ⟨hcs, hcs', hwr, hwr'⟩

/-- **`BitEnable_D` is what the last transmitted word left there.** -/
theorem bitEnableD_eq (t : ℕ) :
    (signals stream e t).bitEnableD = bitEnable (lastSent stream e t) := by
  induction t with
  | zero => rfl
  | succ t ih =>
    unfold lastSent
    split
    · rename_i htx
      exact bitEnableD_tx htx
    · rename_i htx
      rw [← ih, signals_succ]
      rw [signals_succ] at htx
      cases he : e t with
      | reset => rfl
      | edge x =>
        rw [he] at htx
        exact logic_bitEnableD htx _

theorem and_eq_and_iff {w : ℕ} (d m n : BitVec w) : d &&& m = d &&& n ↔ d &&& (n ^^^ m) = 0 := by
  have hdist : d &&& (n ^^^ m) = (d &&& n) ^^^ (d &&& m) := by
    ext k hk
    simp [Bool.and_xor_distrib_left]
  rw [hdist, BitVec.ofNat_eq_ofNat, BitVec.xor_eq_zero_iff]
  exact eq_comm

/-- At one strobe. -/
theorem EntersTx.stable_at_iff {t : ℕ} (h : EntersTx stream e t) :
    Stable stream e t ↔
      (signals stream e t).regDataPresD &&&
        (byteMask (signals stream e t).regByteEnablePresD ^^^ byteMask (lastSent stream e t)) =
          0 := by
  obtain ⟨hq, x, hx⟩ := h.prepareTx
  obtain ⟨hsame, hdata⟩ := edge_prepareTx_same (i := x) hq
  obtain ⟨-, -, hdb, hdc⟩ := prepareTx_outputs hq
  obtain ⟨-, -, hdb', hdc'⟩ := tx_outputs h.2
  rw [hx] at hdb' hdc'
  rw [bitEnableD_eq, bitEnable_eq] at hdb
  rw [hdata, hsame.byteEnable, bitEnable_eq] at hdb'
  rw [hsame.address] at hdc'
  rw [← and_eq_and_iff, ← hdb]
  constructor
  · exact fun hs => hs.masked
  · intro hm
    refine ⟨?_, ?_, hm⟩
    · rw [hx, hdb', hm]
    · rw [hx, hdc, hdc']

end Runs

/-- **The bus is stable across every write strobe iff every byte whose enable differs from that of
the word before is zero.** -/
theorem stable_iff (stream : ℕ → BitVec 16) (e : ℕ → Event) :
    (∀ t, Strobe stream e t → Stable stream e t) ↔
      ∀ t, EntersTx stream e t →
        (signals stream e t).regDataPresD &&&
          (byteMask (signals stream e t).regByteEnablePresD ^^^ byteMask (lastSent stream e t)) =
            0 := by
  refine forall_congr' fun t => ?_
  rw [strobe_iff]
  exact forall_congr' fun h => h.stable_at_iff

/-- Power-up, one reset, and one command after it. -/
def firstWrite : ℕ → Event
  | 0 => .reset
  | t + 1 => .edge (oneCommand t)

theorem signals_firstWrite (t : ℕ) :
    signals (fun _ => 0) firstWrite (t + 1) = cycle fresh oneCommand t := by
  induction t with
  | zero => rfl
  | succ t ih =>
    rw [signals_succ, ih]
    rfl

/-- **The first word after power-up is not on the bus before the strobe.** -/
theorem first_write_unstable :
    Strobe (fun _ => 0) firstWrite (bootCycles + 8) ∧
      ¬ Stable (fun _ => 0) firstWrite (bootCycles + 8) := by
  obtain ⟨hc, hnone⟩ : captured fresh oneCommand (bootCycles + 3) = some _ ∧
      ∀ u, u < bootCycles + 3 → captured fresh oneCommand u = none := heldWrite_captured rfl
  -- no word was transmitted before
  have hsent : ∀ t, t ≤ bootCycles + 8 → lastSent (fun _ => 0) firstWrite t = 0 := by
    intro t ht
    induction t with
    | zero => rfl
    | succ t ih =>
      unfold lastSent
      rw [if_neg, ih (by omega)]
      rw [signals_firstWrite, (refines_cycle t).tx_iff]
      rintro ⟨j, k, hp, h4, -⟩
      obtain ⟨u, hu, -, hcap⟩ := captured_of_busy hp
      rw [hnone u (by omega)] at hcap
      simp at hcap
  have hword : ∀ k, 0 < k → k < 10 → Refines (signals (fun _ => 0) firstWrite (bootCycles + 4 + k))
      (.busy (inputJob (writePort regWriteCmdAddr 0x002C#16)) k) := by
    intro k h0 h10
    have hp := busy_of_word hc (Or.inr rfl) h0 h10
    rw [show bootCycles + 4 + k = bootCycles + 3 + k + 1 by omega, signals_firstWrite, ← hp]
    exact refines_cycle _
  have h4 := hword 4 (by omega) (by omega)
  have h5 := (hword 5 (by omega) (by omega)).tx_iff.mpr ⟨_, 5, rfl, by omega, by omega⟩
  cases h4 with
  | tx _ _ _ _ hlt => omega
  | nextItem _ _ _ hlt => omega
  | prepareTx hq hj hd =>
    have henters : EntersTx (fun _ => 0) firstWrite (bootCycles + 8) :=
      ⟨by rw [hq]; simp, h5⟩
    refine ⟨strobe_iff.mpr henters, fun hst => ?_⟩
    have hzero := henters.stable_at_iff.mp hst
    rw [hd, hj.byteEnable, hsent _ (Nat.le_refl _)] at hzero
    exact absurd hzero (by decide)

end LcdInterface.LcdDriver

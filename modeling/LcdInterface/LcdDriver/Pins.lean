import LcdInterface.LcdDriver.Boot
import LcdInterface.LcdDriver.Strobe

/-!
# The panel's pins along a run

The pins are a function of the server's phase and of `BitEnable_D` (`pinsOf`), and `BitEnable_D`
follows the phase too (`maskAfter`). So the driver's outputs depend on the run through its offers
only.

* `pins_eq`: the pins in every cycle of a run from reset. `StateResetIntRegData` assigns none, so
  they are those of the state before: the LCD reset, or `StateTx`.
* `bitEnableD_succ`: `BitEnable_D` in the next cycle.
* `outputs_congr`: two runs with the same offers and the same `BitEnable_D` have the same outputs.
-/

namespace LcdInterface.LcdDriver

open Clocked Clocked.Server
open Slave (Inputs)

/-! ## In each phase -/

/-- The pins in each phase, when `BitEnable_D` is `mask`. -/
def pinsOf (mask : BitVec 16) : Phase Job → Pins
  | .down k => if k = bootCycles then .reset else .lcdReset
  | .idle => .idle
  | .busy j k =>
    if k = 1 then .evalData
    else if k < 5 then .shown false (j.data &&& mask, decide (j.address = regWriteDataAddr))
    else if k < 9 ∨ k = 9 ∧ j.burst = 0 then .shown true j.word
    else .idle

/-- `BitEnable_D` in a cycle of phase `p`, when it was `mask` in the cycle before. -/
def maskAfter (mask : BitVec 16) : Phase Job → BitVec 16
  | .busy j k => if 4 < k ∧ k < 9 then byteMask j.byteEnable else mask
  | _ => mask

/-! ## Along a run from reset -/

section Runs

variable {s : Signals} {i : ℕ → Inputs}

theorem Refines.bitEnableD {s : Signals} {j : Job} {k : ℕ} (h : Refines s (.busy j k))
    (h4 : 4 < k) (h9 : k < 9) : s.bitEnableD = byteMask j.byteEnable := by
  cases h with
  | evalData => omega
  | prepareTx _ _ _ _ _ hk => omega
  | tx hs hj => rw [bitEnableD_tx hs, hj.byteEnable, bitEnable_eq]
  | last => omega
  | nextItem _ _ _ h8 => omega

/-- The last cycle of the LCD reset is spent in `StateResetIntRegData`. -/
theorem eq_boot_of_down {t : ℕ} (h : phaseAt s i t = .down 0) : t = bootCycles := by
  have hle : t ≤ bootCycles := by
    by_contra hlt
    exact phase_ne_down (by omega) 0 h
  rw [phaseAt_boot hle, Phase.down.injEq] at h
  omega

/-- A job of age two or more goes to the panel. -/
theorem isTx_of_busy {t : ℕ} {j : Job} {k : ℕ} (h : phaseAt s i t = .busy j k) (hk : 1 < k) :
    IsTx j.address := by
  have hr := refines_cycle (s := s) (i := i) t
  rw [h] at hr
  cases hr with
  | evalData => omega
  | prepareTx _ _ _ hw => exact hw
  | tx _ _ _ hw => exact hw
  | last _ hw => exact hw
  | nextItem _ hw => exact hw

/-- A job of age nine had age eight in the cycle before. -/
theorem busy_pred {t : ℕ} {j : Job} {k : ℕ} (h : phaseAt s i t = .busy j (k + 1)) (hk : 0 < k) :
    ∃ u, t = u + 1 ∧ phaseAt s i u = .busy j k := by
  obtain ⟨u, rfl, -, -⟩ := captured_of_busy h
  refine ⟨u + k, rfl, ?_⟩
  rw [← Nat.add_assoc, phaseAt_succ, next_eq_busy] at h
  rcases h with ⟨h1, -⟩ | ⟨m, hm, hp, -⟩
  · omega
  · rw [hp]
    congr
    omega

/-- **The pins in every cycle.** -/
theorem pins_eq (t : ℕ) :
    pins (cycle s i t).toLogic = pinsOf (cycle s i t).bitEnableD (phaseAt s i t) := by
  have hr := refines_cycle (s := s) (i := i) t
  generalize hp : phaseAt s i t = p at hr ⊢
  cases hr with
  | reset h =>
    rw [pins_reset h, pinsOf, if_pos rfl]
  | lcdReset h =>
    obtain ⟨h0, ht⟩ := lcdReset_count h
    rw [pins_lcdReset h, pinsOf, if_neg (by omega)]
  | booted h =>
    have h2 : 2 < bootCycles := by unfold bootCycles; omega
    obtain ⟨u, rfl⟩ : ∃ u, t = u + 1 := ⟨t - 1, by have := eq_boot_of_down hp; omega⟩
    have hboot := eq_boot_of_down hp
    have hu := (boot_state (s := s) (i := i) (t := u) (by omega) (by omega)).1
    rw [cycle_succ] at h ⊢
    rw [pins_kept h, pins_lcdReset hu, pinsOf, if_neg (by omega)]
  | idle h => exact pins_idle h
  | evalData h => exact pins_evalData h
  | @prepareTx j k h hj hd hw h1 hk =>
    rw [pins_prepareTx h, hd, hj.address, dataCmd_eq hw, pinsOf, if_neg (by omega),
      if_pos (by omega)]
  | @tx j k h hj hd hw h4 hk =>
    have h9 : k < 9 := by omega
    rw [Refines.pins_tx (.tx h hj hd hw h4 hk) h4 h9, pinsOf, if_neg (by omega), if_neg (by omega),
      if_pos (Or.inl h9)]
  | @last j h hw hb =>
    obtain ⟨u, rfl, hu⟩ := busy_pred hp (by omega)
    have hru := refines_cycle (s := s) (i := i) u
    rw [hu] at hru
    rw [cycle_succ] at h ⊢
    rw [pins_kept h, hru.pins_tx (by omega) (by omega), pinsOf, if_neg (by omega),
      if_neg (by omega), if_pos (Or.inr ⟨rfl, hb⟩)]
  | @nextItem j k h hw hb h8 =>
    rw [pins_nextBurstItem h, pinsOf, if_neg (by omega), if_neg (by omega), if_neg]
    rintro (hlt | ⟨-, hb0⟩)
    · omega
    · exact hb hb0

/-- **`BitEnable_D` in the next cycle.** -/
theorem bitEnableD_succ (t : ℕ) :
    (cycle s i (t + 1)).bitEnableD =
      maskAfter (cycle s i t).bitEnableD (phaseAt s i (t + 1)) := by
  have hr := refines_cycle (s := s) (i := i) (t + 1)
  have htx := hr.tx_iff
  generalize phaseAt s i (t + 1) = p at hr htx ⊢
  by_cases hq : (cycle s i (t + 1)).statePresD = .stateTx
  · obtain ⟨j, k, rfl, h4, h9⟩ := htx.mp hq
    rw [maskAfter, if_pos ⟨h4, h9⟩, hr.bitEnableD h4 h9]
  · have hkeep : (cycle s i (t + 1)).bitEnableD = (cycle s i t).bitEnableD :=
      logic_bitEnableD hq _
    rw [hkeep]
    cases p with
    | down k => rfl
    | idle => rfl
    | busy j k => exact (if_neg fun hk => hq (htx.mpr ⟨j, k, rfl, hk⟩)).symm

/-! ## Two runs -/

variable {s' : Signals} {i' : ℕ → Inputs}

theorem phaseAt_congr (h : ∀ t, offer (cycle s i t) = offer (cycle s' i' t)) :
    phaseAt s i = phaseAt s' i' := by
  unfold phaseAt
  rw [funext h]

theorem captured_congr (h : ∀ t, offer (cycle s i t) = offer (cycle s' i' t)) :
    captured s i = captured s' i' := by
  funext t
  refine Option.ext fun j => ?_
  rw [captured_eq_some, captured_eq_some, phaseAt_congr h, h]

/-- `WaitReq_SO` depends on the captures only. -/
theorem waitReq_congr (h : captured s i = captured s' i') : waitReq s i = waitReq s' i' := by
  funext t
  rcases Nat.eq_zero_or_pos t with rfl | hpos
  · rfl
  rcases first_event (captured s i) t with hnone | ⟨u, j, hut, hu, -⟩
  · rw [waitReq_before hpos hnone]
    rw [h] at hnone
    rw [waitReq_before hpos hnone]
  · rw [waitReq_after hu hut]
    rw [h] at hu
    rw [waitReq_after hu hut]

/-- **Equal offers and an equal `BitEnable_D` make equal outputs.** -/
theorem outputs_congr (h : ∀ t, offer (cycle s i t) = offer (cycle s' i' t)) {t : ℕ}
    (hm : (cycle s i t).bitEnableD = (cycle s' i' t).bitEnableD) :
    outputs (cycle s i t).toLogic = outputs (cycle s' i' t).toLogic := by
  have hw : (cycle s i t).waitReqSo = (cycle s' i' t).waitReqSo :=
    congrFun (waitReq_congr (captured_congr h)) t
  unfold outputs
  rw [pins_eq, pins_eq, phaseAt_congr h, hm, hw]

end Runs

end LcdInterface.LcdDriver

import LcdInterface.TimerDemo

/-!
# The end of the timer demo

* `value_eq`: the counter counts the timer's interrupts, modulo `2 ^ 32`.
* `exits`: `main` leaves the loop within four steps of its own once the counter is at `COUNT_MAX`,
  and not before.
-/

namespace LcdInterface.TimerDemo

open Clocked

/-! ## Ticks -/

/-- The timer interrupts in the first `t` steps. -/
def ticks (e : ℕ → Step) : ℕ → ℕ
  | 0 => 0
  | t + 1 =>
    match e t with
    | .timerIrq => ticks e t + 1
    | .main => ticks e t

/-- The steps of `main` among the first `t`. -/
def mains (e : ℕ → Step) (t : ℕ) : ℕ := t - ticks e t

section Runs

variable {e : ℕ → Step} {t n : ℕ} {s : State}

theorem ticks_le (t : ℕ) : ticks e t ≤ t := by
  induction t with
  | zero => exact Nat.le_refl 0
  | succ t ih =>
    rw [ticks]
    cases e t with
    | timerIrq => exact Nat.succ_le_succ ih
    | main => exact Nat.le_succ_of_le ih

theorem ticks_mono (n : ℕ) : ticks e t ≤ ticks e (t + n) := by
  induction n with
  | zero => exact Nat.le_refl _
  | succ n ih =>
    rw [← Nat.add_assoc, ticks]
    cases e (t + n) with
    | timerIrq => exact Nat.le_succ_of_le ih
    | main => exact ih

theorem ticks_irq (h : e t = .timerIrq) : ticks e (t + 1) = ticks e t + 1 := by
  rw [ticks, h]

theorem ticks_main (h : e t = .main) : ticks e (t + 1) = ticks e t := by
  rw [ticks, h]

theorem mains_irq (h : e t = .timerIrq) : mains e (t + 1) = mains e t := by
  unfold mains
  rw [ticks_irq h, Nat.add_sub_add_right]

theorem mains_main (h : e t = .main) : mains e (t + 1) = mains e t + 1 := by
  unfold mains
  rw [ticks_main h, Nat.sub_add_comm (ticks_le t)]

theorem value_succ (h : s.downTimer.value = BitVec.ofNat 32 n) :
    s.downTimer.value + 1 = BitVec.ofNat 32 (n + 1) := by
  rw [h, BitVec.ofNat_add]
  rfl

/-- **The counter counts the ticks.** -/
theorem value_eq (e : ℕ → Step) (t : ℕ) :
    (state e t).downTimer.value = BitVec.ofNat 32 (ticks e t) := by
  induction t with
  | zero => rfl
  | succ t ih =>
    rw [state_succ]
    cases he : e t with
    | timerIrq =>
      rw [ticks_irq he]
      exact value_succ ih
    | main =>
      rw [ticks_main he, ← ih]
      exact value_mainLoop _

/-! ## The end of the loop -/

/-- Steps of `main` to the end of the loop, if the counter stays at `COUNT_MAX` or above. -/
def stepsLeft : Pc → ℕ
  | .testIsNew => 4
  | .print => 3
  | .clear => 2
  | .testValue => 1
  | .done => 0

theorem stepsLeft_main (h : ¬ s.downTimer.value < countMax) :
    stepsLeft (mainLoop s).pc ≤ stepsLeft s.pc - 1 := by
  unfold mainLoop
  cases hp : s.pc with
  | testValue => simp [h, stepsLeft]
  | testIsNew => cases hnew : s.downTimer.isNew <;> simp [stepsLeft]
  | print => exact Nat.le_refl 2
  | clear => exact Nat.le_refl 1
  | done => exact Nat.le_of_eq (congrArg stepsLeft hp)

theorem not_value_lt (h : 1000 ≤ ticks e t) (hwrap : ticks e t < 2 ^ 32) :
    ¬ (state e t).downTimer.value < countMax := by
  rw [value_eq, BitVec.lt_def, BitVec.toNat_ofNat, Nat.mod_eq_of_lt hwrap, Nat.not_lt]
  exact h

theorem stepsLeft_run {n : ℕ} (h : 1000 ≤ ticks e t) (hwrap : ticks e (t + n) < 2 ^ 32) :
    stepsLeft (state e (t + n)).pc ≤ 4 - (mains e (t + n) - mains e t) := by
  induction n with
  | zero =>
    rw [Nat.add_zero, Nat.sub_self]
    cases (state e t).pc <;> simp [stepsLeft]
  | succ n ih =>
    have hmono := ticks_mono (e := e) (t := t + n) 1
    have ih := ih (by rw [Nat.add_assoc] at hmono; exact Nat.lt_of_le_of_lt hmono hwrap)
    rw [← Nat.add_assoc, state_succ]
    cases he : e (t + n) with
    | timerIrq =>
      rw [mains_irq he]
      exact ih
    | main =>
      have hlow := ticks_mono (e := e) (t := t) n
      have hleft := stepsLeft_main (not_value_lt (Nat.le_trans h hlow)
        (by rw [Nat.add_assoc] at hmono; exact Nat.lt_of_le_of_lt hmono hwrap))
      rw [mains_main he]
      show stepsLeft (mainLoop (state e (t + n))).pc ≤ _
      omega

/-- Only the test of the counter leaves the loop. -/
theorem not_lt_of_done (hne : s.pc ≠ .done) (h : (mainLoop s).pc = .done) :
    ¬ s.downTimer.value < countMax := by
  unfold mainLoop at h
  cases hp : s.pc with
  | testValue =>
    intro hlt
    simp [hp, hlt] at h
  | testIsNew => cases hnew : s.downTimer.isNew <;> simp [hp, hnew] at h
  | print => simp [hp] at h
  | clear => simp [hp] at h
  | done => exact absurd hp hne

theorem ticks_of_done (h : (state e t).pc = .done) : 1000 ≤ ticks e t := by
  induction t with
  | zero => cases h
  | succ t ih =>
    refine Nat.le_trans ?_ (ticks_mono 1)
    by_cases hd : (state e t).pc = .done
    · exact ih hd
    · rw [state_succ] at h
      cases he : e t with
      | timerIrq =>
        rw [he] at h
        exact absurd h hd
      | main =>
        rw [he] at h
        have hge := not_lt_of_done hd h
        rw [value_eq, BitVec.lt_def, BitVec.toNat_ofNat, Nat.not_lt] at hge
        exact Nat.le_trans hge (Nat.mod_le _ _)

/-- When `main` leaves the loop. -/
structure Exits (e : ℕ → Step) : Prop where
  notBefore : ∀ t, (state e t).pc = .done → 1000 ≤ ticks e t
  /-- Four steps of `main` are enough, whatever the timer does, before the counter wraps. -/
  soon : ∀ t n, 1000 ≤ ticks e t → ticks e (t + n) < 2 ^ 32 → mains e t + 4 ≤ mains e (t + n) →
    (state e (t + n)).pc = .done

/-- **`main` leaves the loop** soon after the counter is at `COUNT_MAX`, and not before. -/
theorem exits (e : ℕ → Step) : Exits e := by
  refine ⟨fun t => ticks_of_done, fun t n h hwrap hmain => ?_⟩
  have hleft := stepsLeft_run h hwrap
  rw [Nat.sub_eq_zero_of_le (Nat.le_sub_of_add_le (by rwa [Nat.add_comm])), Nat.le_zero] at hleft
  cases hp : (state e (t + n)).pc with
  | done => rfl
  | _ =>
    rw [hp] at hleft
    cases hleft

end Runs

end LcdInterface.TimerDemo

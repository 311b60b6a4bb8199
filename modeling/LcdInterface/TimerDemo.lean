import LcdInterface.Clocked.Run
import LcdInterface.ParPort.Model
import Mathlib.Data.BitVec

/-!
# The timer demo (`lab3ParPortAndTimers/main.c`)

`main` waits in a loop for a new counter value and prints it, and the handler of the timer interrupt
counts. Both access `downTimer`, so a step here is one access of `main`, or the whole handler, which
can come between any two of them. (A print is one step with its access of the counter here; `Console`
takes the two apart.) The handler also puts the value on the LEDs, which are the pins of a parallel
port.

* `none_dropped_iff`: at the head of the loop nothing new is unprinted, unless the timer interrupts
  between a print and the clearing of `isNew` that follows it. `tick_dropped` is such a run.
* `leds_show`: the LEDs always show the low byte of the counter.
-/

namespace LcdInterface.TimerDemo

open Clocked ParPort

/-- `COUNT_MAX`. -/
def countMax : BitVec 32 := 1000#32

structure Counter where
  value : BitVec 32
  isNew : Bool
  deriving DecidableEq, Repr

/-- What `main` does next. -/
inductive Pc where
  | testValue
  | testIsNew
  | print
  | clear
  | done
  deriving DecidableEq, Repr

/-- A line of output. -/
inductive Line where
  /-- `New counter value: %lu` -/
  | counter (value : BitVec 32)
  /-- `New pin value: %d` -/
  | pin (value : Byte)

def Line.counter? : Line → Option (BitVec 32)
  | counter value => some value
  | pin _ => none

structure State where
  downTimer : Counter
  pc : Pc
  /-- The port at `MYPIO_LEDS_BASE`. -/
  leds : Regs
  console : List Line

/-- `IOWR_8DIRECT(MYPIO_LEDS_BASE, address, data)`. -/
def iowr8Direct (r : Regs) (address : BitVec 3) (data : BitVec 32) : Regs :=
  pRegWrite r ⟨address, true, data.setWidth 8, false⟩

/-- `IORD_8DIRECT(MYPIO_LEDS_BASE, address)`. -/
def iord8Direct (r : Regs) (address : BitVec 3) : Byte :=
  readDataDo r ⟨address, false, 0, true⟩

def initPioLeds (r : Regs) : Regs := iowr8Direct (iowr8Direct r 0 0xFF#32) 2 0x00#32

/-- `main` as it enters the loop. -/
def start : State :=
  { downTimer := ⟨0, false⟩, pc := .testValue, leds := initPioLeds powerUp, console := [] }

def handleTimerIrq (s : State) : State :=
  let value := s.downTimer.value + 1
  let leds := iowr8Direct s.leds 2 value
  { s with
    downTimer := ⟨value, true⟩
    leds := leds
    console := s.console ++ [.pin (iord8Direct leds 1)] }

/-- The loop of `main`, one access of `downTimer` at a time. -/
def mainLoop (s : State) : State :=
  match s.pc with
  | .testValue => { s with pc := if s.downTimer.value < countMax then .testIsNew else .done }
  | .testIsNew => { s with pc := if s.downTimer.isNew then .print else .testValue }
  | .print => { s with console := s.console ++ [.counter s.downTimer.value], pc := .clear }
  | .clear => { s with downTimer := { s.downTimer with isNew := false }, pc := .testValue }
  | .done => s

inductive Step where
  | main
  | timerIrq
  deriving DecidableEq, Repr

def step (s : State) : Step → State
  | .main => mainLoop s
  | .timerIrq => handleTimerIrq s

/-- The value `main` printed last. -/
def lastPrinted (s : State) : Option (BitVec 32) := (s.console.filterMap Line.counter?).getLast?

/-- The counter is what was printed last, or has not counted. -/
def Shown (s : State) : Prop :=
  lastPrinted s = some s.downTimer.value ∨ s.downTimer.value = 0 ∧ lastPrinted s = none

variable {s : State}

/-! ## One step -/

theorem lastPrinted_handleTimerIrq : lastPrinted (handleTimerIrq s) = lastPrinted s := by
  unfold lastPrinted handleTimerIrq
  simp [Line.counter?]

theorem lastPrinted_print (h : s.pc = .print) :
    lastPrinted (mainLoop s) = some s.downTimer.value := by
  unfold lastPrinted mainLoop
  simp [h, Line.counter?]

theorem shown_of_eq {s s' : State} (hvalue : s'.downTimer.value = s.downTimer.value)
    (hlast : lastPrinted s' = lastPrinted s) (h : Shown s) : Shown s' := by
  unfold Shown
  rw [hvalue, hlast]
  exact h

/-- `main` has nothing to print, and is not about to. -/
structure UpToDate (s : State) : Prop where
  shown : Shown s
  ne_print : s.pc ≠ .print
  ne_clear : s.pc ≠ .clear

/-- **Only the clearing of the flag can go wrong.** -/
theorem upToDate_step {x : Step} (h : s.downTimer.isNew = false → UpToDate s)
    (hclear : s.pc = .clear → x = .main → Shown (step s x))
    (hnew : (step s x).downTimer.isNew = false) : UpToDate (step s x) := by
  cases x with
  | timerIrq => simp [step, handleTimerIrq] at hnew
  | main =>
    cases hp : s.pc with
    | testValue =>
      have hstep : step s .main =
          { s with pc := if s.downTimer.value < countMax then .testIsNew else .done } := by
        simp only [step, mainLoop, hp]
      rw [hstep] at hnew ⊢
      refine ⟨shown_of_eq rfl rfl (h hnew).shown, ?_, ?_⟩
      · show (if _ then _ else _) ≠ _
        split <;> simp
      · show (if _ then _ else _) ≠ _
        split <;> simp
    | testIsNew =>
      have hold : s.downTimer.isNew = false := by simpa [step, mainLoop, hp] using hnew
      have hstep : step s .main = { s with pc := .testValue } := by
        simp [step, mainLoop, hp, hold]
      rw [hstep]
      exact ⟨shown_of_eq rfl rfl (h hold).shown, by simp, by simp⟩
    | print =>
      have hold : s.downTimer.isNew = false := by simpa [step, mainLoop, hp] using hnew
      exact absurd hp (h hold).ne_print
    | clear =>
      refine ⟨hclear hp rfl, ?_, ?_⟩
      · simp [step, mainLoop, hp]
      · simp [step, mainLoop, hp]
    | done =>
      have hstep : step s .main = s := by simp only [step, mainLoop, hp]
      rw [hstep] at hnew ⊢
      exact h hnew

/-! ## Runs -/

section Runs

variable (e : ℕ → Step)

/-- The demo after `t` steps. -/
def state (t : ℕ) : State := run step start e t

/-- No tick is dropped: at the head of the loop a value that is not new has been printed. -/
def NoneDropped : Prop :=
  ∀ t, (state e t).pc = .testValue → (state e t).downTimer.isNew = false → Shown (state e t)

/-- The step `p` prints, and after `n` timer interrupts the flag is cleared. -/
structure PrintsThenClears (p n : ℕ) : Prop where
  print : (state e p).pc = .print
  main : e p = .main
  irqs : ∀ k, k < n → e (p + 1 + k) = .timerIrq
  clear : e (p + 1 + n) = .main

variable {e}

theorem state_succ (t : ℕ) : state e (t + 1) = step (state e t) (e t) := rfl

/-- After a print, up to the next step of `main`. -/
theorem after_print {p n : ℕ} (hp : (state e p).pc = .print) (hmain : e p = .main)
    (hirqs : ∀ k, k < n → e (p + 1 + k) = .timerIrq) :
    (state e (p + 1 + n)).pc = .clear ∧
      lastPrinted (state e (p + 1 + n)) = some (state e p).downTimer.value ∧
      (state e (p + 1 + n)).downTimer.value =
        (state e p).downTimer.value + BitVec.ofNat 32 n := by
  induction n with
  | zero =>
    have hstep : state e (p + 1 + 0) = mainLoop (state e p) := by
      rw [Nat.add_zero, state_succ, hmain]
      rfl
    rw [hstep]
    refine ⟨by simp only [mainLoop, hp], lastPrinted_print hp, ?_⟩
    simp [mainLoop, hp]
  | succ n ih =>
    obtain ⟨hpc, hlast, hvalue⟩ := ih fun k hk => hirqs k (by omega)
    have hstep : state e (p + 1 + (n + 1)) = handleTimerIrq (state e (p + 1 + n)) := by
      rw [← Nat.add_assoc, state_succ, hirqs n (Nat.lt_succ_self n)]
      rfl
    rw [hstep, lastPrinted_handleTimerIrq]
    refine ⟨hpc, hlast, ?_⟩
    show (state e (p + 1 + n)).downTimer.value + 1 = _
    rw [hvalue, add_assoc, BitVec.ofNat_add]
    rfl

/-- Whenever the flag is about to be cleared, the value was printed before. -/
theorem exists_print {t : ℕ} (h : (state e t).pc = .clear) :
    ∃ p n, t = p + 1 + n ∧ (state e p).pc = .print ∧ e p = .main ∧
      ∀ k, k < n → e (p + 1 + k) = .timerIrq := by
  induction t with
  | zero => exact absurd h (by simp [state, start])
  | succ t ih =>
    rw [state_succ] at h
    cases hx : e t with
    | timerIrq =>
      rw [hx] at h
      obtain ⟨p, n, rfl, hp, hmain, hirqs⟩ := ih h
      refine ⟨p, n + 1, rfl, hp, hmain, fun k hk => ?_⟩
      rcases Nat.lt_succ_iff_lt_or_eq.mp hk with hlt | rfl
      · exact hirqs k hlt
      · exact hx
    | main =>
      rw [hx] at h
      refine ⟨t, 0, rfl, ?_, hx, fun k hk => absurd hk (Nat.not_lt_zero k)⟩
      cases hp : (state e t).pc with
      | print => rfl
      | testValue =>
        simp only [step, mainLoop, hp] at h
        split at h <;> simp at h
      | testIsNew =>
        simp only [step, mainLoop, hp] at h
        split at h <;> simp at h
      | clear => simp [step, mainLoop, hp] at h
      | done => simp [step, mainLoop, hp] at h

/-- The counter wraps. -/
theorem add_ofNat_eq_iff {v : BitVec 32} {n : ℕ} : v + BitVec.ofNat 32 n = v ↔ 2 ^ 32 ∣ n := by
  rw [add_eq_left, ← BitVec.toNat_inj, BitVec.toNat_ofNat, Nat.dvd_iff_mod_eq_zero]
  rfl

/-- Clearing the flag is right iff the counter is back at what was printed. -/
theorem shown_clear_iff {p n : ℕ} (h : PrintsThenClears e p n) :
    Shown (state e (p + 1 + n + 1)) ↔ 2 ^ 32 ∣ n := by
  obtain ⟨hpc, hlast, hvalue⟩ := after_print h.print h.main h.irqs
  have hstep : state e (p + 1 + n + 1) = mainLoop (state e (p + 1 + n)) := by
    rw [state_succ, h.clear]
    rfl
  have hlast' : lastPrinted (state e (p + 1 + n + 1)) = some (state e p).downTimer.value := by
    rw [hstep, ← hlast]
    simp [mainLoop, hpc, lastPrinted]
  have hvalue' : (state e (p + 1 + n + 1)).downTimer.value =
      (state e p).downTimer.value + BitVec.ofNat 32 n := by
    rw [hstep, ← hvalue]
    simp [mainLoop, hpc]
  unfold Shown
  rw [hlast', hvalue', ← add_ofNat_eq_iff (v := (state e p).downTimer.value)]
  constructor
  · rintro (heq | ⟨-, hnone⟩)
    · exact (Option.some.inj heq).symm
    · simp at hnone
  · exact fun heq => Or.inl (congrArg some heq.symm)

/-- **No tick is dropped iff** the timer does not interrupt between a print and the clearing of the
flag, or goes round the whole counter there. -/
theorem none_dropped_iff (e : ℕ → Step) :
    NoneDropped e ↔ ∀ p n, PrintsThenClears e p n → 2 ^ 32 ∣ n := by
  constructor
  · intro h p n hpn
    obtain ⟨hpc, -, -⟩ := after_print hpn.print hpn.main hpn.irqs
    rw [← shown_clear_iff hpn]
    refine h _ ?_ ?_
    · rw [state_succ, hpn.clear]
      simp [step, mainLoop, hpc]
    · rw [state_succ, hpn.clear]
      simp [step, mainLoop, hpc]
  · intro h
    have hinv : ∀ t, (state e t).downTimer.isNew = false → UpToDate (state e t) := by
      intro t
      induction t with
      | zero =>
        refine fun _ => ⟨Or.inr ⟨rfl, rfl⟩, ?_, ?_⟩
        · simp [state, start]
        · simp [state, start]
      | succ t ih =>
        refine upToDate_step ih fun hpc hmain => ?_
        obtain ⟨p, n, rfl, hp, hm, hirqs⟩ := exists_print hpc
        have hpn : PrintsThenClears e p n := ⟨hp, hm, hirqs, hmain⟩
        exact (shown_clear_iff hpn).mpr (h p n hpn)
    exact fun t _ hnew => (hinv t hnew).shown

end Runs

/-- The timer interrupts before the loop, and again when its first tick has been printed. -/
def lateTick (t : ℕ) : Step := if t = 0 ∨ t = 4 then .timerIrq else .main

/-- **The second tick is dropped.** -/
theorem tick_dropped :
    (state lateTick 6).pc = .testValue ∧ (state lateTick 6).downTimer = ⟨2, false⟩ ∧
      lastPrinted (state lateTick 6) = some 1 ∧ ¬ NoneDropped lateTick := by
  refine ⟨by decide, by decide, by decide, fun h => ?_⟩
  rcases h 6 (by decide) (by decide) with hlast | ⟨hvalue, -⟩
  · revert hlast
    decide
  · revert hvalue
    decide

/-! ## The LEDs -/

/-- All pins are outputs, and the port holds the low byte of the counter. -/
structure LedsShow (s : State) : Prop where
  dir : s.leds.regDirD = ofBits 0xFF#8
  port : s.leds.regPortD = ofBits (s.downTimer.value.setWidth 8)

theorem ledsShow_start : LedsShow start := ⟨rfl, rfl⟩

/-- `main` only reads the counter, … -/
theorem value_mainLoop (s : State) : (mainLoop s).downTimer.value = s.downTimer.value := by
  unfold mainLoop
  cases s.pc <;> rfl

/-- … and leaves the LEDs to the handler. -/
theorem leds_mainLoop (s : State) : (mainLoop s).leds = s.leds := by
  unfold mainLoop
  cases s.pc <;> rfl

theorem ledsShow_mainLoop (h : LedsShow s) : LedsShow (mainLoop s) := by
  refine ⟨?_, ?_⟩
  · rw [leds_mainLoop]
    exact h.dir
  · rw [leds_mainLoop, value_mainLoop]
    exact h.port

theorem ledsShow_handleTimerIrq (h : LedsShow s) : LedsShow (handleTimerIrq s) := ⟨h.dir, rfl⟩

theorem ledsShow_step (h : LedsShow s) (x : Step) : LedsShow (step s x) := by
  cases x with
  | timerIrq => exact ledsShow_handleTimerIrq h
  | main => exact ledsShow_mainLoop h

/-- **The pins show the low byte of the counter**, in every state, whatever the timer does. -/
theorem leds_show (e : ℕ → Step) (t : ℕ) :
    parPortDio (state e t).leds = ofBits ((state e t).downTimer.value.setWidth 8) := by
  have h : LedsShow (state e t) := run_invariant ledsShow_start (fun _ x h => ledsShow_step h x) t
  funext k
  have hout : ofBits 0xFF#8 k = .one := by
    revert k
    decide
  unfold parPortDio regPinD
  rw [h.dir, h.port, hout]
  exact StdLogic.ofLast_and_one (some _)

end LcdInterface.TimerDemo

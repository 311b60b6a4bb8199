import LcdInterface.TimerDemo.Exits

/-!
# The console of the timer demo

`main` and the timer's handler both print. Which lines they print, and in which order, depends on
when the timer interrupts. For the order it matters that `printf("…", downTimer.value)` loads its
argument first and prints the line later: the handler can come between the two, and its line then
comes before the older count. So the loop here has a step for each. A line appears as a whole, and
`main` does nothing during the handler.

* `console_iff`: the consoles of the demo, over all runs, are those `Console` builds line by line:
  the handler's lines count through the low byte, and `main` prints a count that is later than its
  last print, if the counter was below `COUNT_MAX` at some time between the two.
* `console_values`: so `main` prints tick counts in ascending order, none twice and never `0`, as
  32-bit values; these are in ascending order too until the counter wraps.
* `loop_of_demo`, `demo_of_loop`: a print in one step, as in `TimerDemo`, is one with nothing
  between its two, and but for the console both loops have the same runs.
-/

namespace LcdInterface.TimerDemo

open Clocked ParPort

/-! ## The loop -/

/-- The demo with the argument of `printf`, once `main` has loaded it. -/
structure Loop extends State where
  argument : Option (BitVec 32)

/-- `main` as it enters the loop. -/
def Loop.start : Loop := { TimerDemo.start with argument := none }

def Loop.main (s : Loop) : Loop :=
  match s.pc, s.argument with
  | .print, none => { s with argument := some s.downTimer.value }
  | .print, some value =>
    { s with console := s.console ++ [.counter value], pc := .clear, argument := none }
  | _, _ => { s with toState := mainLoop s.toState }

def Loop.step (s : Loop) : Step → Loop
  | .main => s.main
  | .timerIrq => { s with toState := handleTimerIrq s.toState }

/-- The loop after `t` steps. -/
def loop (e : ℕ → Step) (t : ℕ) : Loop := run Loop.step Loop.start e t

section Step

variable {s : Loop} {v : BitVec 32}

theorem loop_succ (e : ℕ → Step) (t : ℕ) : loop e (t + 1) = (loop e t).step (e t) := rfl

theorem Loop.main_load (h : s.pc = .print) (ha : s.argument = none) :
    s.main = { s with argument := some s.downTimer.value } := by
  simp only [Loop.main, h, ha]

theorem Loop.main_print (h : s.pc = .print) (ha : s.argument = some v) :
    s.main = { s with console := s.console ++ [.counter v], pc := .clear, argument := none } := by
  simp only [Loop.main, h, ha]

theorem Loop.main_other (h : s.pc ≠ .print) :
    s.main = { s with toState := mainLoop s.toState } := by
  cases hp : s.pc with
  | print => exact absurd hp h
  | _ => simp only [Loop.main, hp]

theorem Loop.ledsShow_main (h : LedsShow s.toState) : LedsShow s.main.toState := by
  by_cases hp : s.pc = .print
  · cases ha : s.argument with
    | none =>
      rw [Loop.main_load hp ha]
      exact h
    | some v =>
      rw [Loop.main_print hp ha]
      exact ⟨h.dir, h.port⟩
  · rw [Loop.main_other hp]
    exact ledsShow_mainLoop h

end Step

/-! ## The loop with a print in one step -/

/-- Some run of the loop gets to `s`. -/
def Loop.Reachable (s : Loop) : Prop := ∃ e t, run Loop.step Loop.start e t = s

/-- **A print in one step** is one with nothing between its two. -/
theorem loop_of_demo (e : ℕ → Step) (t : ℕ) :
    Loop.Reachable { state e t with argument := none } := by
  induction t with
  | zero => exact ⟨e, 0, rfl⟩
  | succ t ih =>
    rw [state_succ]
    cases e t with
    | timerIrq => exact reached_step ih .timerIrq
    | main =>
      have hone := reached_step ih .main
      by_cases hp : (state e t).pc = .print
      · have htwo := reached_step hone .main
        have hsteps : Loop.step (Loop.step { state e t with argument := none } .main) .main =
            { mainLoop (state e t) with argument := none } := by
          simp only [Loop.step, Loop.main, mainLoop, hp]
        rw [hsteps] at htwo
        exact htwo
      · rw [Loop.step, Loop.main_other hp] at hone
        exact hone

/-- The states differ in the console only. -/
structure SameButConsole (a b : State) : Prop where
  downTimer : a.downTimer = b.downTimer
  pc : a.pc = b.pc
  leds : a.leds = b.leds

theorem SameButConsole.irq {a b : State} (h : SameButConsole a b) :
    SameButConsole (handleTimerIrq a) (handleTimerIrq b) := by
  obtain ⟨ht, hp, hl⟩ := h
  unfold handleTimerIrq
  rw [ht, hl]
  exact ⟨rfl, hp, rfl⟩

theorem SameButConsole.main {a b : State} (h : SameButConsole a b) :
    SameButConsole (mainLoop a) (mainLoop b) := by
  obtain ⟨ht, hp, hl⟩ := h
  unfold mainLoop
  rw [ht, hp]
  cases b.pc with
  | testValue => exact ⟨rfl, rfl, hl⟩
  | testIsNew => exact ⟨rfl, rfl, hl⟩
  | print => exact ⟨rfl, rfl, hl⟩
  | clear => exact ⟨rfl, rfl, hl⟩
  | done => exact ⟨ht, hp, hl⟩

/-- **But for the console** the loop has no other runs: to load the argument changes nothing. -/
theorem demo_of_loop (e : ℕ → Step) (t : ℕ) :
    ∃ a, (∃ e' t', state e' t' = a) ∧ SameButConsole a (loop e t).toState := by
  induction t with
  | zero => exact ⟨_, ⟨e, 0, rfl⟩, rfl, rfl, rfl⟩
  | succ t ih =>
    obtain ⟨a, ha, hsame⟩ := ih
    rw [loop_succ]
    cases e t with
    | timerIrq => exact ⟨_, reached_step ha .timerIrq, hsame.irq⟩
    | main =>
      by_cases hp : (loop e t).pc = .print
      · cases harg : (loop e t).argument with
        | none =>
          rw [Loop.step, Loop.main_load hp harg]
          exact ⟨a, ha, hsame⟩
        | some v =>
          have hstep : mainLoop a =
              { a with console := a.console ++ [.counter a.downTimer.value], pc := .clear } := by
            simp only [mainLoop, hsame.pc.trans hp]
          rw [Loop.step, Loop.main_print hp harg]
          refine ⟨_, reached_step ha .main, ?_⟩
          rw [step, hstep]
          exact ⟨hsame.downTimer, rfl, hsame.leds⟩
      · rw [Loop.step, Loop.main_other hp]
        exact ⟨_, reached_step ha .main, hsame.main⟩

/-! ## The lines -/

/-- The pins under the count `n`. -/
def pinsOf (n : ℕ) : Byte := ofBits (BitVec.ofNat 8 n)

/-- The count was below `COUNT_MAX` at some time between `last` and `n`. -/
def WasBelow (last n : ℕ) : Prop := ∃ m, last ≤ m ∧ m ≤ n ∧ BitVec.ofNat 32 m < countMax

/-- A console after `n` ticks, with the last line of `main` printed after `last` of them. The count
`k` in such a line may be older than the ticks before it. -/
inductive Console : List Line → ℕ → ℕ → Prop
  | nil : Console [] 0 0
  | pin {l : List Line} {n last : ℕ} (h : Console l n last) :
      Console (l ++ [.pin (pinsOf (n + 1))]) (n + 1) last
  | counter {l : List Line} {n last k : ℕ} (h : Console l n last) (hlt : last < k) (hle : k ≤ n)
      (hbelow : WasBelow last k) : Console (l ++ [.counter (BitVec.ofNat 32 k)]) n n

variable {l : List Line} {n last : ℕ} {s : Loop}

theorem Console.last_le (h : Console l n last) : last ≤ n := by
  induction h with
  | nil => exact Nat.le_refl 0
  | pin _ ih => exact Nat.le_succ_of_le ih
  | counter => exact Nat.le_refl _

theorem WasBelow.succ (h : WasBelow last n) : WasBelow last (n + 1) := by
  obtain ⟨m, hlast, hm, hlt⟩ := h
  exact ⟨m, hlast, Nat.le_succ_of_le hm, hlt⟩

/-- The new count is a new chance. -/
theorem wasBelow_succ_iff (hle : last ≤ n + 1) :
    WasBelow last (n + 1) ↔ WasBelow last n ∨ BitVec.ofNat 32 (n + 1) < countMax := by
  constructor
  · rintro ⟨m, hlast, hm, hlt⟩
    rcases Nat.le_succ_iff.mp hm with hmn | rfl
    · exact Or.inl ⟨m, hlast, hmn, hlt⟩
    · exact Or.inr hlt
  · rintro (h | hlt)
    · exact h.succ
    · exact ⟨n + 1, hle, Nat.le_refl _, hlt⟩

theorem wasBelow_self : WasBelow n n ↔ BitVec.ofNat 32 n < countMax := by
  constructor
  · rintro ⟨m, h1, h2, hlt⟩
    rwa [Nat.le_antisymm h2 h1] at hlt
  · exact fun hlt => ⟨n, Nat.le_refl n, Nat.le_refl n, hlt⟩

/-! ## One step -/

theorem setWidth_ofNat (n : ℕ) : (BitVec.ofNat 32 n).setWidth 8 = BitVec.ofNat 8 n := by
  apply BitVec.eq_of_toNat_eq
  rw [BitVec.toNat_setWidth, BitVec.toNat_ofNat, BitVec.toNat_ofNat]
  exact Nat.mod_mod_of_dvd n (by decide)

/-- The handler reads back from the pins what it wrote. -/
theorem pins_read {r : Regs} {v : BitVec 8} (hdir : r.regDirD = ofBits 0xFF#8)
    (hport : r.regPortD = ofBits v) : iord8Direct r 1 = ofBits v := by
  funext k
  have hout : ofBits 0xFF#8 k = .one := by
    revert k
    decide
  show (r.regPortD k).and (r.regDirD k) = _
  rw [hdir, hport, hout]
  exact StdLogic.ofLast_and_one (some _)

/-- The handler's line. -/
theorem console_handleTimerIrq {s : State} (hl : LedsShow s)
    (h : s.downTimer.value = BitVec.ofNat 32 n) :
    (handleTimerIrq s).console = s.console ++ [.pin (pinsOf (n + 1))] := by
  have hread : iord8Direct (iowr8Direct s.leds 2 (s.downTimer.value + 1)) 1 = pinsOf (n + 1) := by
    rw [value_succ h, pinsOf, ← setWidth_ofNat]
    exact pins_read hl.dir rfl
  exact congrArg (fun p => s.console ++ [.pin p]) hread

/-- What `main` knows at each of its program points. -/
def Knows (s : Loop) (n last : ℕ) : Prop :=
  match s.pc with
  | .testValue => s.downTimer.isNew = true → last < n
  | .testIsNew => (s.downTimer.isNew = true → last < n) ∧ WasBelow last n
  | .print =>
    match s.argument with
    | none => last < n ∧ WasBelow last n
    | some v => ∃ k, v = BitVec.ofNat 32 k ∧ last < k ∧ k ≤ n ∧ WasBelow last k
  | .clear => True
  | .done => True

/-- The demo has counted `n` ticks, and `main` has printed after `last` of them. -/
structure Counted (s : Loop) (n last : ℕ) : Prop where
  console : Console s.console n last
  value : s.downTimer.value = BitVec.ofNat 32 n
  leds : LedsShow s.toState
  argument : s.pc ≠ .print → s.argument = none
  knows : Knows s n last

theorem counted_start : Counted Loop.start 0 0 :=
  ⟨.nil, rfl, ledsShow_start, fun _ => rfl, fun h => absurd h Bool.false_ne_true⟩

theorem Knows.irq (h : Knows s n last) (hle : last ≤ n) :
    Knows (s.step .timerIrq) (n + 1) last := by
  have hlt : last < n + 1 := Nat.lt_succ_of_le hle
  unfold Knows at h ⊢
  show match s.pc with
    | .testValue => _
    | .testIsNew => _
    | .print => match s.argument with
      | none => _
      | some v => _
    | .clear => _
    | .done => _
  cases hp : s.pc with
  | testValue => exact fun _ => hlt
  | testIsNew =>
    rw [hp] at h
    exact ⟨fun _ => hlt, h.2.succ⟩
  | print =>
    rw [hp] at h
    cases ha : s.argument with
    | none =>
      rw [ha] at h
      exact ⟨hlt, h.2.succ⟩
    | some v =>
      rw [ha] at h
      obtain ⟨k, hk, hlast, hkn, hbelow⟩ := h
      exact ⟨k, hk, hlast, Nat.le_succ_of_le hkn, hbelow⟩
  | clear => trivial
  | done => trivial

theorem Counted.irq (h : Counted s n last) : Counted (s.step .timerIrq) (n + 1) last := by
  refine ⟨?_, value_succ h.value, ledsShow_handleTimerIrq h.leds, h.argument,
    h.knows.irq h.console.last_le⟩
  show Console (handleTimerIrq s.toState).console (n + 1) last
  rw [console_handleTimerIrq h.leds h.value]
  exact h.console.pin

/-- `main` loads the count, and it is the count of now, … -/
theorem Counted.load (h : Counted s n last) (hp : s.pc = .print) (ha : s.argument = none) :
    Counted s.main n last := by
  have hknows := h.knows
  simp only [Knows, hp, ha] at hknows
  rw [Loop.main_load hp ha]
  refine ⟨h.console, h.value, h.leds, fun hne => absurd hp hne, ?_⟩
  simp only [Knows, hp]
  exact ⟨n, h.value, hknows.1, Nat.le_refl n, hknows.2⟩

/-- … and prints it later. -/
theorem Counted.print {v : BitVec 32} (h : Counted s n last) (hp : s.pc = .print)
    (ha : s.argument = some v) : Counted s.main n n := by
  have hknows := h.knows
  simp only [Knows, hp, ha] at hknows
  obtain ⟨k, rfl, hlast, hkn, hbelow⟩ := hknows
  rw [Loop.main_print hp ha]
  exact ⟨h.console.counter hlast hkn hbelow, h.value, ⟨h.leds.dir, h.leds.port⟩, fun _ => rfl,
    trivial⟩

theorem Counted.main (h : Counted s n last) : ∃ last', Counted s.main n last' := by
  have hleds := Loop.ledsShow_main h.leds
  have hknows := h.knows
  have harg := h.argument
  unfold Knows at hknows
  cases hp : s.pc with
  | print =>
    cases ha : s.argument with
    | none => exact ⟨last, h.load hp ha⟩
    | some v => exact ⟨n, h.print hp ha⟩
  | testValue =>
    rw [hp] at hknows
    have hne : s.pc ≠ .print := by simp [hp]
    have hstep : s.main =
        { s with pc := if s.downTimer.value < countMax then .testIsNew else .done } := by
      simp only [Loop.main_other hne, mainLoop, hp]
    rw [hstep] at hleds ⊢
    refine ⟨last, h.console, h.value, hleds, fun _ => harg hne, ?_⟩
    by_cases hlt : s.downTimer.value < countMax
    · simp only [Knows, hlt, if_true]
      rw [h.value] at hlt
      exact ⟨hknows, n, h.console.last_le, Nat.le_refl n, hlt⟩
    · simp only [Knows, hlt, if_false]
  | testIsNew =>
    rw [hp] at hknows
    have hne : s.pc ≠ .print := by simp [hp]
    have hstep : s.main =
        { s with pc := if s.downTimer.isNew then .print else .testValue } := by
      simp only [Loop.main_other hne, mainLoop, hp]
    rw [hstep] at hleds ⊢
    refine ⟨last, h.console, h.value, hleds, fun _ => harg hne, ?_⟩
    cases hnew : s.downTimer.isNew with
    | true =>
      simp only [Knows, if_true, harg hne]
      exact ⟨hknows.1 hnew, hknows.2⟩
    | false => exact fun h => absurd (hnew.symm.trans h) Bool.false_ne_true
  | clear =>
    have hne : s.pc ≠ .print := by simp [hp]
    have hstep : s.main =
        { s with downTimer := { s.downTimer with isNew := false }, pc := .testValue } := by
      simp only [Loop.main_other hne, mainLoop, hp]
    rw [hstep] at hleds ⊢
    exact ⟨last, h.console, h.value, hleds, fun _ => harg hne,
      fun h => absurd h Bool.false_ne_true⟩
  | done =>
    have hne : s.pc ≠ .print := by simp [hp]
    have hstep : s.main = s := by simp only [Loop.main_other hne, mainLoop, hp]
    rw [hstep]
    exact ⟨last, h⟩

/-! ## Runs -/

theorem counted (e : ℕ → Step) (t : ℕ) : ∃ last, Counted (loop e t) (ticks e t) last := by
  induction t with
  | zero => exact ⟨0, counted_start⟩
  | succ t ih =>
    obtain ⟨last, h⟩ := ih
    rw [loop_succ, ticks]
    cases e t with
    | timerIrq => exact ⟨last, h.irq⟩
    | main => exact h.main

/-! ## Every such console -/

/-- Some run has printed `l`; `main` is at `p` with the argument `v`, and the flag says whether a
tick is unprinted. -/
def Reached (l : List Line) (n last : ℕ) (p : Pc) (v : Option (BitVec 32)) : Prop :=
  ∃ s, Loop.Reachable s ∧ LedsShow s.toState ∧ s.console = l ∧ s.pc = p ∧ s.argument = v ∧
    s.downTimer = ⟨BitVec.ofNat 32 n, decide (last < n)⟩

theorem Reached.irq {p : Pc} {v : Option (BitVec 32)} (h : Reached l n last p v) (hle : last ≤ n) :
    Reached (l ++ [.pin (pinsOf (n + 1))]) (n + 1) last p v := by
  obtain ⟨s, hs, hleds, rfl, hp, hv, ht⟩ := h
  have hvalue : s.downTimer.value = BitVec.ofNat 32 n := congrArg Counter.value ht
  refine ⟨_, reached_step hs .timerIrq, ledsShow_handleTimerIrq hleds,
    console_handleTimerIrq hleds hvalue, hp, hv, ?_⟩
  show (⟨s.downTimer.value + 1, true⟩ : Counter) = _
  rw [value_succ hvalue, decide_eq_true (Nat.lt_succ_of_le hle)]

/-- `main` goes on to look at the flag. -/
theorem Reached.test (h : Reached l n last .testValue none)
    (hlt : BitVec.ofNat 32 n < countMax) : Reached l n last .testIsNew none := by
  obtain ⟨s, hs, hleds, hl, hp, hv, ht⟩ := h
  have hstep : s.step .main = { s with pc := .testIsNew } := by
    simp only [Loop.step, Loop.main, mainLoop, hp, ht, hlt, if_true]
  refine ⟨_, reached_step hs .main, Loop.ledsShow_main hleds, ?_⟩
  rw [hstep]
  exact ⟨hl, rfl, hv, ht⟩

/-- `main` finds the flag set, and loads the count. -/
theorem Reached.load (h : Reached l n last .testIsNew none) (hlt : last < n) :
    Reached l n last .print (some (BitVec.ofNat 32 n)) := by
  obtain ⟨s, hs, hleds, hl, hp, hv, ht⟩ := h
  have hsteps : (s.step .main).step .main =
      { s with pc := .print, argument := some (BitVec.ofNat 32 n) } := by
    simp only [Loop.step, Loop.main, mainLoop, hp, hv, ht, hlt, decide_true, if_true]
  refine ⟨_, reached_step (reached_step hs .main) .main,
    Loop.ledsShow_main (Loop.ledsShow_main hleds), ?_⟩
  rw [hsteps]
  exact ⟨hl, rfl, rfl, ht⟩

/-- It prints the count, and clears the flag. -/
theorem Reached.print {v : BitVec 32} (h : Reached l n last .print (some v)) :
    Reached (l ++ [.counter v]) n n .testValue none := by
  obtain ⟨s, hs, hleds, rfl, hp, hv, ht⟩ := h
  have hsteps : (s.step .main).step .main =
      { s with
        console := s.console ++ [.counter v], pc := .testValue, argument := none,
        downTimer := ⟨BitVec.ofNat 32 n, false⟩ } := by
    simp only [Loop.step, Loop.main, mainLoop, hp, hv, ht]
  refine ⟨_, reached_step (reached_step hs .main) .main,
    Loop.ledsShow_main (Loop.ledsShow_main hleds), ?_⟩
  rw [hsteps, decide_eq_false (Nat.lt_irrefl n)]
  exact ⟨rfl, rfl, rfl, rfl⟩

/-- Where some run with the console `l` can be. -/
structure Open (l : List Line) (n last : ℕ) : Prop where
  head : Reached l n last .testValue none
  /-- `main` may have tested the counter when it was low, … -/
  tested : WasBelow last n → Reached l n last .testIsNew none
  /-- … and loaded any count since. -/
  loaded : ∀ k, last < k → k ≤ n → WasBelow last k →
    Reached l n last .print (some (BitVec.ofNat 32 k))

/-- **Each console of `Console` is printed by some run.** -/
theorem Console.reached (h : Console l n last) : Open l n last := by
  induction h with
  | nil =>
    have hstart : Reached [] 0 0 .testValue none :=
      ⟨Loop.start, ⟨fun _ => .main, 0, rfl⟩, ledsShow_start, rfl, rfl, rfl, rfl⟩
    exact ⟨hstart, fun hb => hstart.test (wasBelow_self.mp hb), fun k hlt hle => by omega⟩
  | @pin l n last h ih =>
    have hhead := ih.head.irq h.last_le
    have htested : WasBelow last (n + 1) →
        Reached (l ++ [.pin (pinsOf (n + 1))]) (n + 1) last .testIsNew none := by
      intro hb
      -- the test came before this tick, or comes now
      rcases (wasBelow_succ_iff (Nat.le_succ_of_le h.last_le)).mp hb with hold | hnew
      · exact (ih.tested hold).irq h.last_le
      · exact hhead.test hnew
    refine ⟨hhead, htested, fun k hlt hle hb => ?_⟩
    -- so did the load
    rcases Nat.le_succ_iff.mp hle with hold | rfl
    · exact (ih.loaded k hlt hold hb).irq h.last_le
    · exact (htested hb).load hlt
  | counter h hlt hle hbelow ih =>
    have hhead := (ih.loaded _ hlt hle hbelow).print
    exact ⟨hhead, fun hb => hhead.test (wasBelow_self.mp hb), fun k hlt hle => by omega⟩

/-- **The consoles of the demo.** -/
theorem console_iff (l : List Line) :
    (∃ e t, (loop e t).console = l) ↔ ∃ n last, Console l n last := by
  constructor
  · rintro ⟨e, t, rfl⟩
    obtain ⟨last, h⟩ := counted e t
    exact ⟨_, _, h.console⟩
  · rintro ⟨n, last, h⟩
    obtain ⟨s, ⟨e, t, hs⟩, -, hl, -⟩ := h.reached.head
    refine ⟨e, t, ?_⟩
    rw [← hl, ← hs]
    rfl

/-- The second tick between the load and the print. -/
example : Console [.pin (pinsOf 1), .pin (pinsOf 2), .counter 1] 2 2 :=
  Console.nil.pin.pin.counter (by decide) (by decide) ⟨0, by decide, by decide, by decide⟩

/-! ## What is printed -/

def Line.pin? : Line → Option Byte
  | counter _ => none
  | pin value => some value

theorem Console.pins (h : Console l n last) :
    l.filterMap Line.pin? = (List.range n).map fun k => pinsOf (k + 1) := by
  induction h with
  | nil => rfl
  | pin _ ih =>
    rw [List.filterMap_append, ih, List.range_succ, List.map_append]
    rfl
  | counter _ _ _ _ ih =>
    rw [List.filterMap_append, ih]
    exact List.append_nil _

/-- The counts `main` prints are counts of ticks, one after the other. -/
theorem Console.counters (h : Console l n last) :
    ∃ ns : List ℕ, l.filterMap Line.counter? = ns.map (BitVec.ofNat 32) ∧
      (0 :: ns).Pairwise (· < ·) ∧ ∀ k ∈ ns, k ≤ last := by
  induction h with
  | nil => exact ⟨[], rfl, by simp, by simp⟩
  | pin _ ih =>
    obtain ⟨ns, hns, hasc, hle⟩ := ih
    refine ⟨ns, ?_, hasc, hle⟩
    rw [List.filterMap_append, hns]
    exact List.append_nil _
  | @counter l n last k h hlt hkn hbelow ih =>
    obtain ⟨ns, hns, hasc, hle⟩ := ih
    refine ⟨ns ++ [k], ?_, ?_, ?_⟩
    · rw [List.filterMap_append, hns, List.map_append]
      rfl
    · rw [← List.cons_append, List.pairwise_append]
      refine ⟨hasc, by simp, fun j hj m hm => ?_⟩
      rw [List.mem_singleton] at hm
      rw [hm]
      rcases List.mem_cons.mp hj with rfl | hj
      · exact Nat.lt_of_le_of_lt (Nat.zero_le _) hlt
      · exact Nat.lt_of_le_of_lt (hle j hj) hlt
    · intro j hj
      rcases List.mem_append.mp hj with hj | hj
      · exact Nat.le_trans (hle j hj) h.last_le
      · rw [List.mem_singleton.mp hj]
        exact hkn

/-- Counts that fit in 32 bits keep their order. -/
theorem pairwise_ofNat {ns : List ℕ} (hasc : ns.Pairwise (· < ·)) (hle : ∀ k ∈ ns, k < 2 ^ 32) :
    (ns.map (BitVec.ofNat 32)).Pairwise (· < ·) := by
  rw [List.pairwise_map]
  refine hasc.imp_of_mem fun hj hk hlt => ?_
  rw [BitVec.lt_def, BitVec.toNat_ofNat, BitVec.toNat_ofNat, Nat.mod_eq_of_lt (hle _ hj),
    Nat.mod_eq_of_lt (hle _ hk)]
  exact hlt

section Results

variable (e : ℕ → Step) (t : ℕ)

/-- What the demo has printed. -/
structure ConsoleValues : Prop where
  /-- A line of the handler for each tick, with the low byte of the count. -/
  pins : (loop e t).console.filterMap Line.pin? =
    (List.range (ticks e t)).map fun k => pinsOf (k + 1)
  /-- The lines of `main` are the 32-bit values of tick counts in ascending order, none twice and
  none `0`. -/
  counters : ∃ ns : List ℕ, (loop e t).console.filterMap Line.counter? =
    ns.map (BitVec.ofNat 32) ∧ (0 :: ns).Pairwise (· < ·) ∧ ∀ k ∈ ns, k ≤ ticks e t
  /-- Until the counter wraps, so are the values. -/
  ascending : ticks e t < 2 ^ 32 →
    (0 :: (loop e t).console.filterMap Line.counter?).Pairwise (· < ·)

/-- **What is printed in any run.** -/
theorem console_values : ConsoleValues e t := by
  obtain ⟨last, h⟩ := counted e t
  obtain ⟨ns, hns, hasc, hle⟩ := h.console.counters
  have hticks : ∀ k ∈ ns, k ≤ ticks e t := fun k hk => Nat.le_trans (hle k hk) h.console.last_le
  refine ⟨h.console.pins, ⟨ns, hns, hasc, hticks⟩, fun hwrap => ?_⟩
  rw [hns]
  refine pairwise_ofNat hasc fun k hk => ?_
  rcases List.mem_cons.mp hk with rfl | hk
  · exact Nat.two_pow_pos 32
  · exact Nat.lt_of_le_of_lt (hticks k hk) hwrap

end Results

end LcdInterface.TimerDemo

import LcdInterface.LcdDriver.System
import LcdInterface.LcdDriver.Waveform

/-!
# What the panel receives

The panel sees the pins only. It takes a word at a rising edge of `Wr_NSO` while it is selected, and
forgets everything when `LcdReset_NRO` is `'0'`. The panel is no part of the design, so which word it
takes is a parameter, a function of the pins on both sides of the edge (`sample`): the bus may change
with the strobe, and then one panel takes the old word and another one the new one. Runs here are
from power-up, with resets anywhere.

* `signals_eq_cycle`: the run since the last reset, or since power-up, is a run from reset.
* `received_eq`: any panel has received what it takes of the captured words of that run, in order,
  five cycles late, each under the `BitEnable_D` of the word before and then under its own.
* `panel_received`: it is the captured words themselves, for every panel that takes a stable bus as
  it is, iff no word changes with its strobe (`Settled`, the condition of `stable_iff`).
* `words_apart`, `word_rate`: two words are ten cycles apart or more, so `n` cycles carry at most
  `n / 10` words, rounded up, whatever the master does.
-/

namespace LcdInterface.LcdDriver

open Clocked Clocked.Server
open Slave (Inputs)

/-! ## Since the last reset -/

section Since

variable (e : ℕ → Event)

/-- The clock edges since the last reset, or since power-up. -/
def since : ℕ → ℕ
  | 0 => 0
  | t + 1 =>
    match e t with
    | .edge _ => since t + 1
    | .reset => 0

/-- The cycle in which the reset was, or power-up. -/
def start (t : ℕ) : ℕ := t - since e t

/-- The inputs from cycle `a` on. -/
def inputsFrom (a k : ℕ) : Inputs :=
  match e (a + k) with
  | .edge x => x
  | .reset => quietPort

variable {e}

theorem since_succ_edge {t : ℕ} {x : Inputs} (h : e t = .edge x) :
    since e (t + 1) = since e t + 1 := by
  rw [since, h]

theorem since_succ_reset {t : ℕ} (h : e t = .reset) : since e (t + 1) = 0 := by
  rw [since, h]

theorem since_le (t : ℕ) : since e t ≤ t := by
  induction t with
  | zero => exact Nat.le_refl 0
  | succ t ih =>
    cases he : e t with
    | edge x =>
      rw [since_succ_edge he]
      omega
    | reset =>
      rw [since_succ_reset he]
      exact Nat.zero_le _

theorem start_add (t : ℕ) : start e t + since e t = t := Nat.sub_add_cancel (since_le t)

theorem start_succ {t : ℕ} {x : Inputs} (h : e t = .edge x) : start e (t + 1) = start e t := by
  unfold start
  rw [since_succ_edge h]
  omega

theorem settle_logic (r : Regs) (l : Logic) : settle r (logic r l) = settle r l := by
  have h := logic_logic r l
  unfold settle
  simp only [h]

/-- A second reset changes nothing, … -/
theorem reset_reset (s : Signals) : reset (reset s) = reset s := settle_logic _ _

/-- … nor does one at power-up. -/
theorem reset_powerUp (stream : ℕ → BitVec 16) : reset (powerUp stream) = powerUp stream :=
  settle_logic _ _

/-- **The run since the last reset is a run from reset.** -/
theorem signals_eq_cycle (stream : ℕ → BitVec 16) (t : ℕ) : signals stream e t =
    cycle (signals stream e (start e t)) (inputsFrom e (start e t)) (since e t) := by
  induction t with
  | zero => exact (reset_powerUp stream).symm
  | succ t ih =>
    cases he : e t with
    | edge x =>
      have hx : inputsFrom e (start e t) (since e t) = x := by
        unfold inputsFrom
        rw [start_add, he]
      rw [start_succ he, since_succ_edge he, cycle_succ, ← ih, hx, signals_succ, he]
      rfl
    | reset =>
      have hs : start e (t + 1) = t + 1 := by
        unfold start
        rw [since_succ_reset he, Nat.sub_zero]
      rw [hs, since_succ_reset he]
      show signals stream e (t + 1) = reset (signals stream e (t + 1))
      rw [signals_succ, he]
      exact (reset_reset _).symm

end Since

/-! ## Across the strobe -/

/-- The pins before and after the strobe of `j`, when `BitEnable_D` is `mask`. -/
def strobe (mask : BitVec 16) (j : Job) : Pins × Pins :=
  (.shown false (j.data &&& mask, j.word.2), .shown true j.word)

/-- The strobes of one job after the other. -/
def strobes (mask : BitVec 16) : List Job → List (Pins × Pins)
  | [] => []
  | j :: js => strobe mask j :: strobes (byteMask j.byteEnable) js

/-- `BitEnable_D` after they were sent. -/
def maskOf (mask : BitVec 16) : List Job → BitVec 16
  | [] => mask
  | j :: js => maskOf (byteMask j.byteEnable) js

/-- Every byte whose enable differs from that of the job before is zero. -/
def Settled (mask : BitVec 16) : List Job → Prop
  | [] => True
  | j :: js =>
    j.data &&& (byteMask j.byteEnable ^^^ mask) = 0 ∧ Settled (byteMask j.byteEnable) js

section Strobes

variable {mask : BitVec 16} {js : List Job}

theorem strobes_concat (j : Job) :
    strobes mask (js ++ [j]) = strobes mask js ++ [strobe (maskOf mask js) j] := by
  induction js generalizing mask with
  | nil => rfl
  | cons k js ih => rw [List.cons_append, strobes, strobes, maskOf, ih, List.cons_append]

theorem maskOf_concat (j : Job) : maskOf mask (js ++ [j]) = byteMask j.byteEnable := by
  induction js generalizing mask with
  | nil => rfl
  | cons k js ih => rw [List.cons_append, maskOf, ih]

/-- A panel that takes the bus as it was before the edge. -/
def sampleBefore (before _ : Pins) : Word := (before.dbDio, before.dcNso)

/-- A bus that is the same on both sides of the edge is taken as it is. -/
def ReadsStable (sample : Pins → Pins → Word) : Prop :=
  ∀ before now : Pins, before.dbDio = now.dbDio → before.dcNso = now.dcNso →
    sample before now = (now.dbDio, now.dcNso)

theorem readsStable_before : ReadsStable sampleBefore :=
  fun _ _ hdata hdc => Prod.ext hdata hdc

theorem map_strobes {sample : Pins → Pins → Word} (hs : ReadsStable sample)
    (h : Settled mask js) : (strobes mask js).map (fun p => sample p.1 p.2) = js.map Job.word := by
  induction js generalizing mask with
  | nil => rfl
  | cons j js ih =>
    obtain ⟨hj, hjs⟩ := h
    have hsame : j.data &&& mask = j.word.1 := (and_eq_and_iff _ _ _).mpr hj
    rw [strobes, List.map_cons, List.map_cons, ih hjs]
    congr 1
    exact hs _ _ hsame rfl

/-- The bus before the edges shows whether the words change with them. -/
theorem map_strobes_before :
    (strobes mask js).map (fun p => sampleBefore p.1 p.2) = js.map Job.word ↔ Settled mask js := by
  induction js generalizing mask with
  | nil => exact iff_of_true rfl trivial
  | cons j js ih =>
    rw [strobes, List.map_cons, List.map_cons, List.cons.injEq, ih, Settled, ← and_eq_and_iff]
    refine and_congr_left fun _ => ?_
    constructor
    · exact fun h => congrArg Prod.fst h
    · exact fun h => Prod.ext h rfl

end Strobes

/-! ## In a run from reset -/

section FromReset

variable {s : Signals} {i : ℕ → Inputs}

/-- Nothing is sent in the LCD reset. -/
theorem lt_of_sent {t : ℕ} {j : Job} (h : sent s i t = some j) : bootCycles + 4 < t := by
  obtain ⟨u, hu, -, hc⟩ := captured_of_busy (stage_eq_some.mp h)
  have := lt_of_captured hc
  omega

theorem isSome_sent_iff {t : ℕ} : (sent s i t).isSome = true ↔
    (cycle s i t).statePresD ≠ .stateTx ∧ (cycle s i (t + 1)).statePresD = .stateTx := by
  have h := congrArg Option.isSome (presented_eq (s := s) (i := i) t)
  rw [Option.isSome_map] at h
  rw [show (sent s i t).isSome = _ from h.symm, presented]
  split
  · exact iff_of_true rfl ‹_›
  · exact iff_of_false Bool.false_ne_true ‹_›

/-- The pins on both sides of edge `t`, if a job is sent there. -/
def crossed (s : Signals) (i : ℕ → Inputs) (t : ℕ) : Option (Pins × Pins) :=
  (sent s i t).map fun _ => (pins (cycle s i t).toLogic, pins (cycle s i (t + 1)).toLogic)

theorem crossed_eq (t : ℕ) :
    crossed s i t = (sent s i t).map (strobe (cycle s i t).bitEnableD) := by
  unfold crossed
  cases hj : sent s i t with
  | none => rfl
  | some j =>
    have hnow : phaseAt s i (t + 1) = .busy j 5 := stage_eq_some.mp hj
    obtain ⟨u, hu, hbefore⟩ := busy_pred hnow (by omega)
    obtain rfl : t = u := Nat.succ.inj hu
    rw [Option.map_some, Option.map_some, pins_eq, pins_eq, hnow, hbefore]
    rfl

/-- **`BitEnable_D` is that of the last job sent.** -/
theorem bitEnableD_sent (t : ℕ) :
    (cycle s i t).bitEnableD = maskOf s.bitEnableD (log (sent s i) t) := by
  induction t with
  | zero => rfl
  | succ t ih =>
    rw [bitEnableD_succ]
    cases hj : sent s i t with
    | some j =>
      have hnow : phaseAt s i (t + 1) = .busy j 5 := stage_eq_some.mp hj
      rw [log_succ_some hj, maskOf_concat, hnow, maskAfter, if_pos (by omega)]
    | none =>
      rw [log_succ_none hj, ← ih]
      cases hp : phaseAt s i (t + 1) with
      | down k => rfl
      | idle => rfl
      | busy j k =>
        rw [maskAfter]
        split
        · -- `StateTx` goes on with the same job
          rename_i hk
          obtain ⟨k, rfl⟩ : ∃ m, k = m + 1 := ⟨k - 1, by omega⟩
          obtain ⟨u, hu, hbefore⟩ := busy_pred hp (by omega)
          obtain rfl : t = u := Nat.succ.inj hu
          have hne : k ≠ 4 := by
            rintro rfl
            rw [sent, stage_eq_some.mpr hp] at hj
            cases hj
          have hr := refines_cycle (s := s) (i := i) t
          rw [hbefore] at hr
          exact (hr.bitEnableD (by omega) (by omega)).symm
        · rfl

/-- **The strobes of a run** are those of the jobs sent. -/
theorem log_crossed (t : ℕ) :
    log (crossed s i) t = strobes s.bitEnableD (log (sent s i) t) := by
  induction t with
  | zero => rfl
  | succ t ih =>
    have hc := crossed_eq (s := s) (i := i) t
    cases hj : sent s i t with
    | none =>
      rw [hj] at hc
      rw [log_succ_none hc, log_succ_none hj, ih]
    | some j =>
      rw [hj] at hc
      rw [log_succ_some hc, log_succ_some hj, strobes_concat, ih, bitEnableD_sent]

end FromReset

/-! ## The panel -/

/-- The word the panel takes when the pins were `before` and are `now`: one at a rising edge of
`Wr_NSO` while it is selected. -/
def latch (sample : Pins → Pins → Word) (before now : Pins) : Option Word :=
  if before.csNso = false ∧ now.csNso = false ∧ before.wrNso = false ∧ now.wrNso = true then
    some (sample before now)
  else none

/-- What it has received in the next cycle. -/
def receive (sample : Pins → Pins → Word) (received : List Word) (before now : Pins) : List Word :=
  if now.lcdResetNro = false then [] else received ++ (latch sample before now).toList

section Runs

variable (sample : Pins → Pins → Word) (stream : ℕ → BitVec 16) (e : ℕ → Event)

def pinsAt (t : ℕ) : Pins := pins (signals stream e t).toLogic

/-- The word taken between cycles `t` and `t + 1`. -/
def latched (t : ℕ) : Option Word := latch sample (pinsAt stream e t) (pinsAt stream e (t + 1))

/-- What the panel has received by cycle `t`. -/
def received : ℕ → List Word
  | 0 => []
  | t + 1 => receive sample (received t) (pinsAt stream e t) (pinsAt stream e (t + 1))

/-- The writes to the panel captured since the last reset, five cycles ago or more. -/
def jobsSince (t : ℕ) : List Job :=
  (log (captured (signals stream e (start e t)) (inputsFrom e (start e t))) (since e t - 4)).filter
    fun j => IsTx j.address

variable {sample stream e}

/-- **A word is taken when `StateTx` is entered.** -/
theorem latched_eq (t : ℕ) : latched sample stream e t =
    if (signals stream e t).statePresD ≠ .stateTx ∧
        (signals stream e (t + 1)).statePresD = .stateTx then
      some (sample (pinsAt stream e t) (pinsAt stream e (t + 1)))
    else none := by
  have hiff : Strobe stream e t ↔ EntersTx stream e t := strobe_iff
  unfold latched latch
  refine if_congr ⟨fun h => ?_, fun h => ?_⟩ rfl rfl
  · exact hiff.mp ⟨h.1, h.2.1, h.2.2.1, h.2.2.2⟩
  · have hs := hiff.mpr h
    exact ⟨hs.select, hs.selectNext, hs.low, hs.high⟩

/-- In terms of the run since the last reset. -/
theorem latched_edge {t : ℕ} {x : Inputs} (h : e t = .edge x) : latched sample stream e t =
    (crossed (signals stream e (start e t)) (inputsFrom e (start e t)) (since e t)).map
      fun p => sample p.1 p.2 := by
  have hnow := signals_eq_cycle (e := e) stream t
  have hnext := signals_eq_cycle (e := e) stream (t + 1)
  rw [start_succ h, since_succ_edge h] at hnext
  rw [latched_eq, pinsAt, pinsAt, hnow, hnext, crossed]
  split
  · rename_i htx
    obtain ⟨j, hj⟩ := Option.isSome_iff_exists.mp (isSome_sent_iff.mpr htx)
    rw [hj]
    rfl
  · rename_i htx
    rw [← isSome_sent_iff, Bool.not_eq_true, Option.isSome_eq_false_iff, Option.isNone_iff_eq_none]
      at htx
    rw [htx]
    rfl

theorem latched_reset {t : ℕ} (h : e t = .reset) : latched sample stream e t = none := by
  rw [latched_eq, if_neg]
  rintro ⟨-, htx⟩
  rw [signals_succ, h] at htx
  cases htx

/-- Which word the panel takes depends on `sample`, when it takes one does not. -/
theorem exists_sent_of_latched {t : ℕ} (h : latched sample stream e t ≠ none) :
    (∃ x, e t = .edge x) ∧ ∃ j,
      sent (signals stream e (start e t)) (inputsFrom e (start e t)) (since e t) = some j := by
  cases he : e t with
  | reset => exact absurd (latched_reset he) h
  | edge x =>
    rw [latched_edge he, crossed, Option.map_map, Ne, Option.map_eq_none_iff] at h
    exact ⟨⟨x, rfl⟩, Option.ne_none_iff_exists'.mp h⟩

theorem pinsAt_eq (t : ℕ) : pinsAt stream e t =
    pins (cycle (signals stream e (start e t)) (inputsFrom e (start e t)) (since e t)).toLogic := by
  rw [pinsAt, ← signals_eq_cycle]

/-- `LcdReset_NRO` is `'0'` in the first cycles after a reset. -/
theorem lcdResetNro_iff (t : ℕ) :
    (pinsAt stream e t).lcdResetNro = false ↔ 1 ≤ since e t ∧ since e t ≤ bootCycles := by
  rw [pinsAt_eq]
  exact lcdResetNro_cycle _

/-- Once the reset pulse has begun, the panel has received what it takes of the strobes of this
run. -/
theorem received_eq_log {t : ℕ} (h : 0 < since e t) : received sample stream e t =
    (log (crossed (signals stream e (start e t)) (inputsFrom e (start e t))) (since e t)).map
      fun p => sample p.1 p.2 := by
  induction t with
  | zero => exact absurd h (Nat.lt_irrefl 0)
  | succ t ih =>
    cases he : e t with
    | reset =>
      rw [since_succ_reset he] at h
      exact absurd h (Nat.lt_irrefl 0)
    | edge x =>
      rw [received, receive, start_succ he, since_succ_edge he]
      by_cases hboot : since e t + 1 ≤ bootCycles
      · rw [if_pos, log_crossed, log_eq_nil fun u hu => ?_]
        · rfl
        · refine Option.eq_none_iff_forall_ne_some.mpr fun j hj => ?_
          have := lt_of_sent hj
          omega
        · rw [pinsAt_eq, lcdResetNro_cycle, since_succ_edge he]
          omega
      · have h2 : 2 < bootCycles := by unfold bootCycles; omega
        have hnot : ¬ (pinsAt stream e (t + 1)).lcdResetNro = false := by
          rw [pinsAt_eq, lcdResetNro_cycle, since_succ_edge he]
          omega
        have hlatch : latch sample (pinsAt stream e t) (pinsAt stream e (t + 1)) = _ :=
          latched_edge he
        rw [if_neg hnot, ih (by omega), hlatch, log_succ, List.map_append]
        congr 1
        cases crossed (signals stream e (start e t)) (inputsFrom e (start e t)) (since e t) <;> rfl

/-- **What any panel has received** since the last reset. -/
theorem received_eq {t : ℕ} (h : 0 < since e t) : received sample stream e t =
    (strobes (signals stream e (start e t)).bitEnableD (jobsSince stream e t)).map
      fun p => sample p.1 p.2 := by
  have hjobs : log (sent (signals stream e (start e t)) (inputsFrom e (start e t))) (since e t) =
      jobsSince stream e t := by
    unfold jobsSince
    rw [← log_sent]
    by_cases h4 : 4 ≤ since e t
    · rw [show 4 + (since e t - 4) = since e t by omega]
    · have hnil : ∀ n, n ≤ 4 →
          log (sent (signals stream e (start e t)) (inputsFrom e (start e t))) n = [] := by
        intro n hn
        refine log_eq_nil fun u hu => Option.eq_none_iff_forall_ne_some.mpr fun j hj => ?_
        have := lt_of_sent hj
        omega
      rw [hnil _ (by omega), hnil _ (by omega)]
  rw [received_eq_log h, log_crossed, hjobs]

/-- **Every panel that takes a stable bus as it is has received the captured words iff** every byte
whose enable differs from that of the word before is zero. The word before the first one was sent
before the reset, which leaves `BitEnable_D` alone. -/
theorem panel_received {t : ℕ} (h : 0 < since e t) :
    (∀ sample, ReadsStable sample →
        received sample stream e t = (jobsSince stream e t).map Job.word) ↔
      Settled (signals stream e (start e t)).bitEnableD (jobsSince stream e t) := by
  constructor
  · intro hall
    rw [← map_strobes_before, ← received_eq h]
    exact hall sampleBefore readsStable_before
  · intro hs sample hsample
    rw [received_eq h, map_strobes hsample hs]

/-- Clock edges from power-up on, and no reset. -/
theorem since_edges (i : ℕ → Inputs) (t : ℕ) : since (fun t => .edge (i t)) t = t := by
  induction t with
  | zero => rfl
  | succ t ih => rw [since_succ_edge rfl, ih]

theorem start_edges (i : ℕ → Inputs) (t : ℕ) : start (fun t => .edge (i t)) t = 0 := by
  unfold start
  rw [since_edges, Nat.sub_self]

theorem inputsFrom_edges (i : ℕ → Inputs) : inputsFrom (fun t => .edge (i t)) 0 = i := by
  funext k
  unfold inputsFrom
  rw [Nat.zero_add]

/-- `NOP` after the LCD reset, and then a memory write. -/
def twoCommands : ℕ → Inputs :=
  systemPort (powerUp fun _ => 0)
    [(500000001, ⟨regWriteCmdAddr, 0x0000#16, 0b11#2⟩), (9, ⟨regWriteCmdAddr, 0x002C#16, 0b11#2⟩)]

theorem jobsSince_twoCommands :
    jobsSince (fun _ => 0) (fun t => .edge (twoCommands t)) 500000021 =
      [⟨regWriteCmdAddr, 0x0000#16, 0b11#2, 0⟩, ⟨regWriteCmdAddr, 0x002C#16, 0b11#2, 0⟩] := by
  have hlog : ∀ k, log (captured (powerUp fun _ => 0) twoCommands) (500000001 + 6 + (10 + k)) = _ :=
    log_captured_late (by unfold bootCycles; omega)
  have hcap : log (captured (powerUp fun _ => 0) twoCommands) (500000021 - 4) = _ := hlog 0
  unfold jobsSince
  rw [since_edges, start_edges, inputsFrom_edges]
  rw [show signals (fun _ => 0) (fun t => .edge (twoCommands t)) 0 = powerUp fun _ => 0 from rfl,
    hcap]
  decide

/-- **Even a panel that takes the bus before the edges** has received both of them: the first one
has no byte to change. -/
theorem two_commands_received :
    received sampleBefore (fun _ => 0) (fun t => .edge (twoCommands t)) 500000021 =
      [(0x0000#16, false), (0x002C#16, false)] := by
  have h := @panel_received (fun _ => 0) (fun t => .edge (twoCommands t)) 500000021
    (by rw [since_edges]; omega)
  rw [jobsSince_twoCommands, start_edges] at h
  refine (h.mpr ?_ sampleBefore readsStable_before).trans (by decide)
  exact ⟨by decide, by decide, trivial⟩

/-! ## How fast -/

/-- In a run from reset. -/
theorem sent_apart {s : Signals} {i : ℕ → Inputs} {t u : ℕ} {j k : Job} (htu : t < u)
    (ht : sent s i t = some j) (hu : sent s i u = some k) : t + 10 ≤ u := by
  have htx : IsTx j.address := isTx_of_busy (stage_eq_some.mp ht) (by omega)
  obtain ⟨w, hw, -, hc⟩ := captured_of_busy (stage_eq_some.mp ht)
  obtain ⟨w', hw', -, hc'⟩ := captured_of_busy (stage_eq_some.mp hu)
  by_contra hlt
  -- the server is busy with the first job when it takes the second one
  obtain ⟨n, rfl⟩ : ∃ n, w' = w + n := ⟨w' - w, by omega⟩
  have hidle := (captured_eq_some.mp hc').1
  rw [busy_of_word hc htx (by omega) (by omega)] at hidle
  cases hidle

/-- A later cycle of the same run, or one after another LCD reset. -/
theorem start_or_since {t : ℕ} (n : ℕ) :
    start e (t + n) = start e t ∧ since e (t + n) = since e t + n ∨ since e (t + n) < n := by
  induction n with
  | zero => exact Or.inl ⟨rfl, rfl⟩
  | succ n ih =>
    rw [← Nat.add_assoc]
    cases he : e (t + n) with
    | edge x =>
      rw [start_succ he, since_succ_edge he]
      omega
    | reset =>
      rw [since_succ_reset he]
      omega

/-- **Two words are ten cycles apart or more**, across resets too. -/
theorem words_apart {t u : ℕ} (htu : t < u) (ht : latched sample stream e t ≠ none)
    (hu : latched sample stream e u ≠ none) : t + 10 ≤ u := by
  obtain ⟨⟨x, hx⟩, j, hj⟩ := exists_sent_of_latched ht
  obtain ⟨-, k, hk⟩ := exists_sent_of_latched hu
  obtain ⟨n, rfl⟩ := Nat.exists_eq_add_of_lt htu
  rcases start_or_since (e := e) (t := t) (n + 1) with ⟨hs, hn⟩ | hn
  · rw [← Nat.add_assoc] at hs hn
    rw [hs, hn] at hk
    have := sent_apart (by omega) hj hk
    omega
  · -- the LCD reset alone takes longer
    have hboot := lt_of_sent hk
    have h2 : 10 < bootCycles := by unfold bootCycles; omega
    rw [← Nat.add_assoc] at hn
    omega

/-- **`n` cycles carry at most one word for each ten**, whatever the panel takes. -/
theorem word_rate (sample : Pins → Pins → Word) (stream : ℕ → BitVec 16) (e : ℕ → Event)
    (a n : ℕ) : (log (fun t => latched sample stream e (a + t)) n).length ≤ (n + 9) / 10 := by
  refine length_log_apart (m := 10) (by omega) (fun t u htu ht hu => ?_) n
  have := words_apart (by omega) ht hu
  omega

end Runs

end LcdInterface.LcdDriver

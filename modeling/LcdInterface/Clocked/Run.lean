import Mathlib.Data.List.Basic

/-!
# Runs of a clocked machine, and the events along them

A clocked machine is a step function `σ → ι → σ`, one step an edge of the clock. `run step s i t`
is the state in cycle `t`: the cycle before edge `t`, with `s` in cycle `0` and the input `i t`
sampled by edge `t`. Time is unbounded, so a statement about `run … t` for every `t` is a
statement about runs of any length.

An event stream `ℕ → Option α` says what happens in each cycle, and `log e t` is the list of
the events of the cycles before `t`, in order.

* `run_invariant`, `run_sim`: an invariant, and a simulation, from their one-step halves.
* `run_countdown`: how long a machine stays where it counts down.
* `delay`, `rises`: a flip-flop's output, and the rising edges of a signal.
* `log_add`, `log_shift`: two streams that differ by a delay have the same log.
* `log_when_eq_iff`: filtering a stream by a condition on the cycle leaves the log unchanged iff
  every event meets the condition.
-/

namespace Clocked

variable {σ τ ι κ α β : Type*}

/-! ## Runs -/

/-- The state in cycle `t` of the run from `s` on the input stream `i`. -/
def run (step : σ → ι → σ) (s : σ) (i : ℕ → ι) : ℕ → σ
  | 0 => s
  | t + 1 => step (run step s i t) (i t)

variable {step : σ → ι → σ} {s : σ} {i : ℕ → ι}

@[simp] theorem run_zero : run step s i 0 = s := rfl

theorem run_succ (t : ℕ) : run step s i (t + 1) = step (run step s i t) (i t) := rfl

theorem run_add (m n : ℕ) :
    run step s i (m + n) = run step (run step s i m) (fun t => i (m + t)) n := by
  induction n with
  | zero => rfl
  | succ n ih => rw [← Nat.add_assoc, run_succ, run_succ, ih]

/-- **Invariant rule.** -/
theorem run_invariant {P : σ → Prop} (h0 : P s) (hstep : ∀ s x, P s → P (step s x)) (t : ℕ) :
    P (run step s i t) := by
  induction t with
  | zero => exact h0
  | succ t ih => exact hstep _ _ ih

/-- The state depends on the inputs up to then. -/
theorem run_congr {j : ℕ → ι} {t : ℕ} (h : ∀ u, u < t → i u = j u) :
    run step s i t = run step s j t := by
  induction t with
  | zero => rfl
  | succ t ih => rw [run_succ, run_succ, ih fun u hu => h u (by omega), h t (by omega)]

/-- What is reached by some run stays so after any further step. -/
theorem reached_step {a : σ} (h : ∃ i t, run step s i t = a) (x : ι) :
    ∃ i t, run step s i t = step a x := by
  obtain ⟨i, t, rfl⟩ := h
  refine ⟨fun u => if u < t then i u else x, t + 1, ?_⟩
  rw [run_succ, if_neg (Nat.lt_irrefl t)]
  congr 1
  exact run_congr fun u hu => if_pos hu

/-- **Countdown rule.** A machine that stays in `P` while it counts `c` down, and leaves it at zero,
stays for `c + 1` cycles. -/
theorem run_countdown {P : σ → Prop} {c : σ → ℕ}
    (hpos : ∀ s x, P s → 0 < c s → P (step s x) ∧ c (step s x) + 1 = c s)
    (hzero : ∀ s x, P s → c s = 0 → ¬ P (step s x)) (h : P s) :
    (∀ k, k ≤ c s → P (run step s i k)) ∧ ¬ P (run step s i (c s + 1)) := by
  have hstay : ∀ k, k ≤ c s → P (run step s i k) ∧ c (run step s i k) + k = c s := by
    intro k
    induction k with
    | zero => exact fun _ => ⟨h, rfl⟩
    | succ k ih =>
      intro hk
      obtain ⟨hP, hc⟩ := ih (by omega)
      obtain ⟨hP', hc'⟩ := hpos _ (i k) hP (by omega)
      rw [run_succ]
      exact ⟨hP', by omega⟩
  refine ⟨fun k hk => (hstay k hk).1, ?_⟩
  obtain ⟨hP, hc⟩ := hstay (c s) (Nat.le_refl _)
  rw [run_succ]
  exact hzero _ _ hP (by omega)

/-- **Simulation rule.** The second machine is fed what `obs` sees of the first one. -/
theorem run_sim (step' : τ → κ → τ) (obs : σ → ι → κ) {R : σ → τ → Prop} {a : τ} (h0 : R s a)
    (hstep : ∀ s a x, R s a → R (step s x) (step' a (obs s x))) (t : ℕ) :
    R (run step s i t) (run step' a (fun t => obs (run step s i t) (i t)) t) := by
  induction t with
  | zero => exact h0
  | succ t ih => exact hstep _ _ _ ih

/-! ## Delays and rising edges -/

/-- A flip-flop that powers up as `a` and is fed `f`. -/
def delay (a : α) (f : ℕ → α) : ℕ → α
  | 0 => a
  | t + 1 => f t

@[simp] theorem delay_zero (a : α) (f : ℕ → α) : delay a f 0 = a := rfl

@[simp] theorem delay_succ (a : α) (f : ℕ → α) (t : ℕ) : delay a f (t + 1) = f t := rfl

/-- `w` is `'1'` now and was `'0'` in the cycle before, or this is cycle `0`. -/
def rises (w : ℕ → Bool) (t : ℕ) : Bool :=
  w t && !delay false w t

theorem rises_iff {w : ℕ → Bool} {t : ℕ} :
    rises w t = true ↔ w t = true ∧ delay false w t = false := by
  simp [rises]

theorem rises_succ_of_high {w : ℕ → Bool} {t : ℕ} (h : w t = true) : rises w (t + 1) = false := by
  simp [rises, h]

/-- Some edge started every high level. -/
theorem exists_rises {w : ℕ → Bool} {t : ℕ} (h : w t = true) :
    ∃ u, u ≤ t ∧ rises w u = true ∧ ∀ v, u ≤ v → v ≤ t → w v = true := by
  induction t with
  | zero => exact ⟨0, Nat.le_refl 0, by simp [rises, h], fun v _ hv => by rwa [Nat.le_zero.mp hv]⟩
  | succ t ih =>
    cases hw : w t with
    | false =>
      refine ⟨t + 1, Nat.le_refl _, by simp [rises, h, hw], fun v h1 h2 => ?_⟩
      rwa [Nat.le_antisymm h2 h1]
    | true =>
      obtain ⟨u, hu, hr, hall⟩ := ih hw
      refine ⟨u, by omega, hr, fun v h1 h2 => ?_⟩
      rcases Nat.le_succ_iff.mp h2 with hle | rfl
      · exact hall v h1 hle
      · exact h

/-- The stretch of cycles with `P` that reaches cycle `t` began somewhere. -/
theorem exists_before {P : ℕ → Prop} {t : ℕ} (h0 : ¬ P 0) (h : P t) :
    ∃ a, a < t ∧ ¬ P a ∧ ∀ n, a < n → n ≤ t → P n := by
  induction t with
  | zero => exact absurd h h0
  | succ t ih =>
    by_cases ht : P t
    · obtain ⟨a, hat, ha, hall⟩ := ih ht
      refine ⟨a, Nat.lt_succ_of_lt hat, ha, fun n h1 h2 => ?_⟩
      rcases Nat.le_succ_iff.mp h2 with hle | rfl
      · exact hall n h1 hle
      · exact h
    · refine ⟨t, Nat.lt_succ_self t, ht, fun n h1 h2 => ?_⟩
      obtain rfl : n = t + 1 := by omega
      exact h

/-! ## Event logs -/

/-- The events of the cycles before `t`, in order. -/
def log (e : ℕ → Option α) : ℕ → List α
  | 0 => []
  | t + 1 => log e t ++ (e t).toList

variable {e f : ℕ → Option α}

@[simp] theorem log_zero : log e 0 = [] := rfl

theorem log_succ (t : ℕ) : log e (t + 1) = log e t ++ (e t).toList := rfl

theorem log_succ_none {t : ℕ} (h : e t = none) : log e (t + 1) = log e t := by
  rw [log_succ, h]; simp

theorem log_succ_some {t : ℕ} {a : α} (h : e t = some a) : log e (t + 1) = log e t ++ [a] := by
  rw [log_succ, h]; simp

theorem log_congr {t : ℕ} (h : ∀ u, u < t → e u = f u) : log e t = log f t := by
  induction t with
  | zero => rfl
  | succ t ih => rw [log_succ, log_succ, ih fun u hu => h u (by omega), h t (by omega)]

theorem log_add (m n : ℕ) : log e (m + n) = log e m ++ log (fun t => e (m + t)) n := by
  induction n with
  | zero => simp
  | succ n ih => rw [← Nat.add_assoc, log_succ, log_succ, ih, List.append_assoc]

theorem log_eq_nil {t : ℕ} (h : ∀ u, u < t → e u = none) : log e t = [] := by
  induction t with
  | zero => rfl
  | succ t ih => rw [log_succ_none (h t (by omega)), ih fun u hu => h u (by omega)]

theorem length_log_mono {m n : ℕ} (h : m ≤ n) : (log e m).length ≤ (log e n).length := by
  obtain ⟨k, rfl⟩ := Nat.exists_eq_add_of_le h
  rw [log_add, List.length_append]
  exact Nat.le_add_right _ _

/-- Cycles without an event add nothing. -/
theorem log_add_none {m n : ℕ} (h : ∀ u, u < n → e (m + u) = none) :
    log e (m + n) = log e m := by
  rw [log_add, log_eq_nil h, List.append_nil]

theorem log_eq_singleton {u t : ℕ} {a : α} (hu : e u = some a) (h : ∀ v, v ≠ u → e v = none)
    (hut : u < t) : log e t = [a] := by
  obtain ⟨n, rfl⟩ : ∃ n, t = u + 1 + n := ⟨t - (u + 1), by omega⟩
  rw [log_add_none fun v _ => h _ (by omega), log_succ_some hu,
    log_eq_nil fun v hv => h v (by omega), List.nil_append]

/-- Two events make a log of two. -/
theorem length_log_le_one_iff :
    (∀ t, (log e t).length ≤ 1) ↔ ∀ u v, u < v → e u ≠ none → e v = none := by
  constructor
  · intro h u v huv hu
    by_contra hv
    obtain ⟨a, ha⟩ := Option.ne_none_iff_exists'.mp hu
    obtain ⟨b, hb⟩ := Option.ne_none_iff_exists'.mp hv
    have hmono := length_log_mono (e := e) (show u + 1 ≤ v from huv)
    have hlen := h (v + 1)
    rw [log_succ_some hb, List.length_append, List.length_singleton] at hlen
    rw [log_succ_some ha, List.length_append, List.length_singleton] at hmono
    omega
  · intro h t
    induction t with
    | zero => exact Nat.zero_le 1
    | succ t ih =>
      cases ht : e t with
      | none => rwa [log_succ_none ht]
      | some a =>
        have hnone : ∀ u, u < t → e u = none := by
          intro u hu
          by_contra hne
          rw [h u t hu hne] at ht
          simp at ht
        rw [log_succ_some ht, log_eq_nil hnone]
        exact Nat.le_refl 1

/-- The first event, if there is one. -/
theorem first_event (e : ℕ → Option α) (t : ℕ) :
    (∀ u, u < t → e u = none) ∨ ∃ u a, u < t ∧ e u = some a ∧ ∀ v, v < u → e v = none := by
  induction t with
  | zero => exact Or.inl fun u hu => absurd hu (Nat.not_lt_zero u)
  | succ t ih =>
    rcases ih with hnone | ⟨u, a, hu, ha, hfirst⟩
    · cases ht : e t with
      | none =>
        refine Or.inl fun u hu => ?_
        rcases Nat.lt_succ_iff_lt_or_eq.mp hu with hlt | rfl
        · exact hnone u hlt
        · exact ht
      | some a => exact Or.inr ⟨t, a, Nat.lt_succ_self t, ht, hnone⟩
    · exact Or.inr ⟨u, a, Nat.lt_succ_of_lt hu, ha, hfirst⟩

/-- Of events that are `m` cycles apart there is one at most in `m` cycles, … -/
theorem length_log_le_one {m : ℕ}
    (h : ∀ t u, t < u → e t ≠ none → e u ≠ none → t + m ≤ u) : (log e m).length ≤ 1 := by
  rcases first_event e m with hnone | ⟨u, a, hu, ha, hfirst⟩
  · rw [log_eq_nil hnone]
    exact Nat.zero_le 1
  · obtain ⟨n, rfl⟩ := Nat.exists_eq_add_of_le (show u + 1 ≤ m from hu)
    have hlater : ∀ v, v < n → e (u + 1 + v) = none := by
      intro v hv
      by_contra hne
      have hapart := h u (u + 1 + v) (by omega) (by simp [ha]) hne
      omega
    rw [log_add_none hlater, log_succ_some ha, log_eq_nil hfirst]
    exact Nat.le_refl 1

/-- … **and in any number of cycles one for each `m`.** -/
theorem length_log_apart {m : ℕ} (hm : 0 < m)
    (h : ∀ t u, t < u → e t ≠ none → e u ≠ none → t + m ≤ u) (n : ℕ) :
    (log e n).length ≤ (n + m - 1) / m := by
  induction n using Nat.strongRecOn generalizing e with
  | ind n ih =>
    rcases Nat.lt_or_ge n (m + 1) with hlt | hge
    · rcases Nat.eq_zero_or_pos n with rfl | hpos
      · exact Nat.zero_le _
      · have hmono := length_log_mono (e := e) (show n ≤ m by omega)
        have hdiv := (Nat.one_le_div_iff hm).mpr (show m ≤ n + m - 1 by omega)
        exact Nat.le_trans hmono (Nat.le_trans (length_log_le_one h) hdiv)
    · obtain ⟨k, rfl⟩ := Nat.exists_eq_add_of_le (show m ≤ n by omega)
      have hrest := ih k (by omega) (e := fun t => e (m + t)) fun t u htu ht hu => by
        have hapart := h (m + t) (m + u) (by omega) ht hu
        omega
      have hdiv : (m + k + m - 1) / m = (k + m - 1) / m + 1 := by
        rw [show m + k + m - 1 = k + m - 1 + m by omega, Nat.add_div_right _ hm]
      rw [log_add, List.length_append, hdiv]
      have hone := length_log_le_one h
      omega

/-- A stream that is another one `k` cycles late has the same log, `k` cycles late. -/
theorem log_shift {k t : ℕ} (h0 : ∀ u, u < k → e u = none) (h : ∀ u, u < t → e (k + u) = f u) :
    log e (k + t) = log f t := by
  rw [log_add, log_eq_nil h0, List.nil_append]
  exact log_congr h

/-- The entries of a list, one a cycle. -/
theorem log_getElem? (l : List α) : log (fun t => l[t]?) l.length = l := by
  induction l with
  | nil => rfl
  | cons a l ih =>
    rw [List.length_cons, Nat.add_comm, log_add]
    simp only [Nat.add_comm 1, List.getElem?_cons_succ, ih]
    rfl

theorem log_filterMap (g : α → Option β) (t : ℕ) :
    (log e t).filterMap g = log (fun t => (e t).bind g) t := by
  induction t with
  | zero => rfl
  | succ t ih =>
    rw [log_succ, log_succ, List.filterMap_append, ih]
    cases e t with
    | none => simp
    | some a => cases hg : g a <;> simp [hg]

/-- Fewer events, in the same order. -/
theorem log_sublist {f : ℕ → Option α} (h : ∀ u a, e u = some a → f u = some a) (t : ℕ) :
    (log e t).Sublist (log f t) := by
  induction t with
  | zero => exact List.Sublist.refl []
  | succ t ih =>
    rw [log_succ, log_succ]
    refine ih.append ?_
    cases he : e t with
    | none => exact List.nil_sublist _
    | some a => rw [h t a he]

/-- The events of `e` in the cycles that meet `c`. -/
def when (c : ℕ → Prop) [DecidablePred c] (e : ℕ → Option α) (t : ℕ) : Option α :=
  if c t then e t else none

variable {c : ℕ → Prop} [DecidablePred c]

theorem length_log_when_le (t : ℕ) : (log (when c e) t).length ≤ (log e t).length := by
  induction t with
  | zero => simp
  | succ t ih =>
    rw [log_succ, log_succ, List.length_append, List.length_append]
    by_cases hc : c t
    · rw [when, if_pos hc]; exact Nat.add_le_add_right ih _
    · rw [when, if_neg hc, Option.toList_none, List.length_nil]; omega

/-- **Nothing is filtered out iff every event meets the condition.** -/
theorem log_when_eq_iff (t : ℕ) :
    log (when c e) t = log e t ↔ ∀ u, u < t → e u ≠ none → c u := by
  induction t with
  | zero => simp
  | succ t ih =>
    rw [log_succ, log_succ]
    by_cases hc : c t ∨ e t = none
    · have hw : when c e t = e t := by
        unfold when
        split
        · rfl
        · exact (hc.resolve_left ‹_›).symm
      rw [hw, List.append_left_inj, ih]
      constructor
      · intro h u hu hne
        rcases Nat.lt_succ_iff_lt_or_eq.mp hu with hlt | rfl
        · exact h u hlt hne
        · exact hc.resolve_right hne
      · exact fun h u hu => h u (by omega)
    · obtain ⟨hc, hne⟩ := not_or.mp hc
      constructor
      · intro h
        -- the event of cycle `t` is missing on the left, and no later one makes up for it
        have hlen := congrArg List.length h
        have hle := length_log_when_le (c := c) (e := e) t
        obtain ⟨a, ha⟩ := Option.ne_none_iff_exists'.mp hne
        have hw : when c e t = none := if_neg hc
        rw [hw, ha] at hlen
        simp only [Option.toList_none, Option.toList_some, List.length_append, List.length_nil,
          List.length_cons] at hlen
        omega
      · exact fun h => absurd (h t (by omega) hne) hc

end Clocked

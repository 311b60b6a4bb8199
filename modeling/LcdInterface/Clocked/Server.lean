import LcdInterface.Clocked.Run
import Mathlib.Data.ENat.Basic

/-!
# A single-slot server

The server is down for a while, then idle; an idle server takes the job it is offered and is busy
with it for `dur j` cycles; a job offered while it is down or busy is lost. `dur j = ⊤` is a job
that never ends. `Phase.busy j k`: this is cycle `k` after the one that took `j`.

* `busy_iff_taken`: the server is in cycle `k` of job `j` iff it took `j` exactly `k` cycles ago
  and `j` lasts longer than that.
* `idle_after`: it is idle again `dur j` cycles after taking `j`.
* `log_stage`: the jobs that reach age `k` are the jobs taken, in order, less those that end
  before.
* `run_endless`, `idle_eventually`: a job without end goes on; from every other phase the server
  becomes idle, whatever it is offered.
-/

namespace Clocked.Server

variable {J : Type*}

/-- What the server does in a cycle. -/
inductive Phase (J : Type*) where
  /-- Not serving yet, and for `k` more cycles after this one. -/
  | down (k : ℕ)
  | idle
  | busy (j : J) (k : ℕ)

open Phase

/-- The phase of the next cycle, under this cycle's offer. -/
def next (dur : J → ℕ∞) : Phase J → Option J → Phase J
  | down 0, _ => idle
  | down (k + 1), _ => down k
  | idle, none => idle
  | idle, some j => busy j 1
  | busy j k, _ => if ((k + 1 : ℕ) : ℕ∞) < dur j then busy j (k + 1) else idle

/-- The job taken in phase `p` under the offer `o`. -/
def take : Phase J → Option J → Option J
  | idle, o => o
  | _, _ => none

/-- The job that is in its `k`-th cycle. -/
def stage (k : ℕ) : Phase J → Option J
  | busy j m => if m = k then some j else none
  | _ => none

theorem take_eq_some {p : Phase J} {o : Option J} {j : J} :
    take p o = some j ↔ p = idle ∧ o = some j := by
  cases p <;> simp [take]

theorem stage_eq_some {k : ℕ} {p : Phase J} {j : J} : stage k p = some j ↔ p = busy j k := by
  cases p with
  | down m => simp [stage]
  | idle => simp [stage]
  | busy j' m =>
    simp only [stage, busy.injEq]
    split <;> simp_all

/-- One cycle: the server is busy next iff it takes a job now or goes on with one. -/
theorem next_eq_busy {dur : J → ℕ∞} {p : Phase J} {o : Option J} {j : J} {k : ℕ} :
    next dur p o = busy j k ↔
      (k = 1 ∧ take p o = some j) ∨ (∃ m, k = m + 1 ∧ p = busy j m ∧ (k : ℕ∞) < dur j) := by
  cases p with
  | down m => cases m <;> simp [next, take]
  | idle =>
    cases o with
    | none => simp [next, take]
    | some j' =>
      simp only [next, take, busy.injEq, Option.some.injEq, reduceCtorEq, false_and, and_false,
        exists_false, or_false]
      exact ⟨fun h => ⟨h.2.symm, h.1⟩, fun h => ⟨h.2, h.1.symm⟩⟩
  | busy j' m =>
    simp only [next, take]
    split
    · rename_i h
      simp only [busy.injEq, reduceCtorEq, and_false, false_or]
      constructor
      · rintro ⟨rfl, rfl⟩; exact ⟨m, rfl, ⟨rfl, rfl⟩, h⟩
      · rintro ⟨m', rfl, ⟨rfl, rfl⟩, -⟩; exact ⟨rfl, rfl⟩
    · rename_i h
      simp only [reduceCtorEq, and_false, false_or, busy.injEq, false_iff, not_exists, not_and]
      rintro m' rfl ⟨rfl, rfl⟩
      exact h

section Runs

variable (dur : J → ℕ∞) (b : ℕ) (o : ℕ → Option J)

/-- The phases of the run that is down in the cycles `0, …, b`. -/
def phase (t : ℕ) : Phase J := run (next dur) (down b) o t

/-- The job taken in cycle `t`. -/
def taken (t : ℕ) : Option J := take (phase dur b o t) (o t)

variable {dur b o}

theorem phase_succ (t : ℕ) : phase dur b o (t + 1) = next dur (phase dur b o t) (o t) := rfl

theorem taken_eq_some {t : ℕ} {j : J} :
    taken dur b o t = some j ↔ phase dur b o t = idle ∧ o t = some j := take_eq_some

theorem phase_boot {t : ℕ} (ht : t ≤ b) : phase dur b o t = down (b - t) := by
  induction t with
  | zero => rfl
  | succ t ih =>
    obtain ⟨k, hk⟩ : ∃ k, b - t = k + 1 := ⟨b - t - 1, by omega⟩
    rw [phase_succ, ih (by omega), hk, show b - (t + 1) = k by omega]
    rfl

/-- The first idle cycle. -/
theorem phase_ready : phase dur b o (b + 1) = idle := by
  rw [phase_succ, phase_boot (le_refl b), Nat.sub_self]
  rfl

theorem phase_ne_down {t : ℕ} (ht : b < t) (k : ℕ) : phase dur b o t ≠ down k := by
  induction t generalizing k with
  | zero => omega
  | succ t ih =>
    rcases Nat.lt_succ_iff_lt_or_eq.mp ht with hlt | rfl
    · rw [phase_succ]
      cases h : phase dur b o t with
      | down m => exact absurd h (ih hlt m)
      | idle => cases o t <;> simp [next]
      | busy j m => simp only [next]; split <;> simp
    · rw [phase_ready]; simp

/-- Nothing is taken while the server is down. -/
theorem lt_of_taken {t : ℕ} {j : J} (h : taken dur b o t = some j) : b < t := by
  by_contra hle
  have := (taken_eq_some.mp h).1
  rw [phase_boot (by omega)] at this
  simp at this

/-- A job that is `k` cycles old was taken `k` cycles ago. -/
theorem taken_of_busy {t : ℕ} {j : J} {k : ℕ} (h : phase dur b o t = busy j k) :
    ∃ u, t = u + k ∧ 0 < k ∧ taken dur b o u = some j := by
  induction t generalizing k with
  | zero => simp [phase] at h
  | succ t ih =>
    rw [phase_succ, next_eq_busy] at h
    rcases h with ⟨rfl, htake⟩ | ⟨m, rfl, hp, -⟩
    · exact ⟨t, rfl, by omega, htake⟩
    · obtain ⟨u, rfl, -, hu⟩ := ih hp
      exact ⟨u, by omega, by omega, hu⟩

theorem busy_lt_dur (hdur : ∀ j, 1 < dur j) {t : ℕ} {j : J} {k : ℕ}
    (h : phase dur b o t = busy j k) : (k : ℕ∞) < dur j := by
  cases t with
  | zero => simp [phase] at h
  | succ t =>
    rw [phase_succ, next_eq_busy] at h
    rcases h with ⟨rfl, -⟩ | ⟨m, rfl, -, hlt⟩
    · exact_mod_cast hdur j
    · exact hlt

/-- While `j` lasts, the server is busy with it. -/
theorem busy_of_taken {u : ℕ} {j : J} (hu : taken dur b o u = some j) {k : ℕ}
    (h0 : 0 < k) (hk : (k : ℕ∞) < dur j) : phase dur b o (u + k) = busy j k := by
  induction k with
  | zero => omega
  | succ k ih =>
    rw [← Nat.add_assoc, phase_succ, next_eq_busy]
    rcases Nat.eq_zero_or_pos k with rfl | hpos
    · exact Or.inl ⟨rfl, hu⟩
    · have hlt : (k : ℕ∞) < dur j := lt_trans (by exact_mod_cast Nat.lt_succ_self k) hk
      exact Or.inr ⟨k, rfl, ih hpos hlt, hk⟩

/-- **Age is time since the job was taken.** -/
theorem busy_iff_taken (hdur : ∀ j, 1 < dur j) {u : ℕ} {j : J} {k : ℕ} :
    phase dur b o (u + k) = busy j k ↔ 0 < k ∧ taken dur b o u = some j ∧ (k : ℕ∞) < dur j := by
  constructor
  · intro h
    obtain ⟨u', he, hk, hu⟩ := taken_of_busy h
    obtain rfl : u = u' := by omega
    exact ⟨hk, hu, busy_lt_dur hdur h⟩
  · rintro ⟨h0, hu, hk⟩
    exact busy_of_taken hu h0 hk

/-- **The server is idle again `dur j` cycles after it took `j`.** -/
theorem idle_after {u : ℕ} {j : J} (hu : taken dur b o u = some j) {d : ℕ} (hd : dur j = d)
    (h1 : 1 < d) : phase dur b o (u + d) = idle := by
  obtain ⟨k, rfl⟩ : ∃ k, d = k + 1 := ⟨d - 1, by omega⟩
  have hbusy : phase dur b o (u + k) = busy j k :=
    busy_of_taken hu (by omega)
      (by rw [hd]; exact_mod_cast Nat.lt_succ_self k)
  rw [← Nat.add_assoc, phase_succ, hbusy]
  simp [next, hd]

theorem taken_of_not_idle {t : ℕ} (h : phase dur b o t ≠ idle) : taken dur b o t = none :=
  Option.eq_none_iff_forall_ne_some.mpr fun _ hj => h (taken_eq_some.mp hj).1

theorem taken_of_none {t : ℕ} (h : o t = none) : taken dur b o t = none := by
  refine Option.eq_none_iff_forall_ne_some.mpr fun j hj => ?_
  have ho := (taken_eq_some.mp hj).2
  rw [h] at ho
  cases ho

/-- An idle server stays idle until it is offered something. -/
theorem idle_add {t n : ℕ} (h : phase dur b o t = idle) (ho : ∀ m, m < n → o (t + m) = none) :
    phase dur b o (t + n) = idle := by
  induction n with
  | zero => exact h
  | succ n ih =>
    rw [← Nat.add_assoc, phase_succ, ih fun m hm => ho m (by omega), ho n (Nat.lt_succ_self n)]
    rfl

/-- **The jobs that reach age `k`** are the jobs taken that last longer, `k` cycles late. -/
theorem log_stage (hdur : ∀ j, 1 < dur j) {k : ℕ} (hk : 0 < k) (t : ℕ) :
    log (fun t => stage k (phase dur b o t)) (k + t) =
      (log (taken dur b o) t).filterMap fun j => if (k : ℕ∞) < dur j then some j else none := by
  rw [log_filterMap]
  refine log_shift (fun u hu => ?_) (fun u _ => ?_)
  · refine Option.eq_none_iff_forall_ne_some.mpr fun j hj => ?_
    obtain ⟨u', he, -, -⟩ := taken_of_busy (stage_eq_some.mp hj)
    omega
  · refine Option.ext fun j => ?_
    rw [stage_eq_some, Nat.add_comm k u, busy_iff_taken hdur, Option.bind_eq_some_iff]
    constructor
    · rintro ⟨-, hu, hlt⟩; exact ⟨j, hu, if_pos hlt⟩
    · rintro ⟨j', hu, he⟩
      split at he
      · rename_i hlt
        obtain rfl := Option.some.inj he
        exact ⟨hk, hu, hlt⟩
      · simp at he

end Runs

/-- A job without end goes on, whatever is offered. -/
theorem run_endless {dur : J → ℕ∞} {j : J} (hd : dur j = ⊤) (k : ℕ) (o : ℕ → Option J) (n : ℕ) :
    run (next dur) (busy j k) o n = busy j (k + n) := by
  induction n with
  | zero => rfl
  | succ n ih =>
    have hlt : ((k + n + 1 : ℕ) : ℕ∞) < dur j := by
      rw [hd]
      exact WithTop.coe_lt_top _
    rw [run_succ, ih]
    simp only [next, if_pos hlt]
    rfl

/-- From every phase but a job without end the server becomes idle, whatever it is offered. -/
theorem idle_eventually {dur : J → ℕ∞} {p : Phase J} (hp : ∀ j k, p = busy j k → dur j ≠ ⊤)
    (o : ℕ → Option J) : ∃ n, run (next dur) p o n = idle := by
  cases p with
  | idle => exact ⟨0, rfl⟩
  | down k => exact ⟨k + 1, phase_ready⟩
  | busy j k =>
    obtain ⟨d, hd⟩ := ENat.ne_top_iff_exists.mp (hp j k rfl)
    -- induction on the cycles left
    induction hm : d - k generalizing k o with
    | zero =>
      refine ⟨1, ?_⟩
      have : ¬ ((k + 1 : ℕ) : ℕ∞) < dur j := by
        rw [← hd]; exact_mod_cast show ¬ k + 1 < d by omega
      simp only [run, next, if_neg this]
    | succ m ih =>
      by_cases hlt : ((k + 1 : ℕ) : ℕ∞) < dur j
      · have hfin : ∀ j' k', busy j (k + 1) = busy j' k' → dur j' ≠ ⊤ := by
          rintro j' k' ⟨⟩
          exact hp j k rfl
        obtain ⟨n, hn⟩ := ih (k := k + 1) (o := fun t => o (1 + t)) hfin (by omega)
        refine ⟨1 + n, ?_⟩
        rw [run_add]
        simpa only [run, next, if_pos hlt] using hn
      · exact ⟨1, by simp only [run, next, if_neg hlt]⟩

end Clocked.Server

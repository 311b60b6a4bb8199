import LcdInterface.Clocked.Run

/-!
# The wait-request handshake

A master requests with a strobe and a payload; the slave answers with a wait signal. The request of
a cycle is accepted iff the slave does not make it wait, and a master that has to wait repeats the
request (`Holds`). `req`, `wait` and `beat` are waveforms, so a run of any machine on either side
fits.

* `holds_until`: a request that has waited since cycle `u` is the request of cycle `u`.
* `heldOver`: the request of this cycle repeats one that had to wait.
* `outstanding_le_one_iff`: when at most one request is unanswered at any time.
-/

namespace Clocked.Handshake

variable {β : Type*}

/-- The master repeats a request that has to wait. -/
def Holds (req wait : ℕ → Bool) (beat : ℕ → β) : Prop :=
  ∀ t, req t = true → wait t = true → req (t + 1) = true ∧ beat (t + 1) = beat t

/-- The beat accepted in cycle `t`. -/
def accepted (req wait : ℕ → Bool) (beat : ℕ → β) (t : ℕ) : Option β :=
  if req t = true ∧ wait t = false then some (beat t) else none

/-- The request of this cycle had to wait in the cycle before. -/
def heldOver (req wait : ℕ → Bool) : ℕ → Bool :=
  delay false fun t => req t && wait t

variable {req wait : ℕ → Bool} {beat : ℕ → β}

theorem accepted_eq_some {t : ℕ} {b : β} :
    accepted req wait beat t = some b ↔ req t = true ∧ wait t = false ∧ beat t = b := by
  unfold accepted
  split
  · rename_i h; simp [h]
  · rename_i h
    simp only [reduceCtorEq, false_iff]
    exact fun h' => h ⟨h'.1, h'.2.1⟩

theorem accepted_eq_none {t : ℕ} :
    accepted req wait beat t = none ↔ (req t = true → wait t = true) := by
  unfold accepted
  split
  · rename_i h
    simp [h.1, h.2]
  · rename_i h
    refine iff_of_true rfl fun hr => ?_
    by_contra hw
    exact h ⟨hr, by simpa using hw⟩

theorem accepted_of_wait {t : ℕ} (h : wait t = true) : accepted req wait beat t = none :=
  accepted_eq_none.mpr fun _ => h

theorem heldOver_succ {t : ℕ} :
    heldOver req wait (t + 1) = true ↔ req t = true ∧ wait t = true := by
  simp [heldOver]

/-- A request that waits in every cycle of `[u, t)` is still there in cycle `t`, unchanged. -/
theorem holds_until (h : Holds req wait beat) {u t : ℕ} (hut : u ≤ t) (hreq : req u = true)
    (hwait : ∀ v, u ≤ v → v < t → wait v = true) : req t = true ∧ beat t = beat u := by
  induction t with
  | zero =>
    obtain rfl : u = 0 := by omega
    exact ⟨hreq, rfl⟩
  | succ t ih =>
    rcases Nat.lt_or_eq_of_le hut with hlt | rfl
    · obtain ⟨h1, h2⟩ := ih (by omega) fun v hv hvt => hwait v hv (by omega)
      obtain ⟨h3, h4⟩ := h t h1 (hwait t (by omega) (by omega))
      exact ⟨h3, h4.trans h2⟩
    · exact ⟨hreq, rfl⟩

/-! ## Outstanding requests -/

variable {α : Type*} {e : ℕ → Option α} {f : ℕ → Option β}

/-- The requests `e` of the cycles before `t` that `f` has not answered by then. -/
def outstanding (e : ℕ → Option α) (f : ℕ → Option β) (t : ℕ) : ℕ :=
  (log e t).length - (log f t).length

theorem length_log_succ (t : ℕ) :
    (log e (t + 1)).length = (log e t).length + (e t).toList.length := by
  rw [log_succ, List.length_append]

/-- **At most one request is outstanding iff none is made while another one stays so.** -/
theorem outstanding_le_one_iff :
    (∀ t, outstanding e f t ≤ 1) ↔ ∀ t, outstanding e f t ≠ 0 → f t = none → e t = none := by
  unfold outstanding
  constructor
  · intro h t hne hf
    have hnext := h (t + 1)
    rw [length_log_succ, length_log_succ, hf] at hnext
    cases he : e t with
    | none => rfl
    | some a =>
      rw [he] at hnext
      simp only [Option.toList_some, Option.toList_none, List.length_singleton,
        List.length_nil] at hnext
      omega
  · intro h t
    induction t with
    | zero => simp
    | succ t ih =>
      have hstep := h t
      rw [length_log_succ, length_log_succ]
      cases he : e t with
      | none =>
        simp only [Option.toList_none, List.length_nil]
        omega
      | some a =>
        cases hf : f t with
        | none =>
          rw [he, hf] at hstep
          simp only [ne_eq, forall_const, reduceCtorEq, imp_false, Decidable.not_not] at hstep
          simp only [Option.toList_some, Option.toList_none, List.length_singleton, List.length_nil]
          omega
        | some b =>
          simp only [Option.toList_some, List.length_singleton]
          omega

end Clocked.Handshake

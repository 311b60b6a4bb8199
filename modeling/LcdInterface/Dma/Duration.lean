import LcdInterface.Dma.Transfer

/-!
# How long a transfer takes

A transfer that is requested in cycle `b` reads until it finds its word (`Finds`), and then writes
it until it is not made to wait any more (`Ends`). Both are conditions on the master port's inputs.

* `over_iff`: it is over in cycle `t` iff the two add up to `t`, whatever happens on the slave port.
* `at_least_three`: it takes three cycles or more.
-/

namespace LcdInterface.Dma

open Clocked

variable {d : Signals} {i : ℕ → Inputs} {b t : ℕ}

/-- Cycle `t` is the first idle one after cycle `b`. -/
structure Over (d : Signals) (i : ℕ → Inputs) (b t : ℕ) : Prop where
  idle : state d i t = .stateIdle
  lt : b < t
  busy : ∀ u, b ≤ u → u < t → state d i u ≠ .stateIdle

theorem waited_eq (d : Signals) (t : ℕ) : waited i t = (cycle d i t).masterWaitReqS :=
  (masterWaitReqS_eq t).symm

/-- A write goes on until the machine is idle. -/
theorem Over.tx {u v : ℕ} (h : Over d i b t) (hbu : b ≤ u) (htx : state d i u = .stateTx)
    (huv : u ≤ v) (hvt : v < t) : state d i v = .stateTx := by
  induction v with
  | zero =>
    obtain rfl : u = 0 := by omega
    exact htx
  | succ v ih =>
    rcases Nat.lt_or_eq_of_le huv with hlt | rfl
    · have hne := h.busy (v + 1) (by omega) hvt
      rw [state_tx (ih (by omega) (by omega))] at hne ⊢
      split_ifs at hne ⊢
      · rfl
      · exact absurd rfl hne
    · exact htx

/-- The last cycle before is one of `StateTx`. -/
theorem Over.last (h : Over d i b (t + 1)) (hreq : state d i b = .stateRequestRx) :
    state d i t = .stateTx := by
  have hin : ∀ n, b + n ≤ t → InTransfer d i (b + n) := by
    intro n hn
    induction n with
    | zero => exact Or.inl hreq
    | succ n ih =>
      exact (ih (by omega)).succ.resolve_right (h.busy _ (by omega) (by omega))
  obtain ⟨n, rfl⟩ := Nat.exists_eq_add_of_le (Nat.le_of_lt_succ h.lt)
  have hidle := h.idle
  rcases hin n (Nat.le_refl _) with hq | hq | hq
  · rw [state_requestRx hq] at hidle
    split_ifs at hidle
  · rw [state_rx hq] at hidle
    split_ifs at hidle
  · exact hq

/-- The word and the end of a transfer that is over. -/
theorem Over.finds (h : Over d i b t) (hreq : state d i b = .stateRequestRx) :
    ∃ n m, t = b + n + 1 + m + 1 ∧ Finds i b n ∧ Ends i (b + n + 1) m := by
  obtain ⟨v, rfl⟩ : ∃ v, t = v + 1 := ⟨t - 1, by have := h.lt; omega⟩
  have hlast := h.last hreq
  obtain ⟨q, hq⟩ := exists_fetched hlast
  have hqv := hq.lt
  -- the word is one of this transfer
  have hbq : b ≤ q + 1 := by
    by_contra hlt
    have htx := hq.tx b (by omega) (Nat.le_of_lt_succ h.lt)
    rw [hreq] at htx
    cases htx
  obtain ⟨n, hn⟩ := Nat.exists_eq_add_of_le hbq
  obtain ⟨m, rfl⟩ := Nat.exists_eq_add_of_le (show q + 2 ≤ v from hqv)
  have hcarried : carried d i (b + n) ≠ none := by
    rw [← hn, carried_ne_none, masterReadDataValidS_eq]
    exact ⟨hq.rx, hq.valid⟩
  have hno : ∀ k, k < n → carried d i (b + k) = none := by
    intro k hk
    by_contra hc
    obtain ⟨hrx, hv⟩ := carried_ne_none.mp hc
    have htx : state d i (b + k + 1) = .stateTx := by
      rw [state_rx hrx, if_pos hv]
    have hstay := h.tx (by omega) htx (v := q + 1) (by omega) (by omega)
    rw [hq.rx] at hstay
    cases hstay
  refine ⟨n, m, by omega, finds_of_carried hreq hcarried hno, ?_, fun k hk => ?_⟩
  · have hidle := h.idle
    rw [show b + n + 1 + m = q + 2 + m by omega, waited_eq d]
    rw [state_tx hlast] at hidle
    split_ifs at hidle with hw
    simpa using hw
  · have htx := hq.tx (q + 2 + k) (by omega) (by omega)
    have hnext := hq.tx (q + 2 + k + 1) (by omega) (by omega)
    rw [show b + n + 1 + k = q + 2 + k by omega, waited_eq d]
    exact (state_tx_iff htx).mp hnext

theorem over_of_finds (hreq : state d i b = .stateRequestRx) {n m : ℕ} (hf : Finds i b n)
    (he : Ends i (b + n + 1) m) : Over d i b (b + n + 1 + m + 1) := by
  have htx : state d i (b + n + 1) = .stateTx := by
    obtain ⟨hrx, hv⟩ := carried_ne_none.mp (hf.carried_ne_none hreq)
    rw [state_rx hrx, if_pos hv]
  refine ⟨he.idle htx, by omega, fun u hbu hut => ?_⟩
  by_cases hread : u ≤ b + n
  · obtain ⟨k, rfl⟩ := Nat.exists_eq_add_of_le hbu
    rw [state_read hreq fun m hm => hf.first m (by omega)]
    split_ifs
    · simp
    · simp
  · obtain ⟨k, rfl⟩ := Nat.exists_eq_add_of_le (show b + n + 1 ≤ u by omega)
    rw [state_write htx fun m hm => he.held m (by omega)]
    simp

/-- **When a transfer is over**, in terms of the bus. -/
theorem over_iff (hreq : state d i b = .stateRequestRx) (t : ℕ) :
    Over d i b t ↔ ∃ n m, t = b + n + 1 + m + 1 ∧ Finds i b n ∧ Ends i (b + n + 1) m := by
  refine ⟨fun h => h.finds hreq, ?_⟩
  rintro ⟨n, m, rfl, hf, he⟩
  exact over_of_finds hreq hf he

/-- A slave that makes every read wait for one cycle and then returns the word: requested in cycle
`5`, found in cycle `6`, written in cycle `7`. -/
theorem answered_over :
    Over fresh (transfer (fun t => decide (t % 4 = 0)) fun t => decide (t % 4 = 1)) 5 8 := by
  refine (over_iff (by decide) 8).mpr ⟨1, 0, rfl, ⟨by decide, by decide, by decide⟩, by decide, ?_⟩
  exact fun k hk => absurd hk (Nat.not_lt_zero k)

/-- The first cycle does not sample. -/
theorem at_least_three (hreq : state d i b = .stateRequestRx) (h : Over d i b t) : b + 3 ≤ t := by
  obtain ⟨n, m, rfl, hf, -⟩ := h.finds hreq
  have hn : n ≠ 0 := by
    rintro rfl
    have hs := hf.sampled
    cases hs
  omega

end LcdInterface.Dma

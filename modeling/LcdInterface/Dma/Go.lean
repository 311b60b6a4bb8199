import LcdInterface.Dma.Transfer
import Mathlib.Data.Nat.Find

/-!
# `RegCtrlGo`

The control register keeps what the CPU loads into it. `StateIdle` looks at `RegCtrlGo` whenever it
captures no access, so one load starts one transfer after the other.

* `one_transfer_each_start`: each start makes at most one transfer, `StateIdle` starts the next one
  at once, and whether there is a second one is up to the bus. `two_transfers` is a run with two.
-/

namespace LcdInterface.Dma

open Clocked Clocked.Handshake

section Runs

variable (d : Signals) (i : ℕ → Inputs)

/-- `RegCtrl` is loaded once, in cycle `c` and with `RegCtrlGo`, and no access follows. -/
structure OneGo (c : ℕ) : Prop where
  load : ∃ v, captured d i c = some (regCtrlAddr, v) ∧ v &&& regCtrlGo ≠ 0
  before : ∀ t, t < c → ∀ w, captured d i t = some w → w.1 ≠ regCtrlAddr
  after : ∀ t, c < t → captured d i t = none

variable {d i} {c : ℕ}

/-! ## The control register -/

theorem ctrl_eq {t : ℕ} (h : state d i t ≠ .stateEvalData) :
    (cycle d i t).regCtrlPresD = lastWrite 0 (log (captured d i) t) regCtrlAddr := by
  rw [← evaluated_at (by decide), evaluated_of_ne h]
  rfl

theorem OneGo.lastWrite_before (h : OneGo d i c) {t : ℕ} (ht : t ≤ c) :
    lastWrite 0 (log (captured d i) t) regCtrlAddr = 0 := by
  induction t with
  | zero => rfl
  | succ t ih =>
    cases hc : captured d i t with
    | none => rw [log_succ_none hc, ih (by omega)]
    | some w => rw [log_succ_some hc, lastWrite_concat, if_neg (h.before t ht w hc), ih (by omega)]

/-- After the load the machine does not evaluate anything any more. -/
theorem OneGo.ne_evalData (h : OneGo d i c) {t : ℕ} (ht : c + 1 < t) :
    state d i t ≠ .stateEvalData := by
  obtain ⟨u, rfl⟩ : ∃ u, t = u + 1 := ⟨t - 1, by omega⟩
  intro hq
  have hnone := h.after u (by omega)
  rw [captured_eq_some.mpr ⟨idle_of_edge (live_cycle u) hq, rfl⟩] at hnone
  simp at hnone

/-- **`RegCtrlGo` is never withdrawn.** -/
theorem OneGo.ctrl (h : OneGo d i c) :
    ∃ v, v &&& regCtrlGo ≠ 0 ∧ ∀ t, c + 1 < t → (cycle d i t).regCtrlPresD = v := by
  obtain ⟨v, hv, hgo⟩ := h.load
  refine ⟨v, hgo, fun t ht => ?_⟩
  obtain ⟨n, rfl⟩ : ∃ n, t = c + 1 + n := ⟨t - (c + 1), by omega⟩
  rw [ctrl_eq (h.ne_evalData ht), log_add_none fun u _ => h.after _ (by omega), log_succ_some hv,
    lastWrite_concat, if_pos rfl]

theorem OneGo.readEdgeD (h : OneGo d i c) {t : ℕ} (ht : c < t) (hq : state d i t = .stateIdle) :
    (cycle d i t).readEdgeD = false := by
  by_contra he
  have hnone := h.after t ht
  rw [captured_eq_some.mpr ⟨⟨hq, by simpa using he⟩, rfl⟩] at hnone
  simp at hnone

/-- **From then on `StateIdle` starts a transfer at once.** -/
theorem OneGo.restart (h : OneGo d i c) {t : ℕ} (ht : c + 1 < t) (hq : state d i t = .stateIdle) :
    state d i (t + 1) = .stateRequestRx := by
  obtain ⟨v, hgo, hctrl⟩ := h.ctrl
  have hnext := (edge_idle_none (x := i t) hq (h.readEdgeD (by omega) hq)).1
  rw [hctrl t ht, if_pos hgo] at hnext
  exact hnext

/-- The first transfer is requested in cycle `c + 3`. -/
theorem OneGo.first (h : OneGo d i c) : state d i (c + 3) = .stateRequestRx := by
  obtain ⟨v, hv, -⟩ := h.load
  obtain ⟨⟨hq, he⟩, -⟩ := captured_eq_some.mp hv
  have h1 : state d i (c + 1) = .stateEvalData := (edge_idle_some (x := i c) hq he).1
  have h2 : state d i (c + 2) = .stateIdle := (edge_evalData (x := i (c + 1)) h1).1
  exact h.restart (by omega) h2

/-- Nothing is carried before. -/
theorem OneGo.lt_of_carried (h : OneGo d i c) {t : ℕ} (ht : carried d i t ≠ none) : c + 3 ≤ t := by
  have hrx := (carried_ne_none.mp ht).1
  obtain ⟨a, ha⟩ := InTransfer.exists_start (Or.inr (Or.inl hrx))
  have hca : c < a := by
    by_contra hle
    -- at the start `RegCtrl` is what was loaded before cycle `a`
    have hctrl := ctrl_eq (d := d) (i := i) (t := a) (by rw [ha.idle]; simp)
    rw [h.lastWrite_before (by omega)] at hctrl
    have hs := ha.started
    cases he : (cycle d i a).readEdgeD with
    | true =>
      have hq : state d i (a + 1) = .stateEvalData := (edge_idle_some (x := i a) ha.idle he).1
      rw [hq] at hs
      simp at hs
    | false =>
      have hq : state d i (a + 1) = _ := (edge_idle_none (x := i a) ha.idle he).1
      rw [hctrl] at hq
      rw [hq] at hs
      simp at hs
  have hne : t ≠ a + 1 := by
    rintro rfl
    rw [ha.started] at hrx
    simp at hrx
  have hlt := ha.lt
  omega

/-! ## How many transfers -/

/-- The first word is carried when the first transfer finds it. -/
theorem OneGo.finds_first (h : OneGo d i c) {t : ℕ} (ht : carried d i t ≠ none)
    (hfirst : ∀ u, u < t → carried d i u = none) : ∃ n, t = c + 3 + n ∧ Finds i (c + 3) n := by
  obtain ⟨n, rfl⟩ := Nat.exists_eq_add_of_le (h.lt_of_carried ht)
  exact ⟨n, rfl, finds_of_carried h.first ht fun m hm => hfirst _ (by omega)⟩

/-- The next one is carried when the write is over and the next transfer finds it. -/
theorem OneGo.finds_next (h : OneGo d i c) {t u : ℕ} (ht : carried d i t ≠ none) (htu : t < u)
    (hu : carried d i u ≠ none) (hnext : ∀ v, t < v → v < u → carried d i v = none) :
    ∃ m n, u = t + 1 + m + 2 + n ∧ Ends i (t + 1) m ∧ Finds i (t + 1 + m + 2) n := by
  have hct := h.lt_of_carried ht
  have htx : state d i (t + 1) = .stateTx := by
    obtain ⟨hrx, hv⟩ := carried_ne_none.mp ht
    rw [state_rx hrx, if_pos hv]
  have hrx := (carried_ne_none.mp hu).1
  -- the machine has left `StateTx` in between
  obtain ⟨m, hlow, hmu⟩ : ∃ m, waited i (t + 1 + m) = false ∧ t + 1 + m < u := by
    by_contra hno
    have hheld : ∀ m, m < u - (t + 1) → waited i (t + 1 + m) = true := by
      intro m hm
      by_contra hw
      exact hno ⟨m, by simpa using hw, by omega⟩
    have hstay := state_write htx hheld
    rw [show t + 1 + (u - (t + 1)) = u by omega, hrx] at hstay
    simp at hstay
  have hex : ∃ m, waited i (t + 1 + m) = false := ⟨m, hlow⟩
  obtain ⟨m, hm, hmu⟩ : ∃ m, Ends i (t + 1) m ∧ t + 1 + m < u := by
    have hmin := Nat.find_min' hex hlow
    refine ⟨Nat.find hex, ⟨Nat.find_spec hex, fun k hk => ?_⟩, by omega⟩
    simpa using Nat.find_min hex hk
  have hidle := hm.idle htx
  have hreq := h.restart (by omega) hidle
  have hne1 : u ≠ t + 1 + m + 1 := by
    rintro rfl
    rw [hidle] at hrx
    simp at hrx
  obtain ⟨n, rfl⟩ : ∃ n, u = t + 1 + m + 2 + n := ⟨u - (t + 1 + m + 2), by omega⟩
  exact ⟨m, n, rfl, hm, finds_of_carried hreq hu fun k hk => hnext _ (by omega) (by omega)⟩

/-- **There is one transfer at most iff** the one that follows the first finds no word. -/
theorem OneGo.once_iff (h : OneGo d i c) :
    (∀ t, (log (carried d i) t).length ≤ 1) ↔
      ∀ n m, Finds i (c + 3) n → Ends i (c + 3 + n + 1) m →
        ∀ k, ¬ Finds i (c + 3 + n + 1 + m + 2) k := by
  rw [length_log_le_one_iff]
  constructor
  · intro honce n m hn hm k hk
    have hcarried := hn.carried_ne_none h.first
    obtain ⟨hrx, hv⟩ := carried_ne_none.mp hcarried
    have htx : state d i (c + 3 + n + 1) = .stateTx := by
      rw [state_rx hrx, if_pos hv]
    have hreq := h.restart (by omega) (hm.idle htx)
    exact hk.carried_ne_none hreq (honce _ _ (by omega) hcarried)
  · intro hnone u v huv hu
    by_contra hv
    -- the first word and the next one after it
    rcases first_event (carried d i) (u + 1) with hno | ⟨t, a, htu, ha, hfirst⟩
    · exact hu (hno u (Nat.lt_succ_self u))
    have ht : carried d i t ≠ none := by simp [ha]
    rcases first_event (fun x => carried d i (t + 1 + x)) (v - t) with hno | ⟨x, b, hx, hb, hnext⟩
    · refine hv ?_
      have hlast := hno (v - (t + 1)) (by omega)
      rwa [show t + 1 + (v - (t + 1)) = v by omega] at hlast
    have hw : carried d i (t + 1 + x) ≠ none := by simp [hb]
    obtain ⟨n, rfl, hn⟩ := h.finds_first ht hfirst
    obtain ⟨m, k, -, hm, hk⟩ := h.finds_next ht (by omega) hw fun y hy hyx => by
      have hno := hnext (y - (c + 3 + n + 1)) (by omega)
      rwa [show c + 3 + n + 1 + (y - (c + 3 + n + 1)) = y by omega] at hno
    exact hnone n m hn hm k hk

variable (d i c)

/-- What one load of `RegCtrlGo` does. -/
structure OneTransferEachStart : Prop where
  /-- Up to cycle `t` there were as many transfers as starts, or one less while a read waits. -/
  each : ∀ t, (log (starts d i) t).length = (log (carried d i) t).length +
    if state d i t = .stateRequestRx ∨ state d i t = .stateRx then 1 else 0
  /-- `RegCtrl` keeps `RegCtrlGo` … -/
  kept : ∃ v, v &&& regCtrlGo ≠ 0 ∧ ∀ t, c + 1 < t → (cycle d i t).regCtrlPresD = v
  /-- … so `StateIdle` is left after one cycle. -/
  restart : ∀ t, c + 1 < t → state d i t = .stateIdle → state d i (t + 1) = .stateRequestRx
  /-- There is one transfer at most iff the bus does not answer the second one. -/
  once : (∀ t, (log (carried d i) t).length ≤ 1) ↔
    ∀ n m, Finds i (c + 3) n → Ends i (c + 3 + n + 1) m →
      ∀ k, ¬ Finds i (c + 3 + n + 1 + m + 2) k

variable {d i c}

/-- **One transfer for each start**, and one start after the other. -/
theorem one_transfer_each_start (h : OneGo d i c) : OneTransferEachStart d i c :=
  ⟨length_starts, h.ctrl, fun _ ht hq => h.restart ht hq, h.once_iff⟩

end Runs

/-! ## A run -/

theorem oneGo_transfer (wait valid : ℕ → Bool) : OneGo fresh (transfer wait valid) 2 := by
  have hlater : ∀ t, 0 < t → captured fresh (transfer wait valid) (t + 2) = none := by
    intro t ht
    refine Option.eq_none_iff_forall_ne_some.mpr fun w hw => ?_
    have hread := (captured_succ_eq_some.mp hw).1.2
    unfold transfer at hread
    rw [if_neg (by omega)] at hread
    simp [quietPort] at hread
  have hidle : state fresh (transfer wait valid) 2 = .stateIdle := by
    have h1 : state fresh (transfer wait valid) 1 = .stateIdle := rfl
    have hctrl : (cycle fresh (transfer wait valid) 1).regCtrlPresD = 0 := rfl
    have hnext := (edge_idle_none (x := transfer wait valid 1) h1 rfl).1
    rw [hctrl] at hnext
    exact hnext
  have hload : captured fresh (transfer wait valid) 2 = some (regCtrlAddr, regCtrlGo) :=
    captured_succ_eq_some.mpr ⟨⟨hidle, rfl⟩, rfl⟩
  refine ⟨⟨regCtrlGo, hload, by decide⟩, fun t ht w hw => ?_, fun t ht => ?_⟩
  · have hnone : captured fresh (transfer wait valid) t = none := by
      obtain rfl | rfl : t = 0 ∨ t = 1 := by omega
      · rfl
      · rfl
    rw [hnone] at hw
    simp at hw
  · obtain ⟨n, rfl⟩ : ∃ n, t = n + 2 := ⟨t - 2, by omega⟩
    exact hlater n (by omega)

/-- A slave that accepts a read in one of seven cycles, and answers it two cycles later. -/
def answeringSlave : ℕ → Inputs :=
  transfer (fun t => decide (t % 7 = 6 ∨ t % 7 ≤ 1)) fun t => decide (t % 7 = 0)

theorem answering_slave_starts : OneTransferEachStart fresh answeringSlave 2 :=
  one_transfer_each_start (oneGo_transfer _ _)

/-! ### The slave answers every read once -/

theorem masterWait_answeringSlave {t : ℕ} (h : 0 < t) :
    masterWait answeringSlave t = decide (t % 7 = 6 ∨ t % 7 ≤ 1) := by
  unfold masterWait answeringSlave transfer
  rw [if_neg (by omega)]

theorem returned_answeringSlave {t : ℕ} (h : 0 < t) :
    returned answeringSlave t = if t % 7 = 0 then some 0x1234#16 else none := by
  have hne : t ≠ 0 := by omega
  simp only [returned, answeringSlave, transfer, if_neg hne, decide_eq_true_eq]

theorem answered_answeringSlave {t : ℕ} (h : 0 < t) :
    answered answeringSlave (t + 1) = decide (t % 7 = 0) := by
  unfold answered answeringSlave transfer
  rw [delay_succ, if_neg (by omega)]

theorem waited_answeringSlave {t : ℕ} (h : 0 < t) :
    waited answeringSlave (t + 1) = decide (t % 7 = 6 ∨ t % 7 ≤ 1) :=
  masterWait_answeringSlave h

/-- A transfer that is requested in the cycle of an acceptance finds its word three cycles later … -/
theorem finds_answeringSlave (n : ℕ) : Finds answeringSlave (5 + 7 * n) 3 := by
  have h0 : waited answeringSlave (4 + 7 * n + 1) = _ := waited_answeringSlave (by omega)
  have h1 : waited answeringSlave (5 + 7 * n + 1) = _ := waited_answeringSlave (by omega)
  have h2 : waited answeringSlave (6 + 7 * n + 1) = _ := waited_answeringSlave (by omega)
  rw [decide_eq_false (by omega)] at h0 h1
  rw [decide_eq_true (by omega)] at h2
  have hs1 : samples answeringSlave (5 + 7 * n) 1 = false := by
    rw [samples, show 5 + 7 * n + 0 = 4 + 7 * n + 1 by omega, h0]
    rfl
  have hs2 : samples answeringSlave (5 + 7 * n) 2 = false := by
    rw [samples, h1]
    rfl
  refine ⟨?_, ?_, fun m hm hs => ?_⟩
  · rw [samples, show 5 + 7 * n + 2 = 6 + 7 * n + 1 by omega, h2, hs2]
    rfl
  · rw [show 5 + 7 * n + 3 = 7 + 7 * n + 1 by omega, answered_answeringSlave (by omega),
      decide_eq_true (by omega)]
  · obtain rfl | rfl | rfl : m = 0 ∨ m = 1 ∨ m = 2 := by omega
    · cases hs
    · rw [hs1] at hs
      cases hs
    · rw [hs2] at hs
      cases hs

/-- … and its write is over after two cycles, … -/
theorem ends_answeringSlave (n : ℕ) : Ends answeringSlave (5 + 7 * n + 4) 1 := by
  refine ⟨?_, fun m hm => ?_⟩
  · rw [waited_answeringSlave (by omega), decide_eq_false (by omega)]
  · obtain rfl : m = 0 := by omega
    rw [show 5 + 7 * n + 4 + 0 = 8 + 7 * n + 1 by omega, waited_answeringSlave (by omega),
      decide_eq_true (by omega)]

theorem state_write_answeringSlave {n : ℕ}
    (h : state fresh answeringSlave (5 + 7 * n) = .stateRequestRx) :
    state fresh answeringSlave (5 + 7 * n + 4) = .stateTx := by
  obtain ⟨hrx, hv⟩ := carried_ne_none.mp ((finds_answeringSlave n).carried_ne_none h)
  rw [show 5 + 7 * n + 4 = 5 + 7 * n + 3 + 1 by omega, state_rx hrx, if_pos hv]

/-- … so the next transfer is requested in the cycle of the next acceptance. -/
theorem state_answeringSlave (n : ℕ) :
    state fresh answeringSlave (5 + 7 * n) = .stateRequestRx := by
  induction n with
  | zero => exact (oneGo_transfer _ _).first
  | succ n ih =>
    have hidle := (ends_answeringSlave n).idle (state_write_answeringSlave ih)
    have hlate : 2 + 1 < 5 + 7 * n + 4 + 1 + 1 := by omega
    exact (oneGo_transfer _ _).restart hlate hidle

/-- One read is accepted in each period, … -/
theorem acceptedRead_answeringSlave (n : ℕ) :
    acceptedRead fresh answeringSlave (5 + 7 * n) ≠ none ∧
      ∀ k, k < 6 → acceptedRead fresh answeringSlave (5 + 7 * n + 1 + k) = none := by
  have htx := state_write_answeringSlave (state_answeringSlave n)
  have hread : ∀ k, 2 < k → k < 6 → masterRead fresh answeringSlave (5 + 7 * n + 1 + k) = false := by
    intro k h2 h6
    rw [← Bool.not_eq_true, masterRead_iff]
    obtain rfl | rfl | rfl : k = 3 ∨ k = 4 ∨ k = 5 := by omega
    · rw [show 5 + 7 * n + 1 + 3 = 5 + 7 * n + 4 by omega, htx]
      simp
    · have hnext : state fresh answeringSlave (5 + 7 * n + 4 + 1) = .stateTx :=
        state_write htx (ends_answeringSlave n).held
      rw [show 5 + 7 * n + 1 + 4 = 5 + 7 * n + 4 + 1 by omega, hnext]
      simp
    · have hidle := (ends_answeringSlave n).idle htx
      rw [show 5 + 7 * n + 1 + 5 = 5 + 7 * n + 4 + 1 + 1 by omega, hidle]
      simp
  refine ⟨?_, fun k hk => ?_⟩
  · rw [acceptedRead, Ne, accepted_eq_none]
    intro h
    have hw := h ((masterRead_iff _).mpr (Or.inl (state_answeringSlave n)))
    rw [masterWait_answeringSlave (by omega), decide_eq_false (by omega)] at hw
    cases hw
  · rcases Nat.lt_or_ge 2 k with h2 | h2
    · rw [acceptedRead, accepted_eq_none, hread k h2 hk]
      exact fun h => absurd h Bool.false_ne_true
    · refine accepted_of_wait ?_
      rw [masterWait_answeringSlave (by omega), decide_eq_true (by omega)]

theorem length_acceptedRead (n : ℕ) :
    (log (acceptedRead fresh answeringSlave) (5 + 7 * n)).length = n ∧
      (log (acceptedRead fresh answeringSlave) (5 + 7 * n + 1)).length = n + 1 := by
  have hone : ∀ n, (log (acceptedRead fresh answeringSlave) (5 + 7 * n + 1)).length =
      (log (acceptedRead fresh answeringSlave) (5 + 7 * n)).length + 1 := by
    intro n
    obtain ⟨a, ha⟩ := Option.ne_none_iff_exists'.mp (acceptedRead_answeringSlave n).1
    rw [log_succ_some ha, List.length_append, List.length_singleton]
  have hstart : (log (acceptedRead fresh answeringSlave) (5 + 7 * n)).length = n := by
    induction n with
    | zero => decide
    | succ n ih =>
      have hrest := log_add_none (acceptedRead_answeringSlave n).2
      rw [show 5 + 7 * (n + 1) = 5 + 7 * n + 1 + 6 by omega, hrest, hone, ih]
  exact ⟨hstart, by rw [hone, hstart]⟩

/-- … and one word returned, two cycles later. -/
theorem length_returned (n : ℕ) :
    (log (returned answeringSlave) (6 + 7 * n)).length = n ∧
      (log (returned answeringSlave) (7 + 7 * n)).length = n := by
  have hnone : ∀ n k, k < 6 → returned answeringSlave (8 + 7 * n + k) = none := by
    intro n k hk
    rw [returned_answeringSlave (by omega), if_neg (by omega)]
  have hsix : ∀ n, returned answeringSlave (6 + 7 * n) = none := by
    intro n
    rw [returned_answeringSlave (by omega), if_neg (by omega)]
  have hstart : (log (returned answeringSlave) (6 + 7 * n)).length = n := by
    induction n with
    | zero => decide
    | succ n ih =>
      have hsome : returned answeringSlave (7 + 7 * n) = some 0x1234#16 := by
        rw [returned_answeringSlave (by omega), if_pos (by omega)]
      have hrest := log_add_none (m := 8 + 7 * n) (n := 5) fun k hk => hnone n k (by omega)
      rw [show 6 + 7 * (n + 1) = 8 + 7 * n + 5 by omega, hrest,
        show 8 + 7 * n = 7 + 7 * n + 1 by omega, log_succ_some hsome,
        show 7 + 7 * n = 6 + 7 * n + 1 by omega, log_succ_none (hsix n), List.length_append, ih,
        List.length_singleton]
  refine ⟨hstart, ?_⟩
  rw [show 7 + 7 * n = 6 + 7 * n + 1 by omega, log_succ_none (hsix n), hstart]

theorem answers_answeringSlave : Answers fresh answeringSlave := by
  refine ⟨fun t => ?_, fun t => ⟨6 + 7 * t, ?_⟩⟩
  · by_cases h5 : t < 5
    · have hmono := length_log_mono (e := returned answeringSlave) (show t + 1 ≤ 6 by omega)
      have hnone := (length_returned 0).1
      rw [Nat.mul_zero, Nat.add_zero] at hnone
      omega
    · obtain ⟨n, k, hk, rfl⟩ : ∃ n k, k < 7 ∧ t = 5 + 7 * n + k :=
        ⟨(t - 5) / 7, (t - 5) % 7, Nat.mod_lt _ (by omega), by omega⟩
      rcases Nat.lt_or_ge k 2 with h2 | h2
      · -- the word has not come yet
        have hret := length_log_mono (e := returned answeringSlave)
          (show 5 + 7 * n + k + 1 ≤ 7 + 7 * n by omega)
        have hacc := length_log_mono (e := acceptedRead fresh answeringSlave)
          (show 5 + 7 * n ≤ 5 + 7 * n + k by omega)
        rw [(length_returned n).2] at hret
        rw [(length_acceptedRead n).1] at hacc
        omega
      · have hret := length_log_mono (e := returned answeringSlave)
          (show 5 + 7 * n + k + 1 ≤ 6 + 7 * (n + 1) by omega)
        have hacc := length_log_mono (e := acceptedRead fresh answeringSlave)
          (show 5 + 7 * n + 1 ≤ 5 + 7 * n + k by omega)
        rw [(length_returned (n + 1)).1] at hret
        rw [(length_acceptedRead n).2] at hacc
        omega
  · have hacc := length_log_mono (e := acceptedRead fresh answeringSlave)
      (show t ≤ 5 + 7 * t by omega)
    rw [(length_acceptedRead t).1] at hacc
    rw [(length_returned t).1]
    exact hacc

/-- **One load of `RegCtrlGo`, no access after it, and two transfers**, with a slave that answers
each read once. -/
theorem two_transfers :
    OneGo fresh answeringSlave 2 ∧
      (∀ t, 0 < t → (answeringSlave t).readSi = false ∧ (answeringSlave t).writeSi = false) ∧
      Answers fresh answeringSlave ∧ (log (carried fresh answeringSlave) 16).length = 2 := by
  refine ⟨oneGo_transfer _ _, fun t ht => ?_, answers_answeringSlave, by decide⟩
  unfold answeringSlave transfer
  rw [if_neg (by omega)]
  exact ⟨rfl, rfl⟩

end LcdInterface.Dma

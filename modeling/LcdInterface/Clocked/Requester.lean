import LcdInterface.Clocked.Handshake
import LcdInterface.Clocked.Server

/-!
# A master with a list of requests

The agenda of a master lists the requests it has still to make, in order, each with the cycles it
rests before it. A request that has to wait is held.

* `holds`: the master obeys the wait-request handshake, whatever the slave answers.
* `log_requested_sublist`: under any wait signal the requests come in the order of the agenda, and
  none of them comes twice.
* `loop`: the master and a slave that is a clocked machine, each fed by the other.
* `log_taken`: what a single-slot server takes of an agenda when nothing has to wait. A request that
  comes too early is lost (`thin`), and `thin_eq_iff` says when none is.
-/

namespace Clocked.Requester

open Server Handshake

variable {α ι σ : Type*}

/-- The request of this cycle. -/
def present : List (ℕ × α) → Option α
  | (0, a) :: _ => some a
  | _ => none

/-- The agenda of the next cycle, under this cycle's wait signal. -/
def advance : List (ℕ × α) → Bool → List (ℕ × α)
  | [], _ => []
  | (0, a) :: rest, wait => if wait then (0, a) :: rest else rest
  | (g + 1, a) :: rest, _ => (g, a) :: rest

/-- The cycles an agenda takes when no request has to wait. -/
def span (l : List (ℕ × α)) : ℕ := (l.map fun x => x.1 + 1).sum

theorem span_cons (x : ℕ × α) (l : List (ℕ × α)) : span (x :: l) = x.1 + 1 + span l := rfl

/-! ## Under any wait signal -/

section Wait

variable {wait : ℕ → Bool} {l rest : List (ℕ × α)} {a : α} {g : ℕ}

/-- The rest before a request. -/
theorem run_le {n : ℕ} (h : n ≤ g) :
    run advance ((g, a) :: rest) wait n = (g - n, a) :: rest := by
  induction n with
  | zero => rfl
  | succ n ih =>
    obtain ⟨k, hk⟩ : ∃ k, g - n = k + 1 := ⟨g - n - 1, by omega⟩
    rw [run_succ, ih (by omega), hk, show g - (n + 1) = k by omega]
    rfl

theorem run_gap : run advance ((g, a) :: rest) wait g = (0, a) :: rest := by
  rw [run_le (Nat.le_refl g), Nat.sub_self]

/-- A request that has to wait is held … -/
theorem run_held {k : ℕ} (h : ∀ n, n < k → wait (g + n) = true) :
    run advance ((g, a) :: rest) wait (g + k) = (0, a) :: rest := by
  induction k with
  | zero => exact run_gap
  | succ k ih =>
    rw [← Nat.add_assoc, run_succ, ih fun n hn => h n (by omega), h k (by omega)]
    rfl

/-- … until it is accepted. -/
theorem run_accepted {k : ℕ} (h : ∀ n, n < k → wait (g + n) = true) (hk : wait (g + k) = false) :
    run advance ((g, a) :: rest) wait (g + k + 1) = rest := by
  rw [run_succ, run_held h, hk]
  rfl

theorem advance_wait {m : List (ℕ × α)} (h : (present m).isSome = true) : advance m true = m := by
  match m with
  | [] => rfl
  | (0, a) :: rest => rfl
  | (g + 1, a) :: rest => cases h

/-- **The master obeys the handshake.** -/
theorem holds : Holds (fun t => (present (run advance l wait t)).isSome) wait
    (fun t => present (run advance l wait t)) := by
  intro t hreq hwait
  have hsame : run advance l wait (t + 1) = run advance l wait t := by
    rw [run_succ, hwait, advance_wait hreq]
  simp only [hsame, and_true]
  exact hreq

end Wait

/-- The first cycle of each request. `last` says that there was one in the cycle before the run. -/
def requested (wait : ℕ → Bool) (last : Bool) (l : List (ℕ × α)) (n : ℕ) : Option α :=
  if delay last (fun n => (present (run advance l wait n)).isSome) n then none
  else present (run advance l wait n)

/-- What can still have a first cycle: a request that goes on has had its own. -/
def unasked (last : Bool) (l : List (ℕ × α)) : List (ℕ × α) :=
  if last && (present l).isSome then l.tail else l

section Requested

variable {wait : ℕ → Bool} {last : Bool} {l rest : List (ℕ × α)} {a : α}

theorem requested_succ (n : ℕ) : requested wait last l (1 + n) =
    requested (fun t => wait (1 + t)) (present l).isSome (advance l (wait 0)) n := by
  have hrun : ∀ m, run advance l wait (1 + m) =
      run advance (advance l (wait 0)) (fun t => wait (1 + t)) m := fun m => run_add 1 m
  unfold requested
  cases n with
  | zero =>
    rw [hrun]
    rfl
  | succ n =>
    rw [← Nat.add_assoc, delay_succ, delay_succ, Nat.add_assoc, hrun, hrun]

theorem unasked_sublist : (unasked last l).Sublist l := by
  unfold unasked
  split
  · exact List.tail_sublist l
  · exact List.Sublist.refl l

/-- After its first cycle a request is held or is through. -/
theorem unasked_advance (wait : Bool) :
    (unasked true (advance ((0, a) :: rest) wait)).Sublist rest := by
  cases wait with
  | true => exact List.Sublist.refl rest
  | false => exact unasked_sublist

/-- **The requests come in the order of the agenda**, whatever the wait signal. -/
theorem log_requested_sublist (n : ℕ) :
    (log (requested wait last l) n).Sublist ((unasked last l).map Prod.snd) := by
  induction n generalizing wait last l with
  | zero => exact List.nil_sublist _
  | succ n ih =>
    have hlog : log (requested wait last l) (n + 1) = (requested wait last l 0).toList ++
        log (requested (fun t => wait (1 + t)) (present l).isSome (advance l (wait 0))) n := by
      rw [Nat.add_comm, log_add]
      simp only [requested_succ]
      rfl
    rw [hlog]
    match l with
    | [] =>
      have h : (log (requested (fun t => wait (1 + t)) false ([] : List (ℕ × α))) n).Sublist [] := ih
      cases last with
      | true => exact h
      | false => exact h
    | (0, a) :: rest =>
      have h : (log (requested (fun t => wait (1 + t)) true (advance ((0, a) :: rest) (wait 0)))
          n).Sublist (rest.map Prod.snd) :=
        ih.trans ((unasked_advance (wait 0)).map Prod.snd)
      cases last with
      | true => exact h
      | false => exact h.cons_cons a
    | (g + 1, a) :: rest =>
      have h : (log (requested (fun t => wait (1 + t)) false ((g, a) :: rest)) n).Sublist
          (((g, a) :: rest).map Prod.snd) := ih
      cases last with
      | true => exact h
      | false => exact h

end Requested

/-! ## A master and a slave -/

section Loop

variable (step : σ → ι → σ) (wait : σ → Bool) (port : Option α → ι) (s : σ) (l : List (ℕ × α))

/-- Slave and agenda in cycle `t`. -/
def loop : ℕ → σ × List (ℕ × α)
  | 0 => (s, l)
  | t + 1 => (step (loop t).1 (port (present (loop t).2)), advance (loop t).2 (wait (loop t).1))

/-- What the master puts on the slave's port. -/
def inputs (t : ℕ) : ι := port (present (loop step wait port s l t).2)

theorem loop_fst (t : ℕ) :
    (loop step wait port s l t).1 = run step s (inputs step wait port s l) t := by
  induction t with
  | zero => rfl
  | succ t ih =>
    rw [run_succ, ← ih]
    rfl

theorem loop_snd (t : ℕ) : (loop step wait port s l t).2 =
    run advance l (fun t => wait (loop step wait port s l t).1) t := by
  induction t with
  | zero => rfl
  | succ t ih =>
    rw [run_succ, ← ih]
    rfl

end Loop

/-! ## Without waits -/

/-- The agenda after `n` cycles without waits. -/
def unhindered (l : List (ℕ × α)) (n : ℕ) : List (ℕ × α) := run advance l (fun _ => false) n

/-- The first cycle of each request, when the cycle before the agenda had a request too. -/
def edges (l : List (ℕ × α)) (n : ℕ) : Option α := requested (fun _ => false) true l n

section Unhindered

variable {l rest : List (ℕ × α)} {a : α} {g : ℕ}

theorem unhindered_add (n : ℕ) : unhindered ((g, a) :: rest) (g + 1 + n) = unhindered rest n := by
  unfold unhindered
  rw [run_add]
  congr 1
  exact run_accepted (k := 0) (fun n hn => absurd hn (Nat.not_lt_zero n)) rfl

theorem unhindered_nil (n : ℕ) : unhindered ([] : List (ℕ × α)) n = [] := by
  induction n with
  | zero => rfl
  | succ n ih =>
    rw [unhindered, run_succ]
    rw [unhindered] at ih
    rw [ih]
    rfl

/-- The agenda is done after `span l` cycles. -/
theorem unhindered_span (l : List (ℕ × α)) (k : ℕ) : unhindered l (span l + k) = [] := by
  induction l with
  | nil => exact unhindered_nil _
  | cons x rest ih =>
    obtain ⟨g, a⟩ := x
    rw [span_cons, Nat.add_assoc, unhindered_add, ih]

theorem present_lt {n : ℕ} (h : n < g) : present (unhindered ((g, a) :: rest) n) = none := by
  obtain ⟨k, hk⟩ : ∃ k, g - n = k + 1 := ⟨g - n - 1, by omega⟩
  rw [unhindered, run_le (Nat.le_of_lt h), hk]
  rfl

theorem present_gap : present (unhindered ((g, a) :: rest) g) = some a := by
  rw [unhindered, run_gap]
  rfl

theorem edges_eq (l : List (ℕ × α)) (n : ℕ) :
    edges l n = if delay true (fun n => (present (unhindered l n)).isSome) n then none
      else present (unhindered l n) := rfl

theorem edges_nil (n : ℕ) : edges ([] : List (ℕ × α)) n = none := by
  rw [edges_eq, unhindered_nil]
  split <;> rfl

theorem edges_lt {n : ℕ} (h : n < g) : edges ((g, a) :: rest) n = none := by
  rw [edges_eq, present_lt h]
  split <;> rfl

/-- A request without a rest before it has no edge. -/
theorem edges_gap : edges ((g, a) :: rest) g = if g = 0 then none else some a := by
  rw [edges_eq]
  cases g with
  | zero => rfl
  | succ g =>
    rw [delay_succ, present_lt (Nat.lt_succ_self g), present_gap]
    rfl

theorem edges_add (n : ℕ) : edges ((g, a) :: rest) (g + 1 + n) = edges rest n := by
  rw [edges_eq, edges_eq, unhindered_add]
  cases n with
  | zero =>
    rw [Nat.add_zero, delay_succ, present_gap]
    rfl
  | succ n => rw [← Nat.add_assoc, delay_succ, delay_succ, unhindered_add]

end Unhindered

/-! ## The requests a server takes -/

/-- What is left of an agenda when a request is taken only after a rest, and not before the server
is through with the last one it took, which needs `b` more cycles; `a` keeps it for `d a` cycles. -/
def thin (d : α → ℕ) : ℕ → List (ℕ × α) → List α
  | _, [] => []
  | b, (g, a) :: rest =>
    if 0 < g ∧ b ≤ g then a :: thin d (d a - 1) rest else thin d (b - (g + 1)) rest

/-- Every request comes after a rest, and when the server is through with the one before it. -/
def Spaced (d : α → ℕ) : ℕ → List (ℕ × α) → Prop
  | _, [] => True
  | b, (g, a) :: rest => (0 < g ∧ b ≤ g) ∧ Spaced d (d a - 1) rest

theorem thin_sublist (d : α → ℕ) (b : ℕ) (l : List (ℕ × α)) :
    (thin d b l).Sublist (l.map Prod.snd) := by
  induction l generalizing b with
  | nil => exact List.Sublist.refl []
  | cons x rest ih =>
    obtain ⟨g, a⟩ := x
    rw [thin, List.map_cons]
    split
    · exact (ih _).cons_cons a
    · exact (ih _).cons a

/-- **No request is lost iff they are spaced.** -/
theorem thin_eq_iff (d : α → ℕ) (b : ℕ) (l : List (ℕ × α)) :
    thin d b l = l.map Prod.snd ↔ Spaced d b l := by
  induction l generalizing b with
  | nil => exact iff_of_true rfl trivial
  | cons x rest ih =>
    obtain ⟨g, a⟩ := x
    by_cases h : 0 < g ∧ b ≤ g
    · rw [thin, if_pos h, List.map_cons, List.cons.injEq, ih, Spaced]
      exact ⟨fun hr => ⟨h, hr.2⟩, fun hs => ⟨rfl, hs.2⟩⟩
    · refine iff_of_false (fun he => ?_) fun hs => h hs.1
      -- the head is lost, and the rest is too short to make up for it
      have hlen := congrArg List.length he
      have hle := (thin_sublist d (b - (g + 1)) rest).length_le
      rw [thin, if_neg h, List.map_cons, List.length_cons] at hlen
      omega

section Map

variable {β : Type*} (f : β → α) (d : α → ℕ)

theorem span_map (l : List (ℕ × β)) : span (l.map (Prod.map id f)) = span l := by
  unfold span
  rw [List.map_map]
  rfl

theorem thin_map (b : ℕ) (l : List (ℕ × β)) :
    thin d b (l.map (Prod.map id f)) = (thin (fun x => d (f x)) b l).map f := by
  induction l generalizing b with
  | nil => rfl
  | cons x rest ih =>
    obtain ⟨g, a⟩ := x
    simp only [List.map_cons, Prod.map_apply, id_eq, thin]
    split
    · rw [ih, List.map_cons]
    · rw [ih]

end Map

/-- Long rests space any requests. -/
theorem spaced_of_le {d : α → ℕ} {m : ℕ} (hm : 0 < m) (hd : ∀ a, d a ≤ m + 1) {b : ℕ} (hb : b ≤ m)
    {l : List (ℕ × α)} (h : ∀ x ∈ l, m ≤ x.1) : Spaced d b l := by
  induction l generalizing b with
  | nil => trivial
  | cons x rest ih =>
    obtain ⟨g, a⟩ := x
    have hg : m ≤ g := h (g, a) List.mem_cons_self
    have ha := hd a
    exact ⟨⟨by omega, by omega⟩, ih (by omega) fun y hy => h y (List.mem_cons_of_mem _ hy)⟩

section Server

variable {J : Type*} {dur : J → ℕ∞} {down : ℕ} {o : ℕ → Option J} {c b : ℕ}

/-- From cycle `c` on the server is busy for `b` cycles, and then idle. -/
structure FreeIn (dur : J → ℕ∞) (down : ℕ) (o : ℕ → Option J) (c b : ℕ) : Prop where
  busy : ∀ n, n < b → phase dur down o (c + n) ≠ .idle
  idle : phase dur down o (c + b) = .idle

/-- The server after it took a job. -/
theorem FreeIn.of_taken {t : ℕ} {j : J} {d : ℕ} (h : taken dur down o t = some j)
    (hd : dur j = d) (h1 : 1 < d) : FreeIn dur down o (t + 1) (d - 1) := by
  refine ⟨fun n hn => ?_, ?_⟩
  · have hlt : ((1 + n : ℕ) : ℕ∞) < dur j := by
      rw [hd]
      exact_mod_cast show 1 + n < d by omega
    rw [Nat.add_assoc, busy_of_taken h (by omega) hlt]
    simp
  · rw [show t + 1 + (d - 1) = t + d by omega]
    exact idle_after h hd h1

/-- … and `n` cycles later, if nothing was offered once it was idle. -/
theorem FreeIn.add {n : ℕ} (h : FreeIn dur down o c b)
    (ho : ∀ m, m < n → b ≤ m → o (c + m) = none) : FreeIn dur down o (c + n) (b - n) := by
  refine ⟨fun m hm => ?_, ?_⟩
  · rw [Nat.add_assoc]
    exact h.busy _ (by omega)
  · have hidle := idle_add (n := n - b) h.idle fun m hm => by
      rw [Nat.add_assoc]
      exact ho _ (by omega) (by omega)
    rwa [show c + b + (n - b) = c + n + (b - n) by omega] at hidle

/-- **What the server takes of an agenda** whose requests it is offered by their edges. -/
theorem log_taken {f : α → J} {d : α → ℕ} (hd : ∀ a, dur (f a) = d a) (h1 : ∀ a, 1 < d a)
    {l : List (ℕ × α)} (ho : ∀ n, o (c + n) = (edges l n).map f) (hfree : FreeIn dur down o c b)
    (k : ℕ) :
    log (fun n => taken dur down o (c + n)) (span l + k) = (thin d b l).map f := by
  induction l generalizing c b with
  | nil =>
    refine log_eq_nil fun n _ => taken_of_none ?_
    rw [ho, edges_nil]
    rfl
  | cons x rest ih =>
    obtain ⟨g, a⟩ := x
    have hrest : ∀ n, o (c + (g + 1) + n) = (edges rest n).map f := by
      intro n
      rw [Nat.add_assoc, ho, edges_add]
    have hnone : ∀ n, n < g → o (c + n) = none := by
      intro n hn
      rw [ho, edges_lt hn]
      rfl
    have hbefore : log (fun n => taken dur down o (c + n)) g = [] :=
      log_eq_nil fun n hn => taken_of_none (hnone n hn)
    have hsplit : log (fun n => taken dur down o (c + n)) (span ((g, a) :: rest) + k) =
        (taken dur down o (c + g)).toList ++
          log (fun n => taken dur down o (c + (g + 1) + n)) (span rest + k) := by
      rw [span_cons, Nat.add_assoc, log_add, log_succ, hbefore, List.nil_append]
      simp only [Nat.add_assoc]
    rw [hsplit, thin]
    by_cases h : 0 < g ∧ b ≤ g
    · -- the server is idle when the request comes
      have hidle := (hfree.add (n := g) fun m hm _ => hnone m hm).idle
      rw [Nat.sub_eq_zero_of_le h.2, Nat.add_zero] at hidle
      have htake : taken dur down o (c + g) = some (f a) := by
        rw [taken_eq_some, ho, edges_gap, if_neg (by omega)]
        exact ⟨hidle, rfl⟩
      rw [if_pos h, htake, ih hrest (FreeIn.of_taken htake (hd a) (h1 a))]
      rfl
    · -- it is busy, or the request has no edge
      have hlost : taken dur down o (c + g) = none := by
        by_cases hg : 0 < g
        · exact taken_of_not_idle (hfree.busy g (by omega))
        · refine taken_of_none ?_
          rw [ho, edges_gap, if_pos (by omega)]
          rfl
      have hfree' : FreeIn dur down o (c + (g + 1)) (b - (g + 1)) := by
        refine hfree.add fun m hm hbm => ?_
        rcases Nat.lt_succ_iff_lt_or_eq.mp hm with hlt | rfl
        · exact hnone m hlt
        · rw [ho, edges_gap, if_pos (by omega)]
          rfl
      rw [if_neg h, hlost, ih hrest hfree']
      rfl

end Server

end Clocked.Requester

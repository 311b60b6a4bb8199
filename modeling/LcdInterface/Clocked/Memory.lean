import Mathlib.Logic.Function.Basic

/-!
# A memory behind a pipelined bus

The memory takes the request of a cycle unless it makes it wait, and returns the words of the reads
it has taken in order, each in a later cycle. When it waits and when it may return a word is not
fixed: both are arguments of `step`.

* `step_write`, `step_wait`, `step_other`, `mem_owed_step`: what one cycle does to the contents and
  to the words owed.
* `copy_copy`, `copy_source`: a word copied once more is the same word.
-/

namespace Clocked

variable {α β : Type*}

/-- A request on the bus. -/
inductive Request (α β : Type*) where
  | read (a : α)
  | write (a : α) (b : β)

/-- The contents, and the words read that are not returned yet. -/
structure Memory (α β : Type*) where
  cells : α → β
  owed : List β

namespace Memory

/-- The word returned in a cycle in which the memory may return one. -/
def returns (m : Memory α β) (may : Bool) : Option β := if may then m.owed.head? else none

variable [DecidableEq α]

/-- The request is taken. -/
def accept (m : Memory α β) : Option (Request α β) → Memory α β
  | none => m
  | some (.read a) => { m with owed := m.owed ++ [m.cells a] }
  | some (.write a b) => { m with cells := Function.update m.cells a b }

/-- One cycle. -/
def step (m : Memory α β) (r : Option (Request α β)) (wait may : Bool) : Memory α β :=
  let m' := { m with owed := if may then m.owed.tail else m.owed }
  if wait then m' else m'.accept r

variable {m : Memory α β} {r : Option (Request α β)} {wait may : Bool} {w : β}

omit [DecidableEq α] in
theorem mem_of_returns (h : m.returns may = some w) : w ∈ m.owed := by
  unfold returns at h
  split at h
  · exact List.mem_of_head? h
  · cases h

theorem step_write {a : α} {b : β} (m : Memory α β) (may : Bool) :
    (m.step (some (.write a b)) false may).cells = Function.update m.cells a b := rfl

/-- A request that has to wait changes nothing. -/
theorem step_wait (m : Memory α β) (r : Option (Request α β)) (may : Bool) :
    (m.step r true may).cells = m.cells := rfl

/-- Nor does anything but a write. -/
theorem step_other (h : ∀ a b, r ≠ some (.write a b)) : (m.step r wait may).cells = m.cells := by
  cases wait with
  | true => rfl
  | false =>
    match r with
    | none => rfl
    | some (.read a) => rfl
    | some (.write a b) => exact absurd rfl (h a b)

/-- **A word owed was owed before, or is what a read has found.** -/
theorem mem_owed_step (h : w ∈ (m.step r wait may).owed) :
    w ∈ m.owed ∨ ∃ a, r = some (.read a) ∧ w = m.cells a := by
  have hpop : ∀ v, v ∈ (if may then m.owed.tail else m.owed) → v ∈ m.owed := by
    intro v hv
    split at hv
    · exact List.mem_of_mem_tail hv
    · exact hv
  unfold step at h
  cases wait with
  | true => exact Or.inl (hpop w h)
  | false =>
    cases r with
    | none => exact Or.inl (hpop w h)
    | some q =>
      cases q with
      | write a b => exact Or.inl (hpop w h)
      | read a =>
        rcases List.mem_append.mp h with hold | hnew
        · exact Or.inl (hpop w hold)
        · exact Or.inr ⟨a, rfl, List.mem_singleton.mp hnew⟩

end Memory

/-! ## Copying -/

section Copy

variable [DecidableEq α]

/-- The word at `p.1` is copied to `p.2`. -/
def copy (cells : α → β) (p : α × α) : α → β := Function.update cells p.2 (cells p.1)

/-- A list of copies, one after the other. -/
def copies (cells : α → β) (l : List (α × α)) : α → β := l.foldl copy cells

variable {cells : α → β} {p : α × α} {l : List (α × α)}

theorem copies_concat : copies cells (l ++ [p]) = copy (copies cells l) p := List.foldl_append ..

/-- Copying does not change the word copied, … -/
theorem copy_source : copy cells p p.1 = cells p.1 := by
  unfold copy
  by_cases h : p.1 = p.2
  · rw [h, Function.update_self]
  · rw [Function.update_of_ne h]

/-- … so once more makes no difference. -/
theorem copy_copy : copy (copy cells p) p = copy cells p := by
  funext a
  rw [copy, copy_source]
  by_cases h : a = p.2
  · rw [h, Function.update_self, copy, Function.update_self]
  · rw [Function.update_of_ne h]

end Copy

end Clocked

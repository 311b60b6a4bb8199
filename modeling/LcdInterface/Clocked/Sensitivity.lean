import LcdInterface.Clocked.Run

/-!
# Sensitivity lists

A design of clocked registers and one process that computes from them. The process keeps what it
does not assign, so it maps its old outputs to its new ones. Hardware computes it in every cycle
(`always`); a simulator runs it only when a signal of its sensitivity list has an event, and keeps
its outputs otherwise (`onEvent`).

* `agree_iff`: both run alike iff, in every cycle of the hardware without an event, the process
  would change none of its outputs.
-/

namespace Clocked

/-- Registers `ρ` under inputs `ι`, and a process with outputs `ω`. -/
structure Process (ρ ω ι κ : Type*) where
  /-- The registers after an edge. -/
  clock : ρ → ω → ι → ρ
  /-- The process, from the registers and its own last outputs. -/
  logic : ρ → ω → ω
  /-- The signals of the sensitivity list. -/
  listed : ρ → κ

namespace Process

variable {ρ ω ι κ : Type*} [DecidableEq κ] (p : Process ρ ω ι κ)

/-- The process runs after every edge. -/
def always (x : ρ × ω) (i : ι) : ρ × ω :=
  (p.clock x.1 x.2 i, p.logic (p.clock x.1 x.2 i) x.2)

/-- The process runs after an edge that changes a listed signal. -/
def onEvent (x : ρ × ω) (i : ι) : ρ × ω :=
  (p.clock x.1 x.2 i,
    if p.listed (p.clock x.1 x.2 i) ≠ p.listed x.1 then p.logic (p.clock x.1 x.2 i) x.2 else x.2)

variable {p} {x : ρ × ω} {i : ℕ → ι}

theorem onEvent_eq_always {i : ι} :
    p.onEvent x i = p.always x i ↔
      (p.listed (p.always x i).1 = p.listed x.1 → p.logic (p.always x i).1 x.2 = x.2) := by
  unfold onEvent always
  rw [Prod.mk.injEq, eq_self, true_and]
  by_cases h : p.listed (p.clock x.1 x.2 i) = p.listed x.1
  · rw [if_neg (not_not.mpr h)]
    exact ⟨fun hx _ => hx.symm, fun hx => (hx h).symm⟩
  · rw [if_pos h]
    exact iff_of_true rfl fun hx => absurd hx h

/-- **The simulation agrees with the hardware iff** no output changes without an event. -/
theorem agree_iff :
    (∀ t, run p.onEvent x i t = run p.always x i t) ↔
      ∀ t, p.listed (run p.always x i (t + 1)).1 = p.listed (run p.always x i t).1 →
        p.logic (run p.always x i (t + 1)).1 (run p.always x i t).2 =
          (run p.always x i t).2 := by
  constructor
  · intro h t
    have hnext := h (t + 1)
    rw [run_succ, h t, run_succ] at hnext
    exact onEvent_eq_always.mp hnext
  · intro h t
    induction t with
    | zero => rfl
    | succ t ih =>
      rw [run_succ, ih, run_succ]
      exact onEvent_eq_always.mpr (h t)

end Process

end Clocked

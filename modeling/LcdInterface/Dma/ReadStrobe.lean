import LcdInterface.Dma.Edge

/-!
# The read strobe of the DMA

`edgeDetect` is commented as detecting the positive edges of `Write_SI` and `Read_SI`, and
`Write_Last_D` is updated in every cycle; `Read_Last_D` is not, so `Read_Edge_D` is `'1'` for as
long as `Read_SI` was.

* `one_capture_iff`: there is one pulse for each read iff every read lasts one cycle.
* `visits_once_iff`: a read is evaluated at most once iff, whenever `StateIdle` finds it, it is over
  within two cycles. `held_read` is a read of three cycles.
-/

namespace LcdInterface.Dma

open Clocked

section Runs

variable (d : Signals) (i : ℕ → Inputs)

/-- `Read_SI`. -/
def read (t : ℕ) : Bool := (i t).readSi

/-- `t` and `t'` are in one block of cycles with `Read_SI = '1'`. -/
def SameRead (t t' : ℕ) : Prop := ∀ u, t ≤ u → u ≤ t' → read i u = true

/-- What `edgeDetect` promises the state machine. -/
structure OneCapture : Prop where
  /-- `Read_Edge_D` is the rising edge of `Read_SI`, two cycles late. -/
  edge : ∀ t, (cycle d i t).readEdgeD = delay false (delay false (rises (read i))) t
  /-- The block of cycle `t` is seen in cycle `t + 2` and evaluated in cycle `t + 3`. -/
  visit : ∀ t t', t ≤ t' → SameRead i t t' →
    state d i (t + 3) = .stateEvalData → state d i (t' + 3) = .stateEvalData → t = t'

variable {d i}

theorem evalData_iff {t : ℕ} :
    state d i (t + 3) = .stateEvalData ↔ state d i (t + 2) = .stateIdle ∧ read i t = true := by
  have he : (cycle d i (t + 2)).readEdgeD = read i t := readEdgeD_succ t
  rw [← he]
  constructor
  · intro h
    exact idle_of_edge (live_cycle (t + 2)) h
  · rintro ⟨hq, hr⟩
    exact (edge_idle_some (x := i (t + 2)) hq hr).1

/-- **A block is evaluated again iff** it lasts for two more cycles. -/
theorem visits_once_iff :
    (∀ t t', t ≤ t' → SameRead i t t' → state d i (t + 3) = .stateEvalData →
      state d i (t' + 3) = .stateEvalData → t = t') ↔
      ∀ t, state d i (t + 3) = .stateEvalData → ¬ SameRead i t (t + 2) := by
  constructor
  · intro h t ht hsame
    -- `StateIdle` follows and sees the strobe again
    have hidle : state d i (t + 4) = .stateIdle := (edge_evalData (x := i (t + 3)) ht).1
    have hagain : state d i (t + 2 + 3) = .stateEvalData :=
      evalData_iff.mpr ⟨hidle, hsame (t + 2) (by omega) (by omega)⟩
    have := h t (t + 2) (by omega) hsame ht hagain
    omega
  · intro h t t' hle hsame ht ht'
    by_contra hne
    refine h t ht fun u hu hu' => ?_
    have hnext : t' ≠ t + 1 := by
      rintro rfl
      have hq := (evalData_iff.mp ht').1
      rw [show t + 1 + 2 = t + 3 by omega, ht] at hq
      simp at hq
    exact hsame u hu (by omega)

/-- **One capture for each read strobe iff every read lasts one cycle.** -/
theorem one_capture_iff (d : Signals) (i : ℕ → Inputs) :
    OneCapture d i ↔ ∀ t, ¬ (read i t = true ∧ read i (t + 1) = true) := by
  have hlevel : ∀ t, (cycle d i t).readEdgeD = delay false (delay false (read i)) t :=
    readEdgeD_eq
  constructor
  · rintro ⟨hedge, -⟩ t ⟨h0, h1⟩
    have hpulse := hedge (t + 3)
    rw [hlevel] at hpulse
    simp only [delay_succ, rises_succ_of_high h0, h1] at hpulse
    simp at hpulse
  · intro h
    refine ⟨fun t => ?_, visits_once_iff.mpr fun t _ hsame => ?_⟩
    · rw [hlevel]
      rcases t with _ | _ | _ | t
      · rfl
      · rfl
      · simp [rises]
      · have ht := h t
        simp only [delay_succ, rises]
        cases h0 : read i t <;> cases h1 : read i (t + 1) <;> simp_all
    · exact h t ⟨hsame t (by omega) (by omega), hsame (t + 1) (by omega) (by omega)⟩

end Runs

/-- A read of three cycles, from cycle `2`. -/
def heldRead (t : ℕ) : Inputs :=
  if 2 ≤ t ∧ t ≤ 4 then { quietPort with readSi := true } else quietPort

/-- **It is evaluated twice.** -/
theorem held_read :
    SameRead heldRead 2 4 ∧ state fresh heldRead 5 = .stateEvalData ∧
      state fresh heldRead 7 = .stateEvalData ∧ ¬ OneCapture fresh heldRead := by
  have hsame : SameRead heldRead 2 4 := by
    intro u h1 h2
    simp [read, heldRead, h1, h2]
  have h5 : state fresh heldRead 5 = .stateEvalData := by decide
  have h7 : state fresh heldRead 7 = .stateEvalData := by decide
  refine ⟨hsame, h5, h7, fun h => ?_⟩
  have := h.visit 2 4 (by omega) hsame h5 h7
  omega

end LcdInterface.Dma

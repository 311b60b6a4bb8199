import Mathlib.Data.Nat.Notation

/-!
# `std_logic`

The nine values of `std_logic_1164`, its operators and its resolution function. Registers and driven
outputs that have a reset or an initial value are modelled by `Bool` and `BitVec`; `StdLogic` is for
signals that have neither, no driver, or more than one. A signal that is never assigned keeps `'U'`,
the leftmost value of its type.
-/

namespace LcdInterface

inductive StdLogic where
  /-- `'U'` -/
  | uninitialized
  /-- `'X'` -/
  | unknown
  /-- `'0'` -/
  | zero
  /-- `'1'` -/
  | one
  /-- `'Z'` -/
  | highImpedance
  /-- `'W'` -/
  | weakUnknown
  /-- `'L'` -/
  | weakZero
  /-- `'H'` -/
  | weakOne
  /-- `'-'` -/
  | dontCare
  deriving DecidableEq, Repr

/-- A driven bit. -/
def StdLogic.ofBool (b : Bool) : StdLogic := if b then .one else .zero

namespace StdLogic

/-! ## Operators -/

/-- `to_UX01`. -/
def toUx01 : StdLogic → StdLogic
  | uninitialized => uninitialized
  | zero | weakZero => zero
  | one | weakOne => one
  | _ => unknown

/-- `not_table`. -/
def not (a : StdLogic) : StdLogic :=
  match a.toUx01 with
  | zero => one
  | one => zero
  | b => b

/-- `and_table`. -/
def and (a b : StdLogic) : StdLogic :=
  match a.toUx01, b.toUx01 with
  | zero, _ => zero
  | _, zero => zero
  | uninitialized, _ => uninitialized
  | _, uninitialized => uninitialized
  | one, one => one
  | _, _ => unknown

/-- `or_table`. -/
def or (a b : StdLogic) : StdLogic :=
  match a.toUx01, b.toUx01 with
  | one, _ => one
  | _, one => one
  | uninitialized, _ => uninitialized
  | _, uninitialized => uninitialized
  | zero, zero => zero
  | _, _ => unknown

/-- `resolution_table`: the value of a signal with two drivers. -/
def resolved : StdLogic → StdLogic → StdLogic
  | uninitialized, _ => uninitialized
  | _, uninitialized => uninitialized
  | unknown, _ => unknown
  | _, unknown => unknown
  | dontCare, _ => unknown
  | _, dontCare => unknown
  | highImpedance, b => b
  | a, highImpedance => a
  | zero, one => unknown
  | one, zero => unknown
  | zero, _ => zero
  | _, zero => zero
  | one, _ => one
  | _, one => one
  | weakZero, weakZero => weakZero
  | weakOne, weakOne => weakOne
  | _, _ => weakUnknown

/-! ## One-bit registers -/

/-- A register without a reset, from the last bit loaded into it. -/
def ofLast : Option Bool → StdLogic
  | some b => ofBool b
  | none => uninitialized

theorem ofLast_or (o : Option Bool) (b : Bool) :
    (ofLast o).or (ofBool b) = ofLast (if b then some true else o) := by
  rcases o with _ | _ | _ <;> cases b <;> rfl

theorem ofLast_and_not (o : Option Bool) (b : Bool) :
    (ofLast o).and (ofBool b).not = ofLast (if b then some false else o) := by
  rcases o with _ | _ | _ <;> cases b <;> rfl

/-- `'0'` masks any register. -/
theorem and_zero (a : StdLogic) : a.and zero = zero := by
  cases a <;> rfl

theorem ofLast_and_one (o : Option Bool) : (ofLast o).and one = ofLast o := by
  rcases o with _ | _ | _ <;> rfl

/-- `e` does not change a signal driven to `a`: nothing but the same level is driven against it. -/
def Yields (e a : StdLogic) : Prop :=
  a = uninitialized ∨ e = a ∨ e = highImpedance ∨ e = weakUnknown ∨ e = weakZero ∨ e = weakOne

instance (e a : StdLogic) : Decidable (Yields e a) := inferInstanceAs (Decidable (_ ∨ _))

theorem resolved_ofLast_iff (o : Option Bool) (e : StdLogic) :
    resolved (ofLast o) e = ofLast o ↔ Yields e (ofLast o) := by
  rcases o with _ | _ | _ <;> cases e <;> decide

end StdLogic

end LcdInterface

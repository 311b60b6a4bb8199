import LcdInterface.ParPort.Model
import Mathlib.Data.List.Induction

/-!
# The port registers as independent bits

`writer` reads and writes `Port` as a whole word. Here each bit of it is a cell of its own that
remembers the last bus cycle that touches it.

* `touch`: what a bus cycle does to one bit of `Port`, and `dirWrite` to `Dir`.
* `register_law`: every bit is what the last cycle that touches it says, undefined if there is none.
  So cycles that touch disjoint sets of bits commute.
-/

namespace LcdInterface.ParPort

open StdLogic

/-- What `c` loads into bit `k` of `Port`. -/
def touch (k : Fin 8) (c : BusCycle) : Option Bool :=
  if c.writeSi = true ∧ c.addressDi = 0b010#3 then some (c.writeDataDi.getLsbD k)
  else if c.writeSi = true ∧ c.addressDi = 0b011#3 ∧ c.writeDataDi.getLsbD k = true then some true
  else if c.writeSi = true ∧ c.addressDi = 0b100#3 ∧ c.writeDataDi.getLsbD k = true then some false
  else none

/-- What `c` loads into `Dir`. -/
def dirWrite (c : BusCycle) : Option (BitVec 8) :=
  if c.writeSi = true ∧ c.addressDi = 0b000#3 then some c.writeDataDi else none

/-- No bit is touched by both. -/
structure Apart (c c' : BusCycle) : Prop where
  port : ∀ k, touch k c = none ∨ touch k c' = none
  dir : dirWrite c = none ∨ dirWrite c' = none

/-- The last bit loaded into bit `k` of `Port`. -/
def lastTouch (k : Fin 8) (cs : List BusCycle) : Option Bool := (cs.filterMap (touch k)).getLast?

/-- The last word loaded into `Dir`. -/
def lastDir (cs : List BusCycle) : Option (BitVec 8) := (cs.filterMap dirWrite).getLast?

/-- The laws of the registers, for every history. -/
structure RegisterLaw : Prop where
  /-- `Port` is eight cells. -/
  port : ∀ cs k, (regs cs).regPortD k = ofLast (lastTouch k cs)
  /-- `Dir` holds the last word written to address 0. -/
  dir : ∀ cs k, (regs cs).regDirD k = ofLast ((lastDir cs).map (·.getLsbD k))
  readDir : ∀ cs c, c.readSi = true → c.addressDi = 0b000#3 →
    readDataDo (regs cs) c = (regs cs).regDirD
  readPin : ∀ cs c, c.readSi = true → c.addressDi = 0b001#3 →
    readDataDo (regs cs) c = fun k => ((regs cs).regPortD k).and ((regs cs).regDirD k)
  readPort : ∀ cs c, c.readSi = true → c.addressDi = 0b010#3 →
    readDataDo (regs cs) c = (regs cs).regPortD
  comm : ∀ pre c c' post, Apart c c' →
    regs (pre ++ c :: c' :: post) = regs (pre ++ c' :: c :: post)

/-! ## One bus cycle -/

/-- One bit of `Port`, from the cell it was before. -/
theorem pRegWrite_port {r : Regs} {k : Fin 8} {o : Option Bool} (h : r.regPortD k = ofLast o)
    (c : BusCycle) : (pRegWrite r c).regPortD k = ofLast ((touch k c).or o) := by
  cases hw : c.writeSi with
  | false => simp [pRegWrite, touch, hw, h]
  | true =>
    simp only [pRegWrite, touch, hw, if_true, true_and]
    split
    · rename_i ha
      simp [ha, h]
    · rename_i ha
      simp [ha, ofBits, ofLast]
    · rename_i ha
      simp only [ha, h, ofBits, ofLast_or]
      split <;> simp_all
    · rename_i ha
      simp only [ha, h, ofBits, ofLast_and_not]
      split <;> simp_all
    · rename_i h0 h2 h3 h4
      rw [if_neg h2, if_neg fun hc => h3 hc.1, if_neg fun hc => h4 hc.1, h]
      rfl

theorem pRegWrite_dir {r : Regs} {k : Fin 8} {o : Option Bool} (h : r.regDirD k = ofLast o)
    (c : BusCycle) :
    (pRegWrite r c).regDirD k = ofLast (((dirWrite c).map (·.getLsbD k)).or o) := by
  cases hw : c.writeSi with
  | false => simp [pRegWrite, dirWrite, hw, h]
  | true =>
    simp only [pRegWrite, dirWrite, hw, if_true, true_and]
    split
    · rename_i ha
      simp [ha, ofBits, ofLast]
    · rename_i ha
      simp [ha, h]
    · rename_i ha
      simp [ha, h]
    · rename_i ha
      simp [ha, h]
    · rename_i h0 h2 h3 h4
      rw [if_neg h0, h]
      rfl

/-! ## The law -/

theorem getLast?_filterMap_concat {α β : Type*} (f : α → Option β) (l : List α) (a : α) :
    ((l ++ [a]).filterMap f).getLast? = (f a).or (l.filterMap f).getLast? := by
  rw [List.filterMap_append, List.filterMap_cons, List.filterMap_nil]
  cases f a with
  | none => simp
  | some b => simp

theorem port_eq (cs : List BusCycle) (k : Fin 8) :
    (regs cs).regPortD k = ofLast (lastTouch k cs) := by
  induction cs using List.reverseRecOn with
  | nil => rfl
  | append_singleton cs c ih =>
    rw [regs_concat, pRegWrite_port ih, lastTouch, lastTouch, getLast?_filterMap_concat]

theorem dir_eq (cs : List BusCycle) (k : Fin 8) :
    (regs cs).regDirD k = ofLast ((lastDir cs).map (·.getLsbD k)) := by
  induction cs using List.reverseRecOn with
  | nil => rfl
  | append_singleton cs c ih =>
    rw [regs_concat, pRegWrite_dir ih, lastDir, lastDir, getLast?_filterMap_concat]
    cases dirWrite c <;> rfl

/-- Two neighbours one of which is not there can change places. -/
theorem filterMap_swap {α β : Type*} {f : α → Option β} {a b : α} (h : f a = none ∨ f b = none)
    (pre post : List α) :
    (pre ++ a :: b :: post).filterMap f = (pre ++ b :: a :: post).filterMap f := by
  simp only [List.filterMap_append, List.filterMap_cons]
  rcases h with h | h
  · rw [h]
  · rw [h]

/-- **Bus cycles that touch disjoint sets of bits commute.** -/
theorem regs_comm {c c' : BusCycle} (h : Apart c c') (pre post : List BusCycle) :
    regs (pre ++ c :: c' :: post) = regs (pre ++ c' :: c :: post) := by
  have hport : (regs (pre ++ c :: c' :: post)).regPortD =
      (regs (pre ++ c' :: c :: post)).regPortD := by
    funext k
    rw [port_eq, port_eq, lastTouch, lastTouch, filterMap_swap (h.port k)]
  have hdir : (regs (pre ++ c :: c' :: post)).regDirD =
      (regs (pre ++ c' :: c :: post)).regDirD := by
    funext k
    rw [dir_eq, dir_eq, lastDir, lastDir, filterMap_swap h.dir]
  generalize regs (pre ++ c :: c' :: post) = r at hport hdir
  cases r
  simp_all

/-- **The registers are independent bits.** -/
theorem register_law : RegisterLaw := by
  refine ⟨port_eq, dir_eq, fun cs c hr ha => ?_, fun cs c hr ha => ?_, fun cs c hr ha => ?_,
    fun pre c c' post h => regs_comm h pre post⟩
  · simp [readDataDo, reader, hr, ha]
  · simp [readDataDo, reader, hr, ha]
    rfl
  · simp [readDataDo, reader, hr, ha]

end LcdInterface.ParPort

import LcdInterface.ParPort.Registers

/-!
# The pins of the parallel port

`ParPort_DIO` is an `inout` port of eight pins (`Bidir` in the component description), and the
software writes `Dir` to make pins outputs. But the port drives every pin: `Port and Dir`, so `'0'`
where `Dir` is `'0'`, and it never reads the pins. `RegPin_D` is what it drives.

* `pins_ok_iff`: the pins are what `Dir` says iff no pin is an input and nothing is driven against
  an output. `input_contended` is an input with an external `'1'`.
-/

namespace LcdInterface.ParPort

open StdLogic

/-- The level of pin `k` when `e` is driven on the pins from outside. -/
def pin (r : Regs) (e : Byte) (k : Fin 8) : StdLogic := resolved (parPortDio r k) (e k)

/-- A read of the pin register. -/
def readPins (r : Regs) : Byte := readDataDo r ⟨0b001#3, false, 0, true⟩

/-- What `Dir` promises of the pins, with `e` driven from outside. -/
structure PinsOk (r : Regs) (e : Byte) : Prop where
  /-- An input is left to the outside. -/
  input : ∀ k, r.regDirD k = .zero → parPortDio r k = .highImpedance ∧ pin r e k = e k
  output : ∀ k, r.regDirD k = .one → pin r e k = r.regPortD k
  readInput : ∀ k, r.regDirD k = .zero → readPins r k = e k
  readOutput : ∀ k, r.regDirD k = .one → readPins r k = r.regPortD k

variable {cs : List BusCycle} {e : Byte} {k : Fin 8}

theorem readPins_eq (r : Regs) : readPins r = regPinD r := rfl

/-- Where `Dir` is `'0'` the port drives `'0'`. -/
theorem parPortDio_input {r : Regs} (h : r.regDirD k = .zero) : parPortDio r k = .zero := by
  unfold parPortDio regPinD
  rw [h, and_zero]

theorem parPortDio_output (h : (regs cs).regDirD k = .one) :
    parPortDio (regs cs) k = (regs cs).regPortD k := by
  unfold parPortDio regPinD
  rw [h, port_eq, ofLast_and_one]

/-- An output carries its `Port` bit unless something is driven against it. -/
theorem pin_output_iff (h : (regs cs).regDirD k = .one) :
    pin (regs cs) e k = (regs cs).regPortD k ↔ Yields (e k) ((regs cs).regPortD k) := by
  rw [pin, parPortDio_output h, port_eq]
  exact resolved_ofLast_iff _ _

/-- **The pins are what `Dir` says iff** there is no input, and no output is driven from outside to
another level. -/
theorem pins_ok_iff (cs : List BusCycle) (e : Byte) :
    PinsOk (regs cs) e ↔ ∀ k, (regs cs).regDirD k ≠ .zero ∧
      ((regs cs).regDirD k = .one → Yields (e k) ((regs cs).regPortD k)) := by
  constructor
  · intro h k
    refine ⟨fun hdir => ?_, fun hdir => (pin_output_iff hdir).mp (h.output k hdir)⟩
    have hdriven := (h.input k hdir).1
    rw [parPortDio_input hdir] at hdriven
    simp at hdriven
  · intro h
    refine ⟨fun k hdir => absurd hdir (h k).1,
      fun k hdir => (pin_output_iff hdir).mpr ((h k).2 hdir),
      fun k hdir => absurd hdir (h k).1, fun k hdir => ?_⟩
    rw [readPins_eq]
    exact parPortDio_output hdir

/-- `Dir` is cleared, then `Port`. -/
def allInputs : List BusCycle := [⟨0b000#3, true, 0x00#8, false⟩, ⟨0b010#3, true, 0x00#8, false⟩]

/-- **An external `'1'` on an input meets a driven `'0'`, and is read as `'0'`.** -/
theorem input_contended :
    (regs allInputs).regDirD 0 = .zero ∧ pin (regs allInputs) (fun _ => .one) 0 = .unknown ∧
      readPins (regs allInputs) 0 = .zero ∧ ¬ PinsOk (regs allInputs) fun _ => .one := by
  refine ⟨by decide, by decide, by decide, fun h => ?_⟩
  have hpin := (h.input 0 (by decide)).2
  revert hpin
  decide

end LcdInterface.ParPort

import LcdInterface.StdLogic

/-!
# The parallel port (`parPort.vhdl`, `writer.vhdl`, `reader.vhdl`)

Eight pins behind an Avalon slave port. `writer` keeps two registers, `Dir` and `Port`, and has two
addresses that set and clear bits of `Port`; `reader` is a multiplexer. Neither has a reset
(`Reset_BRI` is not connected), so the registers are vectors of `StdLogic` and start as `'U'`. The
CPU's side of the slave port is driven, so a bus cycle is made of bits.

`RegDir_D` and `RegPort_D` have one driver each, so the `inout` port `RegPort_DIO` of `writer` reads
what the process assigned.
-/

namespace LcdInterface.ParPort

/-- `std_logic_vector (7 downto 0)`. -/
abbrev Byte := Fin 8 → StdLogic

def ofBits (v : BitVec 8) : Byte := fun k => .ofBool (v.getLsbD k)

/-- The slave port at one rising edge of `Clk_CI`. -/
structure BusCycle where
  addressDi : BitVec 3
  writeSi : Bool
  writeDataDi : BitVec 8
  readSi : Bool
  deriving DecidableEq, Repr

/-- The signals `writer` drives. -/
structure Regs where
  regDirD : Byte
  regPortD : Byte

/-- Process `pRegWrite` of `writer` at a rising edge. -/
def pRegWrite (r : Regs) (c : BusCycle) : Regs :=
  if c.writeSi then
    match c.addressDi with
    | 0b000#3 => { r with regDirD := ofBits c.writeDataDi }
    | 0b010#3 => { r with regPortD := ofBits c.writeDataDi }
    | 0b011#3 => { r with regPortD := fun k => (r.regPortD k).or (ofBits c.writeDataDi k) }
    | 0b100#3 => { r with regPortD := fun k => (r.regPortD k).and (ofBits c.writeDataDi k).not }
    | _ => r
  else r

/-- `ReadData_DO` of `reader`. -/
def reader (addressDi : BitVec 3) (readSi : Bool) (regDirDi regPortDi regPinDi : Byte) : Byte :=
  if addressDi = 0b000#3 ∧ readSi = true then regDirDi
  else if addressDi = 0b001#3 ∧ readSi = true then regPinDi
  else if addressDi = 0b010#3 ∧ readSi = true then regPortDi
  else fun _ => .zero

/-- `RegPin_D`. -/
def regPinD (r : Regs) : Byte := fun k => (r.regPortD k).and (r.regDirD k)

/-- What the port drives on `ParPort_DIO`. -/
def parPortDio (r : Regs) : Byte := regPinD r

/-- `ReadData_DO`. -/
def readDataDo (r : Regs) (c : BusCycle) : Byte :=
  reader c.addressDi c.readSi r.regDirD r.regPortD (regPinD r)

/-- Nothing has been assigned. -/
def powerUp : Regs := ⟨fun _ => .uninitialized, fun _ => .uninitialized⟩

/-- The registers after the bus cycles `cs`. -/
def regs (cs : List BusCycle) : Regs := cs.foldl pRegWrite powerUp

theorem regs_concat (cs : List BusCycle) (c : BusCycle) :
    regs (cs ++ [c]) = pRegWrite (regs cs) c := by
  unfold regs
  rw [List.foldl_append]
  rfl

end LcdInterface.ParPort

import LcdInterface.Slave
import Mathlib.Tactic.SplitIfs

/-!
# The LCD driver (`lcdDriver.vhdl`)

One definition per process of architecture `LCD`, over the signals that process drives.

* The clocked processes `syncData`, `edgeDetect` (`Slave.lean`), `burstStream`, `counters`,
  `regUpdate` and `nextState` give `Regs`: each takes the values before the edge.
* `logic` gives `Logic`, one definition per branch of its `case`. A branch writes into the old
  value (`{ l with … }`), so what it does not assign keeps its last value, and the variable
  `BitEnable_D` is one of the things kept. `logic` covers all eight states, so its `when others`
  has no case here.
* `Signals` is the architecture between two edges: registers and the outputs of `logic` that
  belong to them, which is the field `settled`. `edge` is one rising edge of `Clk_CI` with
  `Reset_NRI = '1'`, `reset` is `Reset_NRI = '0'`, `powerUp` the declared initial values. `reset`
  keeps `BitEnable_D` and `BurstStream_D`, which no reset branch assigns.

`BurstStream_D` is indexed by `ℕ`; it has no initial value, so it is a parameter of `powerUp`.
`Read_Edge_D`, `RegWriteData*`, `RegWriteCmd*` and most `_PP_` copies drive no output, but are kept
as the source has them. `ReadData_DO` and `ReadDataValid_SO` have no driver, `IM0_SO` is constant.
-/

namespace LcdInterface.LcdDriver

open Slave (Inputs SyncData EdgeDetect FrontEnd)

/-! ## Signals -/

/-- `State_T`. -/
inductive State where
  | stateReset
  | stateLcdReset
  | stateResetIntRegData
  | stateIdle
  | stateNextBurstItem
  | stateEvalData
  | statePrepareTx
  | stateTx
  deriving DecidableEq, Repr

/-- The signals `burstStream` drives. -/
structure BurstStream where
  burstStreamCountNextD : BitVec picsizeBin
  burstStreamD : ℕ → BitVec 16

/-- The signals `counters` drives. -/
structure Counters where
  burstCountPresD : BitVec picsizeBin
  idleCountPresD : BitVec 32
  burstStreamCountPresD : BitVec picsizeBin
  deriving DecidableEq, Repr

/-- The signals `regUpdate` drives. -/
structure RegUpdate where
  regAddressPresD : BitVec 16
  regRxDataPresD : BitVec 16
  regByteEnablePresD : BitVec 2
  regBeginBurstTransferPresS : Bool
  regBurstCountPresD : BitVec picsizeBin
  regDataPresD : BitVec 16
  regWriteDataPresD : BitVec 16
  regWriteCmdPresD : BitVec 16
  deriving DecidableEq, Repr

/-- Everything a clocked process drives. -/
structure Regs extends FrontEnd, BurstStream, Counters, RegUpdate where
  statePresD : State

/-- The signals `logic` drives, and its variable `BitEnable_D`. -/
structure Logic where
  waitReqSo : Bool
  dbDio : BitVec 16
  rdNso : Bool
  wrNso : Bool
  csNso : Bool
  dcNso : Bool
  lcdResetNro : Bool
  stateNextD : State
  idleCountNextD : BitVec 32
  burstCountNextD : BitVec picsizeBin
  regAddressNextD : BitVec 16
  regRxDataNextD : BitVec 16
  regByteEnableNextD : BitVec 2
  regBeginBurstTransferNextS : Bool
  regBurstCountNextD : BitVec picsizeBin
  regDataNextD : BitVec 16
  regWriteDataNextD : BitVec 16
  regWriteCmdNextD : BitVec 16
  bitEnableD : BitVec 16
  deriving DecidableEq, Repr

def regDataAddr : BitVec 16 := 0x0000#16
def regWriteDataAddr : BitVec 16 := 0x0002#16
def regWriteCmdAddr : BitVec 16 := 0x0004#16

/-! ## Process `logic` -/

/-- `Reg*Next_D <= (others => '0')` for all eight registers. -/
def Logic.clearRegs (l : Logic) : Logic :=
  { l with
    regAddressNextD := 0
    regRxDataNextD := 0
    regByteEnableNextD := 0
    regBeginBurstTransferNextS := false
    regBurstCountNextD := 0
    regDataNextD := 0
    regWriteDataNextD := 0
    regWriteCmdNextD := 0 }

/-- `Reg*Next_D <= Reg*Pres_D` for all eight registers. -/
def Logic.holdRegs (r : Regs) (l : Logic) : Logic :=
  { l with
    regAddressNextD := r.regAddressPresD
    regRxDataNextD := r.regRxDataPresD
    regByteEnableNextD := r.regByteEnablePresD
    regBeginBurstTransferNextS := r.regBeginBurstTransferPresS
    regBurstCountNextD := r.regBurstCountPresD
    regDataNextD := r.regDataPresD
    regWriteDataNextD := r.regWriteDataPresD
    regWriteCmdNextD := r.regWriteCmdPresD }

def logicReset (l : Logic) : Logic :=
  { l.clearRegs with
    waitReqSo := false
    stateNextD := .stateLcdReset
    idleCountNextD := 500000000#32
    burstCountNextD := 0
    dbDio := 0
    rdNso := true
    wrNso := true
    csNso := true
    dcNso := true
    lcdResetNro := true }

def logicLcdReset (r : Regs) (l : Logic) : Logic :=
  { l.clearRegs with
    dbDio := 0
    rdNso := true
    wrNso := true
    csNso := true
    dcNso := true
    lcdResetNro := false
    waitReqSo := true
    burstCountNextD := r.burstCountPresD
    idleCountNextD := if 0 < r.idleCountPresD.toNat then r.idleCountPresD - 1#32 else 0
    stateNextD := if 0 < r.idleCountPresD.toNat then .stateLcdReset else .stateResetIntRegData }

/-- Assigns no output of the entity, and no `RegData`, `RegWriteData` or `RegWriteCmd`. -/
def logicResetIntRegData (l : Logic) : Logic :=
  { l with
    burstCountNextD := 0
    idleCountNextD := 0
    regAddressNextD := BitVec.allOnes 16
    regBeginBurstTransferNextS := false
    regBurstCountNextD := 0
    regByteEnableNextD := 0
    regRxDataNextD := 0
    stateNextD := .stateIdle }

/-- Does not assign `WaitReq_SO`. -/
def logicIdle (r : Regs) (l : Logic) : Logic :=
  let l := { l.holdRegs r with
    idleCountNextD := 5#32
    burstCountNextD := 0
    dbDio := 0
    rdNso := true
    wrNso := false
    csNso := true
    dcNso := true
    lcdResetNro := true }
  if r.writeEdgeD then
    { l with
      regAddressNextD := r.addressPD
      regBeginBurstTransferNextS := r.beginBurstTransferPS
      regBurstCountNextD := r.burstCountPD
      regRxDataNextD := r.writeDataPD
      regByteEnableNextD := if r.beginBurstTransferPS then BitVec.allOnes 2 else r.byteEnablePD
      burstCountNextD := if r.beginBurstTransferPS then r.burstCountPD else 0
      stateNextD := .stateEvalData }
  else
    { l with stateNextD := .stateIdle }

def logicNextBurstItem (r : Regs) (l : Logic) : Logic :=
  let l := { l.holdRegs r with
    idleCountNextD := 2#32
    burstCountNextD := r.burstCountPresD
    dbDio := 0
    rdNso := true
    wrNso := false
    csNso := true
    dcNso := true
    lcdResetNro := true }
  if r.burstStreamCountPresD > r.burstCountPresD then
    { l with
      waitReqSo := true
      regDataNextD := r.burstStreamD r.burstCountPresD.toNat
      stateNextD := .stateEvalData }
  else
    { l with
      waitReqSo := false
      regDataNextD := 0
      stateNextD := .stateNextBurstItem }

def logicEvalData (r : Regs) (l : Logic) : Logic :=
  let l := { l.holdRegs r with
    idleCountNextD := 2#32
    burstCountNextD := r.burstCountPresD
    waitReqSo := false
    rdNso := true
    wrNso := true
    csNso := true
    lcdResetNro := true
    dcNso := false
    dbDio := 0 }
  if r.regAddressPresD = regWriteDataAddr then
    { l with regDataNextD := r.regRxDataPresD, stateNextD := .statePrepareTx }
  else if r.regAddressPresD = regWriteCmdAddr then
    { l with regDataNextD := r.regRxDataPresD, stateNextD := .statePrepareTx }
  else
    { l with stateNextD := .stateIdle }

/-- `DC_NSO` of `StatePrepareTx` and `StateTx`: the `case RegAddressPres_D` of both. -/
def dataCmd (address : BitVec 16) : Bool :=
  if address = regWriteDataAddr then true else if address = regWriteCmdAddr then false else true

/-- `BitEnable_D` as `StateTx` computes it. -/
def bitEnable : BitVec 2 → BitVec 16
  | 0b00#2 => 0
  | 0b01#2 => 0b0000000011111111#16
  | 0b10#2 => 0b1111111100000000#16
  | 0b11#2 => BitVec.allOnes 16
  | _ => 0

/-- Reads `BitEnable_D` without computing it. -/
def logicPrepareTx (r : Regs) (l : Logic) : Logic :=
  { l.holdRegs r with
    waitReqSo := false
    rdNso := true
    wrNso := false
    csNso := false
    lcdResetNro := true
    dbDio := r.regDataPresD &&& l.bitEnableD
    burstCountNextD := r.burstCountPresD
    dcNso := dataCmd r.regAddressPresD
    idleCountNextD := if 0 < r.idleCountPresD.toNat then r.idleCountPresD - 1#32 else 3#32
    stateNextD := if 0 < r.idleCountPresD.toNat then .statePrepareTx else .stateTx }

def logicTx (r : Regs) (l : Logic) : Logic :=
  let l := { l.holdRegs r with
    waitReqSo := false
    dcNso := dataCmd r.regAddressPresD
    bitEnableD := bitEnable r.regByteEnablePresD
    dbDio := r.regDataPresD &&& bitEnable r.regByteEnablePresD
    lcdResetNro := true
    rdNso := true
    csNso := false
    wrNso := true }
  if 0 < r.idleCountPresD.toNat then
    { l with
      idleCountNextD := r.idleCountPresD - 1#32
      burstCountNextD := r.burstCountPresD
      stateNextD := .stateTx }
  else if 0 < r.burstCountPresD.toNat then
    { l with
      burstCountNextD := r.burstCountPresD - (1#(picsizeBin - 1)).setWidth picsizeBin
      idleCountNextD := 0
      stateNextD := .stateNextBurstItem }
  else
    { l with
      burstCountNextD := 0
      idleCountNextD := 0
      stateNextD := .stateResetIntRegData }

/-- The `case StatePres_D` of `logic`. -/
def branch : State → Regs → Logic → Logic
  | .stateReset, _, l => logicReset l
  | .stateLcdReset, r, l => logicLcdReset r l
  | .stateResetIntRegData, _, l => logicResetIntRegData l
  | .stateIdle, r, l => logicIdle r l
  | .stateNextBurstItem, r, l => logicNextBurstItem r l
  | .stateEvalData, r, l => logicEvalData r l
  | .statePrepareTx, r, l => logicPrepareTx r l
  | .stateTx, r, l => logicTx r l

/-- Process `logic`, from the registers and its own last outputs. -/
def logic (r : Regs) (l : Logic) : Logic := branch r.statePresD r l

/-- Running `logic` again on its own outputs changes nothing: they are stable within a cycle. -/
theorem logic_logic (r : Regs) (l : Logic) : logic r (logic r l) = logic r l := by
  unfold logic
  cases r.statePresD with
  | stateReset => rfl
  | stateLcdReset => rfl
  | stateResetIntRegData => rfl
  | stateIdle => simp only [branch, logicIdle, Logic.holdRegs]; split <;> rfl
  | stateNextBurstItem => simp only [branch, logicNextBurstItem, Logic.holdRegs]; split <;> rfl
  | stateEvalData => simp only [branch, logicEvalData, Logic.holdRegs]; split_ifs <;> rfl
  | statePrepareTx => rfl
  | stateTx => simp only [branch, logicTx, Logic.holdRegs]

/-! ## The clocked processes -/

/-- `burstStream` at a rising edge. -/
def burstStream (r : Regs) : BurstStream :=
  if r.regBeginBurstTransferPresS then
    if r.writePpS = true ∧ r.burstStreamCountPresD < r.regBurstCountPresD then
      { burstStreamD := fun n =>
          if n = r.burstStreamCountPresD.toNat then r.writeDataPpD else r.burstStreamD n
        burstStreamCountNextD :=
          r.burstStreamCountPresD + (1#(picsizeBin - 1)).setWidth picsizeBin }
    else
      { r.toBurstStream with burstStreamCountNextD := r.burstStreamCountPresD }
  else
    { r.toBurstStream with burstStreamCountNextD := 0 }

/-- `counters` at a rising edge. -/
def counters (r : Regs) (l : Logic) : Counters :=
  { burstCountPresD := l.burstCountNextD
    idleCountPresD := l.idleCountNextD
    burstStreamCountPresD := r.burstStreamCountNextD }

/-- `regUpdate` at a rising edge. `RegBurstCountPres_D` is assigned itself, as in the source. -/
def regUpdate (r : Regs) (l : Logic) : RegUpdate :=
  { regAddressPresD := l.regAddressNextD
    regRxDataPresD := l.regRxDataNextD
    regByteEnablePresD := l.regByteEnableNextD
    regBeginBurstTransferPresS := l.regBeginBurstTransferNextS
    regBurstCountPresD := r.regBurstCountPresD
    regDataPresD := l.regDataNextD
    regWriteDataPresD := l.regWriteDataNextD
    regWriteCmdPresD := l.regWriteCmdNextD }

/-- `nextState` at a rising edge. -/
def nextState (l : Logic) : State := l.stateNextD

def resetCounters : Counters :=
  { burstCountPresD := 0, idleCountPresD := 0, burstStreamCountPresD := 0 }

def resetRegUpdate : RegUpdate :=
  { regAddressPresD := 0, regRxDataPresD := 0, regByteEnablePresD := 0,
    regBeginBurstTransferPresS := false, regBurstCountPresD := 0, regDataPresD := 0,
    regWriteDataPresD := 0, regWriteCmdPresD := 0 }

/-- All clocked processes at a rising edge, from the values before it. -/
def clock (r : Regs) (l : Logic) (i : Inputs) : Regs :=
  { Slave.frontEnd r.toFrontEnd i, burstStream r, counters r l, regUpdate r l with
    statePresD := nextState l }

/-- All clocked processes at `Reset_NRI = '0'`; `burstStream` then assigns only its count. -/
def resetRegs (stream : ℕ → BitVec 16) : Regs :=
  { Slave.resetFrontEnd, resetCounters, resetRegUpdate with
    burstStreamCountNextD := 0
    burstStreamD := stream
    statePresD := .stateReset }

/-! ## The architecture -/

/-- The architecture between two edges. -/
structure Signals extends Regs, Logic where
  /-- `logic` has run since the registers changed. -/
  settled : logic toRegs toLogic = toLogic

/-- Registers have changed: `logic` runs, from its old outputs. -/
def settle (r : Regs) (l : Logic) : Signals :=
  { r, logic r l with settled := logic_logic r l }

/-- A rising edge of `Clk_CI` with `Reset_NRI = '1'`. -/
def edge (s : Signals) (i : Inputs) : Signals :=
  settle (clock s.toRegs s.toLogic i) s.toLogic

/-- `Reset_NRI = '0'`. -/
def reset (s : Signals) : Signals :=
  settle (resetRegs s.burstStreamD) s.toLogic

/-- Before the first run of `logic` every output is unknown; `StateReset` assigns all of them. -/
def powerUp (stream : ℕ → BitVec 16) : Signals :=
  settle (resetRegs stream)
    { waitReqSo := false, dbDio := 0, rdNso := false, wrNso := false, csNso := false,
      dcNso := false, lcdResetNro := false, stateNextD := .stateReset, idleCountNextD := 0,
      burstCountNextD := 0, regAddressNextD := 0, regRxDataNextD := 0, regByteEnableNextD := 0,
      regBeginBurstTransferNextS := false, regBurstCountNextD := 0, regDataNextD := 0,
      regWriteDataNextD := 0, regWriteCmdNextD := 0, bitEnableD := 0 }

/-- What can happen to the architecture. -/
inductive Event where
  | edge (i : Inputs)
  | reset

def handle (s : Signals) : Event → Signals
  | .edge i => edge s i
  | .reset => reset s

end LcdInterface.LcdDriver

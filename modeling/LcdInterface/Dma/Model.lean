import LcdInterface.Slave
import Mathlib.Tactic.SplitIfs

/-!
# The DMA master (`dma.vhdl`)

Architecture `DMA` of entity `DmaMaster`, translated as `LcdDriver/Model.lean` translates the LCD
driver: `Regs` is what the clocked processes drive, `Logic` what process `logic` drives, `Signals`
both between two edges.

* `logic` is combinational although its sensitivity list names three signals only, and the three
  declarations that end without a semicolon (`Master_Response_D` and its two copies) are read as if
  they had one.
* The variable `RegTmp32_D` is always written before it is read, so it is a local name in
  `logicEvalData`; `BitEnable_D` and `RegTmp16_D` are not used. `Master_BurstCount_DO`,
  `ReadData_DO` and `ReadDataValid_SO` have no driver. The bits of the status register
  (`RegStateDone`, …) and of the control register other than `RegCtrlGo` are named but not used.
* No branch leads to `StateNextBurstItem` or `StateResetIntRegData`.
-/

namespace LcdInterface.Dma

open Slave (SyncData EdgeDetect FrontEnd)

/-! ## Signals -/

/-- `State_T`. -/
inductive State where
  | stateReset
  | stateResetIntRegData
  | stateIdle
  | stateNextBurstItem
  | stateEvalData
  | stateRequestRx
  | stateRx
  | stateTx
  deriving DecidableEq, Repr

/-- The inputs: the slave port's, and the master port's. -/
structure Inputs extends Slave.Inputs where
  masterWaitReqSi : Bool
  masterReadDataDi : BitVec 16
  masterReadDataValidSi : Bool
  masterWriteResponseValidSi : Bool
  masterResponseDi : BitVec 2
  deriving DecidableEq, Repr

/-- The signals of the master port that `syncData` drives. -/
structure MasterSync where
  masterReadDataValidS : Bool
  masterReadDataD : BitVec 16
  masterWaitReqS : Bool
  masterResponseD : BitVec 2
  masterWriteResponseValidS : Bool
  masterReadDataValidPS : Bool
  masterReadDataPD : BitVec 16
  masterResponsePD : BitVec 2
  masterWriteResponseValidPS : Bool
  masterReadDataValidPpS : Bool
  masterReadDataPpD : BitVec 16
  masterResponsePpD : BitVec 2
  masterWriteResponseValidPpS : Bool
  deriving DecidableEq, Repr

/-- The signals `burstStream` drives. -/
structure BurstStream where
  burstStreamCountNextD : BitVec picsizeBin
  burstStreamD : ℕ → BitVec 16

/-- The signals `counters` drives. -/
structure Counters where
  burstCountPresD : BitVec picsizeBin
  idleCountPresD : BitVec 32
  burstStreamCountPresD : BitVec picsizeBin
  deriving DecidableEq, Repr

/-- The signals `regUpdate` drives. -/
structure RegUpdate where
  regAddressPresD : BitVec 16
  regRxDataPresD : BitVec 16
  regByteEnablePresD : BitVec 2
  regBeginBurstTransferPresS : Bool
  regBurstCountPresD : BitVec picsizeBin
  regStatePresD : BitVec 16
  regCtrlPresD : BitVec 16
  regErrorPresD : BitVec 16
  regSrcPresD : BitVec 32
  regDestPresD : BitVec 32
  regDataPresD : BitVec 16
  deriving DecidableEq, Repr

/-- Everything a clocked process drives. -/
structure Regs extends FrontEnd, MasterSync, BurstStream, Counters, RegUpdate where
  statePresD : State

/-- The signals `logic` drives. -/
structure Logic where
  waitReqSo : Bool
  masterAddressDo : BitVec 32
  masterIrqSo : Bool
  masterReadSo : Bool
  masterWriteSo : Bool
  masterWriteDataDo : BitVec 16
  stateNextD : State
  idleCountNextD : BitVec 32
  burstCountNextD : BitVec picsizeBin
  regAddressNextD : BitVec 16
  regRxDataNextD : BitVec 16
  regByteEnableNextD : BitVec 2
  regBeginBurstTransferNextS : Bool
  regBurstCountNextD : BitVec picsizeBin
  regStateNextD : BitVec 16
  regCtrlNextD : BitVec 16
  regErrorNextD : BitVec 16
  regSrcNextD : BitVec 32
  regDestNextD : BitVec 32
  regDataNextD : BitVec 16
  deriving DecidableEq, Repr

def regStateAddr : BitVec 16 := 0x0000#16
def regCtrlAddr : BitVec 16 := 0x0002#16
def regErrorAddr : BitVec 16 := 0x0004#16
def regReservedAddr : BitVec 16 := 0x0006#16
def regSrcMSWAddr : BitVec 16 := 0x0008#16
def regSrcLSWAddr : BitVec 16 := 0x000A#16
def regDestMSWAddr : BitVec 16 := 0x000C#16
def regDestLSWAddr : BitVec 16 := 0x000E#16
def regDataAddr : BitVec 16 := 0x0010#16

def regCtrlGo : BitVec 16 := 0x0008#16

/-! ## Process `logic` -/

/-- The master port at rest. -/
def Logic.restMaster (l : Logic) : Logic :=
  { l with
    masterAddressDo := 0
    masterIrqSo := false
    masterReadSo := false
    masterWriteSo := false
    masterWriteDataDo := 0 }

/-- `Reg*Next_D <= (others => '0')` for all eleven registers. -/
def Logic.clearRegs (l : Logic) : Logic :=
  { l with
    regAddressNextD := 0
    regRxDataNextD := 0
    regByteEnableNextD := 0
    regBeginBurstTransferNextS := false
    regBurstCountNextD := 0
    regStateNextD := 0
    regCtrlNextD := 0
    regErrorNextD := 0
    regSrcNextD := 0
    regDestNextD := 0
    regDataNextD := 0 }

/-- `Reg*Next_D <= Reg*Pres_D` for the registers the CPU addresses. -/
def Logic.holdAddressable (r : Regs) (l : Logic) : Logic :=
  { l with
    regStateNextD := r.regStatePresD
    regCtrlNextD := r.regCtrlPresD
    regErrorNextD := r.regErrorPresD
    regSrcNextD := r.regSrcPresD
    regDestNextD := r.regDestPresD
    regDataNextD := r.regDataPresD }

/-- `Reg*Next_D <= Reg*Pres_D` for all eleven registers. -/
def Logic.holdRegs (r : Regs) (l : Logic) : Logic :=
  { l.holdAddressable r with
    regAddressNextD := r.regAddressPresD
    regRxDataNextD := r.regRxDataPresD
    regByteEnableNextD := r.regByteEnablePresD
    regBeginBurstTransferNextS := r.regBeginBurstTransferPresS
    regBurstCountNextD := r.regBurstCountPresD }

def logicReset (l : Logic) : Logic :=
  { l.restMaster.clearRegs with
    waitReqSo := false
    stateNextD := .stateIdle
    idleCountNextD := 500000000#32
    burstCountNextD := 0 }

def logicResetIntRegData (l : Logic) : Logic :=
  { l with
    burstCountNextD := 0
    idleCountNextD := 0
    regAddressNextD := BitVec.allOnes 16
    regBeginBurstTransferNextS := false
    regBurstCountNextD := 0
    regByteEnableNextD := 0
    regRxDataNextD := 0
    stateNextD := .stateIdle }

/-- Captures on `Read_Edge_D`. `BurstCountNext_D` is the same in both branches of the burst test. -/
def logicIdle (r : Regs) (l : Logic) : Logic :=
  let l := { l.restMaster.holdAddressable r with
    idleCountNextD := 5#32
    burstCountNextD := 0
    waitReqSo := false }
  if r.readEdgeD then
    { l with
      regAddressNextD := r.addressPD
      regBeginBurstTransferNextS := r.beginBurstTransferPS
      regBurstCountNextD := r.burstCountPD
      regRxDataNextD := r.writeDataPD
      regByteEnableNextD := if r.beginBurstTransferPS then BitVec.allOnes 2 else r.byteEnablePD
      burstCountNextD := r.burstCountPD
      stateNextD := .stateEvalData }
  else if r.regCtrlPresD &&& regCtrlGo ≠ 0 then
    { l with stateNextD := .stateRequestRx }
  else
    { l with stateNextD := .stateIdle }

def logicNextBurstItem (r : Regs) (l : Logic) : Logic :=
  let l := { l.restMaster.holdRegs r with
    idleCountNextD := 2#32
    burstCountNextD := r.burstCountPresD }
  if r.burstStreamCountPresD > r.burstCountPresD then
    { l with
      waitReqSo := true
      regDataNextD := r.burstStreamD r.burstCountPresD.toNat
      stateNextD := .stateEvalData }
  else
    { l with
      waitReqSo := false
      regDataNextD := 0
      stateNextD := .stateNextBurstItem }

/-- `reg` with `data` in its upper half. -/
def withMSW (reg : BitVec 32) (data : BitVec 16) : BitVec 32 :=
  let regTmp32D := reg &&& 0x0000FFFF#32
  regTmp32D ||| data.setWidth 32 <<< 16

/-- `reg` with `data` in its lower half. -/
def withLSW (reg : BitVec 32) (data : BitVec 16) : BitVec 32 :=
  let regTmp32D := reg &&& 0xFFFF0000#32
  regTmp32D ||| data.setWidth 32

/-- The `case RegAddressPres_D` of `StateEvalData`. -/
def evalAddress (r : Regs) (l : Logic) : Logic :=
  if r.regAddressPresD = regStateAddr then
    { l with regStateNextD := r.regRxDataPresD }
  else if r.regAddressPresD = regCtrlAddr then
    { l with regCtrlNextD := r.regRxDataPresD }
  else if r.regAddressPresD = regErrorAddr then
    l
  else if r.regAddressPresD = regSrcMSWAddr then
    { l with regSrcNextD := withMSW r.regSrcPresD r.regRxDataPresD }
  else if r.regAddressPresD = regSrcLSWAddr then
    { l with regSrcNextD := withLSW r.regSrcPresD r.regRxDataPresD }
  else if r.regAddressPresD = regDestMSWAddr then
    { l with regDestNextD := withMSW r.regDestPresD r.regRxDataPresD }
  else if r.regAddressPresD = regDestLSWAddr then
    { l with regDestNextD := withLSW r.regDestPresD r.regRxDataPresD }
  else if r.regAddressPresD = regDataAddr then
    { l with regDataNextD := r.regRxDataPresD }
  else
    l

/-- Every branch of the `case` sets `StateNext_D <= StateIdle`. -/
def logicEvalData (r : Regs) (l : Logic) : Logic :=
  evalAddress r { l.restMaster.holdRegs r with
    idleCountNextD := 2#32
    burstCountNextD := r.burstCountPresD
    waitReqSo := false
    stateNextD := .stateIdle }

/-- The master port of `StateRequestRx` and `StateRx`. -/
def Logic.read (r : Regs) (l : Logic) : Logic :=
  { l with
    masterAddressDo := r.regSrcPresD
    masterIrqSo := false
    masterReadSo := true
    masterWriteSo := false
    masterWriteDataDo := 0 }

/-- Does not assign `WaitReq_SO`. -/
def logicRequestRx (r : Regs) (l : Logic) : Logic :=
  { (l.read r).holdRegs r with
    idleCountNextD := 2#32
    burstCountNextD := r.burstCountPresD
    stateNextD := if r.masterWaitReqS then .stateRx else .stateRequestRx }

/-- Does not assign `WaitReq_SO`. -/
def logicRx (r : Regs) (l : Logic) : Logic :=
  { (l.read r).holdRegs r with
    idleCountNextD := 2#32
    burstCountNextD := r.burstCountPresD
    regDataNextD := if r.masterReadDataValidS then r.masterReadDataD else r.regDataPresD
    stateNextD := if r.masterReadDataValidS then .stateTx else .stateRequestRx }

/-- Does not assign `IdleCountNext_D`. -/
def logicTx (r : Regs) (l : Logic) : Logic :=
  { l.holdRegs r with
    waitReqSo := false
    masterAddressDo := r.regDestPresD
    masterIrqSo := false
    masterReadSo := false
    masterWriteSo := true
    masterWriteDataDo := r.regDataPresD
    burstCountNextD := r.burstCountPresD
    stateNextD := if r.masterWaitReqS then .stateTx else .stateIdle }

/-- The `case StatePres_D` of `logic`. -/
def branch : State → Regs → Logic → Logic
  | .stateReset, _, l => logicReset l
  | .stateResetIntRegData, _, l => logicResetIntRegData l
  | .stateIdle, r, l => logicIdle r l
  | .stateNextBurstItem, r, l => logicNextBurstItem r l
  | .stateEvalData, r, l => logicEvalData r l
  | .stateRequestRx, r, l => logicRequestRx r l
  | .stateRx, r, l => logicRx r l
  | .stateTx, r, l => logicTx r l

/-- Process `logic`, from the registers and its own last outputs. -/
def logic (r : Regs) (l : Logic) : Logic := branch r.statePresD r l

/-- `logic` is stable on its own outputs. -/
theorem logic_logic (r : Regs) (l : Logic) : logic r (logic r l) = logic r l := by
  unfold logic
  cases r.statePresD with
  | stateReset => rfl
  | stateResetIntRegData => rfl
  | stateIdle => simp only [branch, logicIdle]; split_ifs <;> rfl
  | stateNextBurstItem => simp only [branch, logicNextBurstItem]; split <;> rfl
  | stateEvalData => rfl
  | stateRequestRx => rfl
  | stateRx => rfl
  | stateTx => rfl

/-! ## The clocked processes -/

/-- The master port's part of `syncData` at `Reset_NRI = '0'`. -/
def resetMasterSync : MasterSync :=
  { masterReadDataValidS := false, masterReadDataD := 0, masterWaitReqS := false,
    masterResponseD := 0, masterWriteResponseValidS := false,
    masterReadDataValidPS := false, masterReadDataPD := 0, masterResponsePD := 0,
    masterWriteResponseValidPS := false,
    masterReadDataValidPpS := false, masterReadDataPpD := 0, masterResponsePpD := 0,
    masterWriteResponseValidPpS := false }

/-- The master port's part of `syncData` at a rising edge. -/
def masterSync (m : MasterSync) (i : Inputs) : MasterSync :=
  { masterReadDataValidS := i.masterReadDataValidSi
    masterReadDataD := i.masterReadDataDi
    masterWaitReqS := i.masterWaitReqSi
    masterResponseD := i.masterResponseDi
    masterWriteResponseValidS := i.masterWriteResponseValidSi
    masterReadDataValidPS := m.masterReadDataValidS
    masterReadDataPD := m.masterReadDataD
    masterResponsePD := m.masterResponseD
    masterWriteResponseValidPS := m.masterWriteResponseValidS
    masterReadDataValidPpS := m.masterReadDataValidPS
    masterReadDataPpD := m.masterReadDataPD
    masterResponsePpD := m.masterResponsePD
    masterWriteResponseValidPpS := m.masterWriteResponseValidPS }

/-- `burstStream` at a rising edge. It stores the slave port's data. -/
def burstStream (r : Regs) : BurstStream :=
  if r.statePresD = .stateRx then
    if r.masterReadDataValidS = true ∧ r.burstStreamCountPresD < r.regBurstCountPresD then
      { burstStreamD := fun n =>
          if n = r.burstStreamCountPresD.toNat then r.writeDataPpD else r.burstStreamD n
        burstStreamCountNextD :=
          r.burstStreamCountPresD + (1#(picsizeBin - 1)).setWidth picsizeBin }
    else
      { r.toBurstStream with burstStreamCountNextD := r.burstStreamCountPresD }
  else
    { r.toBurstStream with burstStreamCountNextD := 0 }

/-- `counters` at a rising edge. -/
def counters (r : Regs) (l : Logic) : Counters :=
  { burstCountPresD := l.burstCountNextD
    idleCountPresD := l.idleCountNextD
    burstStreamCountPresD := r.burstStreamCountNextD }

/-- `regUpdate` at a rising edge. `RegBurstCountPres_D` is assigned itself, as in the source. -/
def regUpdate (r : Regs) (l : Logic) : RegUpdate :=
  { regAddressPresD := l.regAddressNextD
    regRxDataPresD := l.regRxDataNextD
    regByteEnablePresD := l.regByteEnableNextD
    regBeginBurstTransferPresS := l.regBeginBurstTransferNextS
    regBurstCountPresD := r.regBurstCountPresD
    regStatePresD := l.regStateNextD
    regCtrlPresD := l.regCtrlNextD
    regErrorPresD := l.regErrorNextD
    regSrcPresD := l.regSrcNextD
    regDestPresD := l.regDestNextD
    regDataPresD := l.regDataNextD }

/-- `nextState` at a rising edge. -/
def nextState (l : Logic) : State := l.stateNextD

def resetCounters : Counters :=
  { burstCountPresD := 0, idleCountPresD := 0, burstStreamCountPresD := 0 }

def resetRegUpdate : RegUpdate :=
  { regAddressPresD := 0, regRxDataPresD := 0, regByteEnablePresD := 0,
    regBeginBurstTransferPresS := false, regBurstCountPresD := 0, regStatePresD := 0,
    regCtrlPresD := 0, regErrorPresD := 0, regSrcPresD := 0, regDestPresD := 0,
    regDataPresD := 0 }

/-- All clocked processes at a rising edge, from the values before it. -/
def clock (r : Regs) (l : Logic) (i : Inputs) : Regs :=
  { Slave.frontEnd r.toFrontEnd i.toInputs, masterSync r.toMasterSync i, burstStream r,
    counters r l, regUpdate r l with
    statePresD := nextState l }

/-- All clocked processes at `Reset_NRI = '0'`; `burstStream` then assigns only its count. -/
def resetRegs (stream : ℕ → BitVec 16) : Regs :=
  { Slave.resetFrontEnd, resetMasterSync, resetCounters, resetRegUpdate with
    burstStreamCountNextD := 0
    burstStreamD := stream
    statePresD := .stateReset }

/-! ## The architecture -/

/-- The architecture between two edges. -/
structure Signals extends Regs, Logic where
  /-- `logic` has run since the registers changed. -/
  settled : logic toRegs toLogic = toLogic

/-- Registers have changed: `logic` runs, from its old outputs. -/
def settle (r : Regs) (l : Logic) : Signals :=
  { r, logic r l with settled := logic_logic r l }

/-- A rising edge of `Clk_CI` with `Reset_NRI = '1'`. -/
def edge (d : Signals) (i : Inputs) : Signals :=
  settle (clock d.toRegs d.toLogic i) d.toLogic

/-- `Reset_NRI = '0'`. -/
def reset (d : Signals) : Signals :=
  settle (resetRegs d.burstStreamD) d.toLogic

/-- Before the first run of `logic` every output is unknown; `StateReset` assigns all of them. -/
def powerUp (stream : ℕ → BitVec 16) : Signals :=
  settle (resetRegs stream)
    { waitReqSo := false, masterAddressDo := 0, masterIrqSo := false, masterReadSo := false,
      masterWriteSo := false, masterWriteDataDo := 0, stateNextD := .stateReset,
      idleCountNextD := 0, burstCountNextD := 0, regAddressNextD := 0, regRxDataNextD := 0,
      regByteEnableNextD := 0, regBeginBurstTransferNextS := false, regBurstCountNextD := 0,
      regStateNextD := 0, regCtrlNextD := 0, regErrorNextD := 0, regSrcNextD := 0,
      regDestNextD := 0, regDataNextD := 0 }

/-- What can happen to the architecture. -/
inductive Event where
  | edge (x : Inputs)
  | reset

def handle (d : Signals) : Event → Signals
  | .edge x => edge d x
  | .reset => reset d

end LcdInterface.Dma

import LcdInterface.Clocked.Run
import LcdInterface.Dma.Model

/-!
# One clock edge of the DMA master, state by state

* `edge_*`: the next state, and what happens to the registers the CPU addresses (`Addressable`).
* `edge_successor`: the state after each of the states that are reached.
* `Live`: the two states no branch leads to are never reached, and the slave port never makes the
  CPU wait.
* `masterPort_eq`: the master port requests a read in `StateRequestRx` and `StateRx`, and a write in
  `StateTx`.
-/

namespace LcdInterface.Dma

open Clocked

variable {d : Signals} {x : Inputs}

/-! ## Registers after an edge -/

/-- The front end is that of the slave port alone. -/
@[simp] theorem edge_toFrontEnd :
    (edge d x).toFrontEnd = Slave.frontEnd d.toFrontEnd x.toInputs := rfl

/-- The other registers take over what `logic` has settled on. -/
@[simp] theorem edge_statePresD : (edge d x).statePresD = d.stateNextD := rfl

@[simp] theorem edge_regAddressPresD : (edge d x).regAddressPresD = d.regAddressNextD := rfl

@[simp] theorem edge_regRxDataPresD : (edge d x).regRxDataPresD = d.regRxDataNextD := rfl

/-- The registers the CPU addresses. -/
structure Addressable where
  state : BitVec 16
  ctrl : BitVec 16
  error : BitVec 16
  src : BitVec 32
  dest : BitVec 32
  data : BitVec 16
  deriving DecidableEq, Repr

/-- What they hold. -/
def addressable (r : Regs) : Addressable :=
  ⟨r.regStatePresD, r.regCtrlPresD, r.regErrorPresD, r.regSrcPresD, r.regDestPresD, r.regDataPresD⟩

/-- Their next values. -/
def Logic.addressableNext (l : Logic) : Addressable :=
  ⟨l.regStateNextD, l.regCtrlNextD, l.regErrorNextD, l.regSrcNextD, l.regDestNextD, l.regDataNextD⟩

/-- `regUpdate` copies them. -/
theorem edge_addressable : addressable (edge d x).toRegs = d.toLogic.addressableNext := rfl

/-- The master port's outputs. -/
structure MasterPort where
  address : BitVec 32
  irq : Bool
  read : Bool
  write : Bool
  writeData : BitVec 16
  deriving DecidableEq, Repr

/-- The master port, as `logic` drives it. -/
def masterPort (l : Logic) : MasterPort :=
  ⟨l.masterAddressDo, l.masterIrqSo, l.masterReadSo, l.masterWriteSo, l.masterWriteDataDo⟩

/-- What `StateEvalData` makes of a captured access. -/
def Addressable.store (a : Addressable) (address data : BitVec 16) : Addressable :=
  if address = regStateAddr then { a with state := data }
  else if address = regCtrlAddr then { a with ctrl := data }
  else if address = regErrorAddr then a
  else if address = regSrcMSWAddr then { a with src := withMSW a.src data }
  else if address = regSrcLSWAddr then { a with src := withLSW a.src data }
  else if address = regDestMSWAddr then { a with dest := withMSW a.dest data }
  else if address = regDestLSWAddr then { a with dest := withLSW a.dest data }
  else if address = regDataAddr then { a with data := data }
  else a

/-! ## The next state -/

/-- The `case` of `StateEvalData` assigns five registers, … -/
theorem evalAddress_eq (r : Regs) (l : Logic) :
    evalAddress r l =
      { l with
        regStateNextD := (evalAddress r l).regStateNextD
        regCtrlNextD := (evalAddress r l).regCtrlNextD
        regSrcNextD := (evalAddress r l).regSrcNextD
        regDestNextD := (evalAddress r l).regDestNextD
        regDataNextD := (evalAddress r l).regDataNextD } := by
  unfold evalAddress
  split_ifs <;> rfl

/-- … and leaves all other signals alone. -/
theorem evalAddress_same (r : Regs) (l : Logic) :
    (evalAddress r l).stateNextD = l.stateNextD ∧ (evalAddress r l).waitReqSo = l.waitReqSo ∧
      masterPort (evalAddress r l) = masterPort l := by
  rw [evalAddress_eq]
  exact ⟨rfl, rfl, rfl⟩

/-- On the registers the CPU addresses it is `store`. -/
theorem evalAddress_addressable {r : Regs} {l : Logic} (h : l.addressableNext = addressable r) :
    (evalAddress r l).addressableNext =
      (addressable r).store r.regAddressPresD r.regRxDataPresD := by
  have hsrc : r.regSrcPresD = l.regSrcNextD := (congrArg Addressable.src h).symm
  have hdest : r.regDestPresD = l.regDestNextD := (congrArg Addressable.dest h).symm
  rw [← h]
  unfold evalAddress Addressable.store
  rw [hsrc, hdest]
  split_ifs <;> rfl

/-- In each state the outputs are that branch of `logic`. -/
theorem settled_at {q : State} (h : d.statePresD = q) :
    d.toLogic = branch q d.toRegs d.toLogic := by
  have hs := d.settled
  rw [logic, h] at hs
  exact hs.symm

/-- One cycle after the reset all registers are zero. -/
theorem edge_reset (h : d.statePresD = .stateReset) :
    (edge d x).statePresD = .stateIdle ∧ addressable (edge d x).toRegs = ⟨0, 0, 0, 0, 0, 0⟩ := by
  have hl : d.toLogic = logicReset d.toLogic := settled_at h
  rw [edge_statePresD, edge_addressable, hl]
  exact ⟨rfl, rfl⟩

/-- The capture of an access in `StateIdle`. -/
theorem edge_idle_some (h : d.statePresD = .stateIdle) (he : d.readEdgeD = true) :
    (edge d x).statePresD = .stateEvalData ∧ (edge d x).regAddressPresD = d.addressPD ∧
      (edge d x).regRxDataPresD = d.writeDataPD ∧
      addressable (edge d x).toRegs = addressable d.toRegs := by
  have hl : d.toLogic = logicIdle d.toRegs d.toLogic := settled_at h
  unfold logicIdle at hl
  rw [if_pos he] at hl
  rw [edge_statePresD, edge_regAddressPresD, edge_regRxDataPresD, edge_addressable, hl]
  exact ⟨rfl, rfl, rfl, rfl⟩

/-- Without one the machine looks at `RegCtrlGo`. -/
theorem edge_idle_none (h : d.statePresD = .stateIdle) (he : d.readEdgeD = false) :
    (edge d x).statePresD =
        (if d.regCtrlPresD &&& regCtrlGo ≠ 0 then .stateRequestRx else .stateIdle) ∧
      addressable (edge d x).toRegs = addressable d.toRegs := by
  have hl : d.toLogic = logicIdle d.toRegs d.toLogic := settled_at h
  unfold logicIdle at hl
  rw [he, if_neg Bool.false_ne_true] at hl
  rw [edge_statePresD, edge_addressable, hl]
  by_cases hgo : d.regCtrlPresD &&& regCtrlGo ≠ 0
  · rw [if_pos hgo, if_pos hgo]
    exact ⟨rfl, rfl⟩
  · rw [if_neg hgo, if_neg hgo]
    exact ⟨rfl, rfl⟩

/-- The captured access takes effect. -/
theorem edge_evalData (h : d.statePresD = .stateEvalData) :
    (edge d x).statePresD = .stateIdle ∧
      addressable (edge d x).toRegs =
        (addressable d.toRegs).store d.regAddressPresD d.regRxDataPresD := by
  have hl : d.toLogic = logicEvalData d.toRegs d.toLogic := settled_at h
  rw [edge_statePresD, edge_addressable, hl]
  exact ⟨(evalAddress_same _ _).1, evalAddress_addressable rfl⟩

/-- A read goes on to `StateRx` when it had to wait, and is requested again when it had not. -/
theorem edge_requestRx (h : d.statePresD = .stateRequestRx) :
    (edge d x).statePresD = (if d.masterWaitReqS then .stateRx else .stateRequestRx) ∧
      addressable (edge d x).toRegs = addressable d.toRegs := by
  have hl : d.toLogic = logicRequestRx d.toRegs d.toLogic := settled_at h
  rw [edge_statePresD, edge_addressable, hl]
  exact ⟨rfl, rfl⟩

/-- A word that is there goes to `RegData`, and without one the read is requested again. -/
theorem edge_rx (h : d.statePresD = .stateRx) :
    (edge d x).statePresD = (if d.masterReadDataValidS then .stateTx else .stateRequestRx) ∧
      addressable (edge d x).toRegs =
        { addressable d.toRegs with
          data := if d.masterReadDataValidS then d.masterReadDataD else d.regDataPresD } := by
  have hl : d.toLogic = logicRx d.toRegs d.toLogic := settled_at h
  rw [edge_statePresD, edge_addressable, hl]
  exact ⟨rfl, rfl⟩

/-- A write is held while it has to wait. -/
theorem edge_tx (h : d.statePresD = .stateTx) :
    (edge d x).statePresD = (if d.masterWaitReqS then .stateTx else .stateIdle) ∧
      addressable (edge d x).toRegs = addressable d.toRegs := by
  have hl : d.toLogic = logicTx d.toRegs d.toLogic := settled_at h
  rw [edge_statePresD, edge_addressable, hl]
  exact ⟨rfl, rfl⟩

/-! ## Reachable states -/

/-- The machine is in one of the states some branch leads to, and the CPU is not made to wait. -/
structure Live (d : Signals) : Prop where
  ne_resetIntRegData : d.statePresD ≠ .stateResetIntRegData
  ne_nextBurstItem : d.statePresD ≠ .stateNextBurstItem
  waitReqSo : d.waitReqSo = false

/-- The state after each live one. -/
def successor (r : Regs) : State :=
  match r.statePresD with
  | .stateIdle =>
    if r.readEdgeD then .stateEvalData
    else if r.regCtrlPresD &&& regCtrlGo ≠ 0 then .stateRequestRx else .stateIdle
  | .stateRequestRx => if r.masterWaitReqS then .stateRx else .stateRequestRx
  | .stateRx => if r.masterReadDataValidS then .stateTx else .stateRequestRx
  | .stateTx => if r.masterWaitReqS then .stateTx else .stateIdle
  | _ => .stateIdle

/-- **One edge, in any live state.** -/
theorem edge_successor (h : Live d) : (edge d x).statePresD = successor d.toRegs := by
  unfold successor
  cases hq : d.statePresD with
  | stateReset => exact (edge_reset hq).1
  | stateResetIntRegData => exact absurd hq h.ne_resetIntRegData
  | stateNextBurstItem => exact absurd hq h.ne_nextBurstItem
  | stateIdle =>
    cases he : d.readEdgeD with
    | true => exact (edge_idle_some hq he).1
    | false => exact (edge_idle_none hq he).1
  | stateEvalData => exact (edge_evalData hq).1
  | stateRequestRx => exact (edge_requestRx hq).1
  | stateRx => exact (edge_rx hq).1
  | stateTx => exact (edge_tx hq).1

/-- A reset leads to a live state, … -/
theorem live_reset (d : Signals) : Live (reset d) := by
  refine ⟨?_, ?_, rfl⟩
  · intro h; cases h
  · intro h; cases h

/-- `WaitReq_SO` is cleared or kept in every live state. -/
theorem logic_waitReqSo {r : Regs} {l : Logic} (h1 : r.statePresD ≠ .stateNextBurstItem)
    (hl : l.waitReqSo = false) : (logic r l).waitReqSo = false := by
  unfold logic
  cases hq : r.statePresD with
  | stateReset => rfl
  | stateResetIntRegData => exact hl
  | stateIdle => simp only [branch, logicIdle]; split_ifs <;> rfl
  | stateNextBurstItem => exact absurd hq h1
  | stateEvalData => exact (evalAddress_same _ _).2.1
  | stateRequestRx => exact hl
  | stateRx => exact hl
  | stateTx => rfl

/-- … and an edge from one to the next. -/
theorem live_edge (h : Live d) : Live (edge d x) := by
  have hstate : (edge d x).statePresD ≠ .stateResetIntRegData ∧
      (edge d x).statePresD ≠ .stateNextBurstItem := by
    rw [edge_successor h]
    unfold successor
    split
    · split_ifs <;> simp
    · split_ifs <;> simp
    · split_ifs <;> simp
    · split_ifs <;> simp
    · simp
  exact ⟨hstate.1, hstate.2, logic_waitReqSo hstate.2 h.waitReqSo⟩

/-- `StateTx` is entered from `StateRx` only. -/
theorem rx_of_edge (h : Live d) (hne : d.statePresD ≠ .stateTx)
    (hn : (edge d x).statePresD = .stateTx) : d.statePresD = .stateRx := by
  rw [edge_successor h] at hn
  unfold successor at hn
  grind

/-- `StateRx` is entered from `StateRequestRx` when `Master_WaitReq_S` is up. -/
theorem requestRx_of_edge (h : Live d) (hn : (edge d x).statePresD = .stateRx) :
    d.statePresD = .stateRequestRx ∧ d.masterWaitReqS = true := by
  rw [edge_successor h] at hn
  unfold successor at hn
  grind

/-- `StateEvalData` is entered by a capture only. -/
theorem idle_of_edge (h : Live d) (hn : (edge d x).statePresD = .stateEvalData) :
    d.statePresD = .stateIdle ∧ d.readEdgeD = true := by
  rw [edge_successor h] at hn
  unfold successor at hn
  grind

/-- `StateReset` is left for good. -/
theorem ne_reset_edge (h : Live d) : (edge d x).statePresD ≠ .stateReset := by
  rw [edge_successor h]
  unfold successor
  grind

/-! ## The master port -/

/-- **The master port in each live state.** -/
theorem masterPort_eq (h : Live d) :
    masterPort d.toLogic =
      match d.statePresD with
      | .stateRequestRx | .stateRx => ⟨d.regSrcPresD, false, true, false, 0⟩
      | .stateTx => ⟨d.regDestPresD, false, false, true, d.regDataPresD⟩
      | _ => ⟨0, false, false, false, 0⟩ := by
  cases hq : d.statePresD with
  | stateResetIntRegData => exact absurd hq h.ne_resetIntRegData
  | stateNextBurstItem => exact absurd hq h.ne_nextBurstItem
  | stateReset => rw [settled_at hq]; rfl
  | stateIdle =>
    rw [settled_at hq]
    simp only [branch, logicIdle]
    split_ifs <;> rfl
  | stateEvalData =>
    rw [settled_at hq]
    exact (evalAddress_same _ _).2.2
  | stateRequestRx => rw [settled_at hq]; rfl
  | stateRx => rw [settled_at hq]; rfl
  | stateTx => rw [settled_at hq]; rfl

/-- `Master_Read_SO` is `'1'` in the two states of the read, … -/
theorem read_iff (h : Live d) :
    d.masterReadSo = true ↔ d.statePresD = .stateRequestRx ∨ d.statePresD = .stateRx := by
  have hp := congrArg MasterPort.read (masterPort_eq h)
  show (masterPort d.toLogic).read = true ↔ _
  rw [hp]
  cases d.statePresD <;> simp

/-- … and `Master_Write_SO` in that of the write. -/
theorem write_iff (h : Live d) : d.masterWriteSo = true ↔ d.statePresD = .stateTx := by
  have hp := congrArg MasterPort.write (masterPort_eq h)
  show (masterPort d.toLogic).write = true ↔ _
  rw [hp]
  cases d.statePresD <;> simp

/-! ## Runs from reset -/

section Runs

variable (d : Signals) (i : ℕ → Inputs)

/-- The DMA in cycle `t` after reset. -/
def cycle (t : ℕ) : Signals := run edge (reset d) i t

def state (t : ℕ) : State := (cycle d i t).statePresD

variable {d i}

theorem cycle_succ (t : ℕ) : cycle d i (t + 1) = edge (cycle d i t) (i t) := rfl

theorem live_cycle (t : ℕ) : Live (cycle d i t) :=
  run_invariant (live_reset d) (fun _ _ h => live_edge h) t

/-- The slave port's front end runs by itself. -/
theorem cycle_front (t : ℕ) :
    (cycle d i t).toFrontEnd = Slave.front (fun t => (i t).toInputs) t := by
  induction t with
  | zero => rfl
  | succ t ih => rw [cycle_succ, edge_toFrontEnd, ih, Slave.front_succ]

/-- `Read_Edge_D` follows `Read_SI`, two cycles late: it is the level, not its edge. -/
theorem readEdgeD_eq (t : ℕ) :
    (cycle d i t).readEdgeD = delay false (delay false fun t => (i t).readSi) t := by
  rw [cycle_front]
  exact Slave.run_readEdgeD _ t

theorem readEdgeD_succ (t : ℕ) : (cycle d i (t + 2)).readEdgeD = (i t).readSi :=
  readEdgeD_eq _

end Runs

/-- Power-up with zeros in the burst stream. -/
def fresh : Signals := powerUp fun _ => 0

/-- All inputs at rest. -/
def quietPort : Inputs :=
  { addressDi := 0, writeSi := false, writeDataDi := 0, readSi := false, byteEnableDi := 0,
    beginBurstTransferSi := false, burstCountDi := 0, masterWaitReqSi := false,
    masterReadDataDi := 0, masterReadDataValidSi := false, masterWriteResponseValidSi := false,
    masterResponseDi := 0 }

end LcdInterface.Dma

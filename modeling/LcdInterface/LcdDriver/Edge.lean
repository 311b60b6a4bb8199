import LcdInterface.LcdDriver.Model

/-!
# One clock edge of the LCD driver, state by state

What `edge` does to the registers in each state of the machine, and what the outputs are while it
is there. Later modules use these and do not open `logic` again.

* `settled_at`, `pins_*`: in each state the outputs are that branch of `logic`.
* `edge_*`: the next state and its counters, and which registers keep their value
  (`SameRegs`).
* `NoStream`: `RegBurstCountPres_D` is never loaded (`regUpdate` assigns it itself), so
  `burstStream` never counts and `StateNextBurstItem` is never left.
-/

namespace LcdInterface.LcdDriver

open Slave (Inputs)

variable {s : Signals} {i : Inputs}

/-! ## Registers after an edge -/

/-- `syncData` and `edgeDetect` look at nothing but the inputs and each other. -/
@[simp] theorem edge_toFrontEnd :
    (edge s i).toFrontEnd = Slave.frontEnd s.toFrontEnd i := rfl

/-- The other registers take over what `logic` has settled on. -/
@[simp] theorem edge_statePresD : (edge s i).statePresD = s.stateNextD := rfl

@[simp] theorem edge_idleCountPresD : (edge s i).idleCountPresD = s.idleCountNextD := rfl

@[simp] theorem edge_burstCountPresD : (edge s i).burstCountPresD = s.burstCountNextD := rfl

@[simp] theorem edge_regAddressPresD : (edge s i).regAddressPresD = s.regAddressNextD := rfl

@[simp] theorem edge_regRxDataPresD : (edge s i).regRxDataPresD = s.regRxDataNextD := rfl

@[simp] theorem edge_regByteEnablePresD :
    (edge s i).regByteEnablePresD = s.regByteEnableNextD := rfl

@[simp] theorem edge_regDataPresD : (edge s i).regDataPresD = s.regDataNextD := rfl

/-- `logic` settles again on the new registers, from its old outputs. -/
theorem edge_toLogic : (edge s i).toLogic = logic (edge s i).toRegs s.toLogic := rfl

/-! ## Outputs in each state -/

/-- **In each state the outputs are that branch of `logic`.** -/
theorem settled_at {q : State} (h : s.statePresD = q) :
    s.toLogic = branch q s.toRegs s.toLogic := by
  have hs := s.settled
  rw [logic, h] at hs
  exact hs.symm

/-! ## Pins -/

/-- A word on the panel's bus: `DB_DIO` and `DC_NSO`. -/
abbrev Word := BitVec 16 × Bool

/-- The signals to the panel. -/
structure Pins where
  dbDio : BitVec 16
  rdNso : Bool
  wrNso : Bool
  csNso : Bool
  dcNso : Bool
  lcdResetNro : Bool
  deriving DecidableEq, Repr

/-- The driven outputs of the entity. -/
structure Outputs extends Pins where
  waitReqSo : Bool
  deriving DecidableEq, Repr

/-- The pins, as `logic` drives them. -/
def pins (l : Logic) : Pins :=
  ⟨l.dbDio, l.rdNso, l.wrNso, l.csNso, l.dcNso, l.lcdResetNro⟩

def outputs (l : Logic) : Outputs := { pins l with waitReqSo := l.waitReqSo }

/-- `StateReset`. -/
def Pins.reset : Pins := ⟨0, true, true, true, true, true⟩

/-- `StateLcdReset`. -/
def Pins.lcdReset : Pins := ⟨0, true, true, true, true, false⟩

/-- `StateIdle` and `StateNextBurstItem`. -/
def Pins.idle : Pins := ⟨0, true, false, true, true, true⟩

/-- `StateEvalData`. -/
def Pins.evalData : Pins := ⟨0, true, true, true, false, true⟩

/-- `StatePrepareTx` and `StateTx`, which differ in `Wr_NSO`. -/
def Pins.shown (wrNso : Bool) (w : Word) : Pins := ⟨w.1, true, wrNso, false, w.2, true⟩

/-! ### In each state -/

/-- All levels at rest. -/
theorem pins_reset (h : s.statePresD = .stateReset) : pins s.toLogic = .reset := by
  rw [settled_at h]
  rfl

/-- The same with `LcdReset_NRO` low. -/
theorem pins_lcdReset (h : s.statePresD = .stateLcdReset) : pins s.toLogic = .lcdReset := by
  rw [settled_at h]
  rfl

/-- `StateIdle` leaves `Wr_NSO` low, with the panel deselected. -/
theorem pins_idle (h : s.statePresD = .stateIdle) : pins s.toLogic = .idle := by
  rw [settled_at h]
  simp only [branch, logicIdle]
  split <;> rfl

/-- So does `StateNextBurstItem`. -/
theorem pins_nextBurstItem (h : s.statePresD = .stateNextBurstItem) : pins s.toLogic = .idle := by
  rw [settled_at h]
  simp only [branch, logicNextBurstItem]
  split <;> rfl

/-- `DC_NSO` is low here whatever is written. -/
theorem pins_evalData (h : s.statePresD = .stateEvalData) : pins s.toLogic = .evalData := by
  rw [settled_at h]
  simp only [branch, logicEvalData]
  split_ifs <;> rfl

/-- The word is on the bus before the strobe, under the `BitEnable_D` of the word before it, … -/
theorem pins_prepareTx (h : s.statePresD = .statePrepareTx) :
    pins s.toLogic = .shown false (s.regDataPresD &&& s.bitEnableD, dataCmd s.regAddressPresD) := by
  have hl : s.toLogic = logicPrepareTx s.toRegs s.toLogic := settled_at h
  rw [hl]
  rfl

/-- … and after it, under its own byte enables. -/
theorem pins_tx (h : s.statePresD = .stateTx) :
    pins s.toLogic =
      .shown true
        (s.regDataPresD &&& bitEnable s.regByteEnablePresD, dataCmd s.regAddressPresD) := by
  rw [settled_at h]
  simp only [branch, logicTx]
  split_ifs <;> rfl

/-- `StateResetIntRegData` keeps the pins. -/
theorem pins_kept (h : (edge s i).statePresD = .stateResetIntRegData) :
    pins (edge s i).toLogic = pins s.toLogic := by
  rw [edge_toLogic, logic, h]
  rfl

/-! ## The next state -/

/-- The addresses whose writes go to the panel. -/
def IsTx (address : BitVec 16) : Prop :=
  address = regWriteDataAddr ∨ address = regWriteCmdAddr

instance (address : BitVec 16) : Decidable (IsTx address) :=
  inferInstanceAs (Decidable (_ ∨ _))

/-- The captured write is the same in both. -/
structure SameRegs (s s' : Signals) : Prop where
  address : s'.regAddressPresD = s.regAddressPresD
  byteEnable : s'.regByteEnablePresD = s.regByteEnablePresD
  burstCount : s'.burstCountPresD = s.burstCountPresD

/-- The LCD reset is entered with the count it takes, … -/
theorem edge_reset (h : s.statePresD = .stateReset) :
    (edge s i).statePresD = .stateLcdReset ∧ (edge s i).idleCountPresD = 500000000#32 := by
  have hl : s.toLogic = logicReset s.toLogic := settled_at h
  rw [edge_statePresD, edge_idleCountPresD, hl]
  exact ⟨rfl, rfl⟩

/-- … counts it down, … -/
theorem edge_lcdReset_pos (h : s.statePresD = .stateLcdReset) (hc : 0 < s.idleCountPresD.toNat) :
    (edge s i).statePresD = .stateLcdReset ∧
      (edge s i).idleCountPresD.toNat + 1 = s.idleCountPresD.toNat := by
  have hl : s.toLogic = logicLcdReset s.toRegs s.toLogic := settled_at h
  rw [edge_statePresD, edge_idleCountPresD, hl]
  simp only [logicLcdReset, hc, if_true, true_and]
  bv_omega

/-- … and is left at zero. -/
theorem edge_lcdReset_zero (h : s.statePresD = .stateLcdReset) (hc : s.idleCountPresD.toNat = 0) :
    (edge s i).statePresD = .stateResetIntRegData := by
  have hl : s.toLogic = logicLcdReset s.toRegs s.toLogic := settled_at h
  rw [edge_statePresD, hl]
  simp only [logicLcdReset, hc, Nat.lt_irrefl, if_false]

/-- The registers are cleared in one cycle. -/
theorem edge_resetIntRegData (h : s.statePresD = .stateResetIntRegData) :
    (edge s i).statePresD = .stateIdle := by
  have hl : s.toLogic = logicResetIntRegData s.toLogic := settled_at h
  rw [edge_statePresD, hl]
  rfl

/-- Without a pulse the machine stays idle. -/
theorem edge_idle_none (h : s.statePresD = .stateIdle) (he : s.writeEdgeD = false) :
    (edge s i).statePresD = .stateIdle := by
  have hl : s.toLogic = logicIdle s.toRegs s.toLogic := settled_at h
  rw [edge_statePresD, hl]
  simp [logicIdle, he]

/-- The capture of a write in `StateIdle`. -/
theorem edge_idle_some (h : s.statePresD = .stateIdle) (he : s.writeEdgeD = true) :
    (edge s i).statePresD = .stateEvalData ∧
      (edge s i).regAddressPresD = s.addressPD ∧
      (edge s i).regRxDataPresD = s.writeDataPD ∧
      (edge s i).regByteEnablePresD =
        (if s.beginBurstTransferPS then BitVec.allOnes 2 else s.byteEnablePD) ∧
      (edge s i).burstCountPresD = (if s.beginBurstTransferPS then s.burstCountPD else 0) := by
  have hl : s.toLogic = logicIdle s.toRegs s.toLogic := settled_at h
  rw [edge_statePresD, edge_regAddressPresD, edge_regRxDataPresD, edge_regByteEnablePresD,
    edge_burstCountPresD, hl]
  simp [logicIdle, he]

/-- A write to one of the panel's addresses is passed on to the transmit states, … -/
theorem edge_evalData_tx (h : s.statePresD = .stateEvalData) (ha : IsTx s.regAddressPresD) :
    (edge s i).statePresD = .statePrepareTx ∧ (edge s i).idleCountPresD = 2#32 ∧
      (edge s i).regDataPresD = s.regRxDataPresD ∧ SameRegs s (edge s i) := by
  have hl : s.toLogic = logicEvalData s.toRegs s.toLogic := settled_at h
  have hx : ∀ l, logicEvalData s.toRegs l =
      { logicEvalData s.toRegs l with
        stateNextD := .statePrepareTx, idleCountNextD := 2#32,
        regDataNextD := s.regRxDataPresD, regAddressNextD := s.regAddressPresD,
        regByteEnableNextD := s.regByteEnablePresD, burstCountNextD := s.burstCountPresD } := by
    intro l
    unfold logicEvalData Logic.holdRegs
    rcases ha with ha | ha
    · simp only [ha, if_true]
    · have hne : regWriteCmdAddr ≠ regWriteDataAddr := by decide
      simp only [ha, hne, if_true, if_false]
  rw [hx] at hl
  refine ⟨?_, ?_, ?_, ⟨?_, ?_, ?_⟩⟩
  · rw [edge_statePresD, hl]
  · rw [edge_idleCountPresD, hl]
  · rw [edge_regDataPresD, hl]
  · rw [edge_regAddressPresD, hl]
  · rw [edge_regByteEnablePresD, hl]
  · rw [edge_burstCountPresD, hl]

/-- … and any other one is dropped. -/
theorem edge_evalData_other (h : s.statePresD = .stateEvalData) (ha : ¬ IsTx s.regAddressPresD) :
    (edge s i).statePresD = .stateIdle := by
  have hl : s.toLogic = logicEvalData s.toRegs s.toLogic := settled_at h
  obtain ⟨h1, h2⟩ := not_or.mp ha
  rw [edge_statePresD, hl]
  simp only [logicEvalData, h1, h2, if_false]

/-- `StatePrepareTx` keeps the word, … -/
theorem edge_prepareTx_same (h : s.statePresD = .statePrepareTx) :
    SameRegs s (edge s i) ∧ (edge s i).regDataPresD = s.regDataPresD := by
  have hl : s.toLogic = logicPrepareTx s.toRegs s.toLogic := settled_at h
  refine ⟨⟨?_, ?_, ?_⟩, ?_⟩
  · rw [edge_regAddressPresD, hl]; rfl
  · rw [edge_regByteEnablePresD, hl]; rfl
  · rw [edge_burstCountPresD, hl]; rfl
  · rw [edge_regDataPresD, hl]; rfl

/-- … counts down … -/
theorem edge_prepareTx_pos (h : s.statePresD = .statePrepareTx)
    (hc : 0 < s.idleCountPresD.toNat) :
    (edge s i).statePresD = .statePrepareTx ∧
      (edge s i).idleCountPresD.toNat + 1 = s.idleCountPresD.toNat := by
  have hl : s.toLogic = logicPrepareTx s.toRegs s.toLogic := settled_at h
  rw [edge_statePresD, edge_idleCountPresD, hl]
  simp only [logicPrepareTx, hc, if_true, true_and]
  bv_omega

/-- … and goes on to `StateTx`, which is the strobe. -/
theorem edge_prepareTx_zero (h : s.statePresD = .statePrepareTx)
    (hc : s.idleCountPresD.toNat = 0) :
    (edge s i).statePresD = .stateTx ∧ (edge s i).idleCountPresD = 3#32 := by
  have hl : s.toLogic = logicPrepareTx s.toRegs s.toLogic := settled_at h
  rw [edge_statePresD, edge_idleCountPresD, hl]
  simp only [logicPrepareTx, hc, Nat.lt_irrefl, if_false, and_self]

/-- `StateTx` keeps it too. -/
theorem edge_tx_pos (h : s.statePresD = .stateTx) (hc : 0 < s.idleCountPresD.toNat) :
    (edge s i).statePresD = .stateTx ∧
      (edge s i).idleCountPresD.toNat + 1 = s.idleCountPresD.toNat ∧
      SameRegs s (edge s i) ∧ (edge s i).regDataPresD = s.regDataPresD := by
  have hl : s.toLogic = logicTx s.toRegs s.toLogic := settled_at h
  simp only [logicTx, hc, if_true] at hl
  refine ⟨?_, ?_, ⟨?_, ?_, ?_⟩, ?_⟩
  · rw [edge_statePresD, hl]
  · rw [edge_idleCountPresD, hl]
    bv_omega
  · rw [edge_regAddressPresD, hl]; rfl
  · rw [edge_regByteEnablePresD, hl]; rfl
  · rw [edge_burstCountPresD, hl]
  · rw [edge_regDataPresD, hl]; rfl

/-- If the burst count is not zero yet, the next item is due, … -/
theorem edge_tx_next (h : s.statePresD = .stateTx) (hc : s.idleCountPresD.toNat = 0)
    (hb : s.burstCountPresD ≠ 0) : (edge s i).statePresD = .stateNextBurstItem := by
  have hl : s.toLogic = logicTx s.toRegs s.toLogic := settled_at h
  have hb' : 0 < s.burstCountPresD.toNat :=
    Nat.pos_of_ne_zero fun h0 => hb (BitVec.eq_of_toNat_eq (by simpa using h0))
  rw [edge_statePresD, hl]
  simp only [logicTx, hc, hb', Nat.lt_irrefl, if_false, if_true]

/-- … otherwise the write is over. -/
theorem edge_tx_last (h : s.statePresD = .stateTx) (hc : s.idleCountPresD.toNat = 0)
    (hb : s.burstCountPresD = 0) : (edge s i).statePresD = .stateResetIntRegData := by
  have hl : s.toLogic = logicTx s.toRegs s.toLogic := settled_at h
  rw [edge_statePresD, hl]
  simp [logicTx, hc, hb]

/-! ## Pulses outside `StateIdle` -/

/-- The same cycle with `Write_Edge_D` forced to `b`. -/
def withWriteEdge (s : Signals) (b : Bool) : Signals :=
  settle { s.toRegs with writeEdgeD := b } s.toLogic

/-- **Only `StateIdle` looks at the pulse**: elsewhere it changes neither an output nor anything
the next edge does. -/
theorem withWriteEdge_eq (h : s.statePresD ≠ .stateIdle) (b : Bool) :
    (withWriteEdge s b).toLogic = s.toLogic ∧ edge (withWriteEdge s b) i = edge s i := by
  have hl : logic { s.toRegs with writeEdgeD := b } s.toLogic = s.toLogic := by
    refine Eq.trans ?_ s.settled
    unfold logic
    show branch s.statePresD _ _ = branch s.statePresD _ _
    cases hq : s.statePresD with
    | stateIdle => exact absurd hq h
    | stateReset => rfl
    | stateLcdReset => rfl
    | stateResetIntRegData => rfl
    | stateNextBurstItem => rfl
    | stateEvalData => rfl
    | statePrepareTx => rfl
    | stateTx => rfl
  refine ⟨hl, ?_⟩
  unfold edge
  rw [show (withWriteEdge s b).toLogic = s.toLogic from hl]
  rfl

/-! ## The burst stream is never filled -/

/-- Nothing is counted into the burst stream. -/
structure NoStream (s : Signals) : Prop where
  burstLength : s.regBurstCountPresD = 0
  next : s.burstStreamCountNextD = 0
  pres : s.burstStreamCountPresD = 0

/-- A reset clears the counter, … -/
theorem noStream_reset (s : Signals) : NoStream (reset s) := ⟨rfl, rfl, rfl⟩

/-- … and no edge counts: `RegBurstCountPres_D` limits the count, and stays `0`. -/
theorem noStream_edge (h : NoStream s) : NoStream (edge s i) := by
  refine ⟨h.burstLength, ?_, h.next⟩
  show (burstStream s.toRegs).burstStreamCountNextD = 0
  unfold burstStream
  have hlt : ¬ s.burstStreamCountPresD < s.regBurstCountPresD := by
    rw [h.pres, h.burstLength]; decide
  split
  · rw [if_neg fun hc => hlt hc.2]
    exact h.pres
  · rfl

/-- So no item ever comes, and `StateNextBurstItem` is never left. -/
theorem edge_nextBurstItem (h : s.statePresD = .stateNextBurstItem) (hn : NoStream s) :
    (edge s i).statePresD = .stateNextBurstItem := by
  have hl : s.toLogic = logicNextBurstItem s.toRegs s.toLogic := settled_at h
  have hle : ¬ s.burstStreamCountPresD > s.burstCountPresD := by
    rw [hn.pres]; simp
  rw [edge_statePresD, hl]
  simp only [logicNextBurstItem, hle, if_false]

end LcdInterface.LcdDriver

import LcdInterface.Clocked.Run

/-!
# The Avalon slave front end of both entities

`lcdDriver.vhdl` and `dma.vhdl` open with the same two clocked processes on the slave port:
`syncData` samples the port and keeps two older copies (`_P_`, `_PP_`), and `edgeDetect` turns the
sampled strobes into pulses. Both are translated once, here; `dma.vhdl` has more inputs in its
`syncData`, which `Dma/Model.lean` adds. A `std_logic` is a `Bool`, a `std_logic_vector` a
`BitVec`.

`edgeDetect` assigns `Read_Last_D` in its reset branch only, so `Read_Edge_D` is not an edge: it is
`Read_S` one cycle late.

Results, for the run from reset on any inputs: each register is the `delay` of what feeds it
(`run_writeS`, `run_addressPD`, …), and `Write_Edge_D` is the rising edge of `Write_SI` two cycles
late (`run_writeEdgeD`), so it is aligned with the `_P_` payload.
-/

namespace LcdInterface

/-- Generic `PICSIZE_BIN`, as `systemFile.qsys` sets it on both entities. -/
abbrev picsizeBin : ℕ := 17

/-- Generic `PICSIZE_DEC`, as `systemFile.qsys` sets it on both entities. -/
def picsizeDec : ℕ := 76800

namespace Slave

open Clocked

/-- The slave port's inputs. -/
structure Inputs where
  addressDi : BitVec 16
  writeSi : Bool
  writeDataDi : BitVec 16
  readSi : Bool
  byteEnableDi : BitVec 2
  beginBurstTransferSi : Bool
  burstCountDi : BitVec picsizeBin
  deriving DecidableEq, Repr

/-- The signals `syncData` drives. -/
structure SyncData where
  addressD : BitVec 16
  writeS : Bool
  writeDataD : BitVec 16
  readS : Bool
  byteEnableD : BitVec 2
  beginBurstTransferS : Bool
  burstCountD : BitVec picsizeBin
  addressPD : BitVec 16
  writePS : Bool
  writeDataPD : BitVec 16
  byteEnablePD : BitVec 2
  beginBurstTransferPS : Bool
  burstCountPD : BitVec picsizeBin
  addressPpD : BitVec 16
  writePpS : Bool
  writeDataPpD : BitVec 16
  byteEnablePpD : BitVec 2
  beginBurstTransferPpS : Bool
  burstCountPpD : BitVec picsizeBin
  deriving DecidableEq, Repr

/-- The signals `edgeDetect` drives. -/
structure EdgeDetect where
  readEdgeD : Bool
  writeEdgeD : Bool
  readLastD : Bool
  writeLastD : Bool
  deriving DecidableEq, Repr

/-- The front end's registers. -/
structure FrontEnd extends SyncData, EdgeDetect
  deriving DecidableEq, Repr

/-- `syncData` at `Reset_NRI = '0'`. -/
def resetSyncData : SyncData :=
  { addressD := 0, writeS := false, writeDataD := 0, readS := false, byteEnableD := 0,
    beginBurstTransferS := false, burstCountD := 0,
    addressPD := 0, writePS := false, writeDataPD := 0, byteEnablePD := 0,
    beginBurstTransferPS := false, burstCountPD := 0,
    addressPpD := 0, writePpS := false, writeDataPpD := 0, byteEnablePpD := 0,
    beginBurstTransferPpS := false, burstCountPpD := 0 }

/-- `syncData` at a rising edge of `Clk_CI`. -/
def syncData (d : SyncData) (i : Inputs) : SyncData :=
  { addressD := i.addressDi
    writeS := i.writeSi
    writeDataD := i.writeDataDi
    readS := i.readSi
    byteEnableD := i.byteEnableDi
    beginBurstTransferS := i.beginBurstTransferSi
    burstCountD := i.burstCountDi
    addressPD := d.addressD
    writePS := d.writeS
    writeDataPD := d.writeDataD
    byteEnablePD := d.byteEnableD
    beginBurstTransferPS := d.beginBurstTransferS
    burstCountPD := d.burstCountD
    addressPpD := d.addressPD
    writePpS := d.writePS
    writeDataPpD := d.writeDataPD
    byteEnablePpD := d.byteEnablePD
    beginBurstTransferPpS := d.beginBurstTransferPS
    burstCountPpD := d.burstCountPD }

/-- `edgeDetect` at `Reset_NRI = '0'`. -/
def resetEdgeDetect : EdgeDetect :=
  { readEdgeD := false, writeEdgeD := false, readLastD := false, writeLastD := false }

/-- `edgeDetect` at a rising edge of `Clk_CI`. -/
def edgeDetect (e : EdgeDetect) (d : SyncData) : EdgeDetect :=
  { writeEdgeD := if e.writeLastD = false ∧ d.writeS = true then true else false
    writeLastD := d.writeS
    readEdgeD := if e.readLastD = false ∧ d.readS = true then true else false
    readLastD := e.readLastD }

def resetFrontEnd : FrontEnd :=
  { resetSyncData, resetEdgeDetect with }

/-- Both processes at one edge, from the values before it. -/
def frontEnd (f : FrontEnd) (i : Inputs) : FrontEnd :=
  { syncData f.toSyncData i, edgeDetect f.toEdgeDetect f.toSyncData with }

/-! ## The front end along a run -/

variable (i : ℕ → Inputs)

/-- The front end in cycle `t` of the run from reset. -/
def front (t : ℕ) : FrontEnd := run frontEnd resetFrontEnd i t

theorem front_succ (t : ℕ) : front i (t + 1) = frontEnd (front i t) (i t) := rfl

theorem run_writeS (t : ℕ) : (front i t).writeS = delay false (fun t => (i t).writeSi) t := by
  cases t <;> rfl

theorem run_readS (t : ℕ) : (front i t).readS = delay false (fun t => (i t).readSi) t := by
  cases t <;> rfl

theorem run_addressD (t : ℕ) : (front i t).addressD = delay 0 (fun t => (i t).addressDi) t := by
  cases t <;> rfl

theorem run_addressPD (t : ℕ) :
    (front i t).addressPD = delay 0 (delay 0 fun t => (i t).addressDi) t := by
  cases t with
  | zero => rfl
  | succ t => exact run_addressD i t

theorem run_writeDataPD (t : ℕ) :
    (front i t).writeDataPD = delay 0 (delay 0 fun t => (i t).writeDataDi) t := by
  rcases t with _ | _ | t <;> rfl

theorem run_byteEnablePD (t : ℕ) :
    (front i t).byteEnablePD = delay 0 (delay 0 fun t => (i t).byteEnableDi) t := by
  rcases t with _ | _ | t <;> rfl

theorem run_beginBurstTransferPS (t : ℕ) :
    (front i t).beginBurstTransferPS =
      delay false (delay false fun t => (i t).beginBurstTransferSi) t := by
  rcases t with _ | _ | t <;> rfl

theorem run_burstCountPD (t : ℕ) :
    (front i t).burstCountPD = delay 0 (delay 0 fun t => (i t).burstCountDi) t := by
  rcases t with _ | _ | t <;> rfl

theorem run_writePpS (t : ℕ) :
    (front i t).writePpS = delay false (delay false (delay false fun t => (i t).writeSi)) t := by
  rcases t with _ | _ | _ | t <;> rfl

theorem run_writeDataPpD (t : ℕ) :
    (front i t).writeDataPpD = delay 0 (delay 0 (delay 0 fun t => (i t).writeDataDi)) t := by
  rcases t with _ | _ | _ | t <;> rfl

theorem run_writeLastD (t : ℕ) :
    (front i t).writeLastD = delay false (delay false fun t => (i t).writeSi) t := by
  cases t with
  | zero => rfl
  | succ t => exact run_writeS i t

/-- **The pulse is the rising edge of `Write_SI`, two cycles late.** -/
theorem run_writeEdgeD (t : ℕ) :
    (front i t).writeEdgeD = delay false (delay false (rises fun t => (i t).writeSi)) t := by
  rcases t with _ | _ | t
  · rfl
  · rfl
  · have hlast := run_writeLastD i (t + 1)
    have hs := run_writeS i (t + 1)
    simp only [delay_succ] at hlast hs ⊢
    rw [front_succ]
    simp only [frontEnd, edgeDetect, hlast, hs, rises]
    cases (i t).writeSi <;> cases delay false (fun t => (i t).writeSi) t <;> rfl

/-- `Read_Last_D` keeps its reset value. -/
theorem run_readLastD (t : ℕ) : (front i t).readLastD = false := by
  induction t with
  | zero => rfl
  | succ t ih => exact ih

/-- **`Read_Edge_D` is the level of `Read_SI`**, two cycles late. -/
theorem run_readEdgeD (t : ℕ) :
    (front i t).readEdgeD = delay false (delay false fun t => (i t).readSi) t := by
  rcases t with _ | _ | t
  · rfl
  · rfl
  · have hs := run_readS i (t + 1)
    simp only [delay_succ] at hs ⊢
    rw [front_succ]
    simp only [frontEnd, edgeDetect, run_readLastD, hs]
    cases (i t).readSi <;> rfl

end Slave

end LcdInterface

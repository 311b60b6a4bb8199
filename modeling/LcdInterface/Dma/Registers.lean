import LcdInterface.Clocked.Handshake
import LcdInterface.Dma.Edge

/-!
# The DMA's registers

`StateIdle` captures an access on `Read_Edge_D`, where `lcdDriver.vhdl` has `Write_Edge_D`: the
registers are loaded from the data lines of the CPU's reads, and its writes do nothing.

* `captured_succ_eq_some`, `evaluated_at`: a captured access is a read, and each register half
  holds the data of the last one captured at its address.
* `writes_ignored`: no register, state or output depends on `Write_SI`.
* `writes_take_effect_iff`: the registers hold the last accepted writes iff, at each address, the
  last write and the last captured read strobe carry the same data. `ctrl_write_lost` is a single
  write.
-/

namespace LcdInterface.Dma

open Clocked Clocked.Handshake

/-! ## The last write to an address -/

section LastWrite

variable {κ α : Type*} [DecidableEq κ]

/-- What the list of writes leaves at address `k`, where `z` was before. -/
def lastWrite (z : α) (writes : List (κ × α)) (k : κ) : α :=
  writes.foldl (fun v w => if w.1 = k then w.2 else v) z

theorem lastWrite_concat (z : α) (writes : List (κ × α)) (w : κ × α) (k : κ) :
    lastWrite z (writes ++ [w]) k = if w.1 = k then w.2 else lastWrite z writes k := by
  simp [lastWrite, List.foldl_append]

end LastWrite

/-! ## Register halves -/

/-- The addresses at which the CPU sets up a transfer. -/
def setupAddresses : List (BitVec 16) :=
  [regStateAddr, regCtrlAddr, regSrcMSWAddr, regSrcLSWAddr, regDestMSWAddr, regDestLSWAddr]

/-- The 16 bits at such an address. -/
def Addressable.at (a : Addressable) (address : BitVec 16) : BitVec 16 :=
  if address = regStateAddr then a.state
  else if address = regCtrlAddr then a.ctrl
  else if address = regSrcMSWAddr then a.src.extractLsb' 16 16
  else if address = regSrcLSWAddr then a.src.extractLsb' 0 16
  else if address = regDestMSWAddr then a.dest.extractLsb' 16 16
  else a.dest.extractLsb' 0 16

theorem maskLSW : ∀ j < 32, (0x0000FFFF#32).getLsbD j = decide (j < 16) := by decide

theorem maskMSW : ∀ j < 32, (0xFFFF0000#32).getLsbD j = decide (16 ≤ j) := by decide

theorem withMSW_high (r : BitVec 32) (v : BitVec 16) : (withMSW r v).extractLsb' 16 16 = v := by
  refine BitVec.eq_of_getLsbD_eq fun j hj => ?_
  have h32 : decide (16 + j < 32) = true := by simp; omega
  have h16 : decide (16 + j < 16) = false := by simp
  have hj32 : decide (j < 32) = true := by simp; omega
  simp only [withMSW, BitVec.getLsbD_extractLsb', BitVec.getLsbD_or, BitVec.getLsbD_and,
    maskLSW (16 + j) (by omega), BitVec.getLsbD_shiftLeft, BitVec.getLsbD_setWidth, h32, h16, hj32,
    hj, Nat.add_sub_cancel_left, decide_true, Bool.and_false, Bool.false_or, Bool.not_false,
    Bool.true_and]

theorem withMSW_low (r : BitVec 32) (v : BitVec 16) :
    (withMSW r v).extractLsb' 0 16 = r.extractLsb' 0 16 := by
  ext j hj
  simp [withMSW, maskLSW j (by omega), hj]

theorem withLSW_high (r : BitVec 32) (v : BitVec 16) :
    (withLSW r v).extractLsb' 16 16 = r.extractLsb' 16 16 := by
  ext j hj
  simp [withLSW, maskMSW (16 + j) (by omega)]

theorem withLSW_low (r : BitVec 32) (v : BitVec 16) : (withLSW r v).extractLsb' 0 16 = v := by
  refine BitVec.eq_of_getLsbD_eq fun j hj => ?_
  have h16 : decide (16 ≤ j) = false := by simp; omega
  have hj32 : decide (j < 32) = true := by simp; omega
  simp [withLSW, maskMSW j (by omega), h16, hj32, hj]

theorem store_at_same (a : Addressable) (data : BitVec 16) {k : BitVec 16}
    (hk : k ∈ setupAddresses) : (a.store k data).at k = data := by
  simp only [setupAddresses, List.mem_cons, List.not_mem_nil, or_false] at hk
  rcases hk with rfl | rfl | rfl | rfl | rfl | rfl
  · rfl
  · rfl
  · exact withMSW_high _ _
  · exact withLSW_low _ _
  · exact withMSW_high _ _
  · exact withLSW_low _ _

/-- The other half of a 32-bit register stays. -/
theorem store_at_other (a : Addressable) {address k : BitVec 16} (data : BitVec 16)
    (hk : k ∈ setupAddresses) (hne : address ≠ k) : (a.store address data).at k = a.at k := by
  simp only [setupAddresses, List.mem_cons, List.not_mem_nil, or_false] at hk
  unfold Addressable.store
  split_ifs
  -- `RegSrc` and `RegDest` each have two addresses, every other register one or none
  all_goals
    rcases hk with rfl | rfl | rfl | rfl | rfl | rfl <;>
      first
      | contradiction
      | rfl
      | exact withMSW_low _ _
      | exact withLSW_high _ _

theorem store_at (a : Addressable) (address data : BitVec 16) {k : BitVec 16}
    (hk : k ∈ setupAddresses) :
    (a.store address data).at k = if address = k then data else a.at k := by
  by_cases h : address = k
  · rw [if_pos h, h]
    exact store_at_same a data hk
  · rw [if_neg h]
    exact store_at_other a data hk h

theorem zero_at (k : BitVec 16) : (⟨0, 0, 0, 0, 0, 0⟩ : Addressable).at k = 0 := by
  unfold Addressable.at
  split_ifs <;> rfl

/-- `RegData` is none of the halves. -/
theorem data_at (a : Addressable) (v k : BitVec 16) :
    ({ a with data := v } : Addressable).at k = a.at k := rfl

/-! ## Captured accesses -/

section Captures

variable (d : Signals) (i : ℕ → Inputs)

/-- The access captured in cycle `t`: `Read_Edge_D = '1'` in `StateIdle`. -/
def captured (t : ℕ) : Option (BitVec 16 × BitVec 16) :=
  if state d i t = .stateIdle ∧ (cycle d i t).readEdgeD = true then
    some ((cycle d i t).addressPD, (cycle d i t).writeDataPD)
  else none

/-- The registers as they will be once a captured access has been evaluated. -/
def evaluated (t : ℕ) : Addressable :=
  if state d i t = .stateEvalData then
    (addressable (cycle d i t).toRegs).store (cycle d i t).regAddressPresD
      (cycle d i t).regRxDataPresD
  else addressable (cycle d i t).toRegs

variable {d i}

theorem evaluated_of_ne {t : ℕ} (h : state d i t ≠ .stateEvalData) :
    evaluated d i t = addressable (cycle d i t).toRegs := if_neg h

theorem captured_eq_some {t : ℕ} {w : BitVec 16 × BitVec 16} :
    captured d i t = some w ↔
      (state d i t = .stateIdle ∧ (cycle d i t).readEdgeD = true) ∧
        ((cycle d i t).addressPD, (cycle d i t).writeDataPD) = w := by
  unfold captured
  split <;> simp_all

/-- **A captured access is a read** of two cycles ago, with whatever was on the data lines. -/
theorem captured_succ_eq_some {t : ℕ} {w : BitVec 16 × BitVec 16} :
    captured d i (t + 2) = some w ↔
      (state d i (t + 2) = .stateIdle ∧ (i t).readSi = true) ∧
        ((i t).addressDi, (i t).writeDataDi) = w := by
  rw [captured_eq_some, cycle_front, Slave.run_readEdgeD, Slave.run_addressPD,
    Slave.run_writeDataPD]
  rfl

/-- A capture is evaluated in the next cycle. -/
theorem evaluated_succ_some {t : ℕ} {w : BitVec 16 × BitVec 16} (h : captured d i t = some w) :
    evaluated d i (t + 1) = (evaluated d i t).store w.1 w.2 := by
  obtain ⟨⟨hq, he⟩, rfl⟩ := captured_eq_some.mp h
  obtain ⟨h1, h2, h3, h4⟩ := edge_idle_some (x := i t) hq he
  have hnext : state d i (t + 1) = .stateEvalData := h1
  rw [evaluated, if_pos hnext, cycle_succ, h2, h3, h4, evaluated_of_ne (by rw [hq]; simp)]

/-- Without one the halves stay. -/
theorem evaluated_succ_none {t : ℕ} (h : captured d i t = none) (k : BitVec 16) :
    (evaluated d i (t + 1)).at k = (evaluated d i t).at k := by
  have hne : state d i (t + 1) ≠ .stateEvalData := by
    intro hn
    rw [captured_eq_some.mpr ⟨idle_of_edge (live_cycle t) hn, rfl⟩] at h
    simp at h
  rw [evaluated_of_ne hne, cycle_succ]
  cases hq : state d i t with
  | stateResetIntRegData => exact absurd hq (live_cycle t).ne_resetIntRegData
  | stateNextBurstItem => exact absurd hq (live_cycle t).ne_nextBurstItem
  | stateReset =>
    cases t with
    | zero => rw [(edge_reset hq).2]; rfl
    | succ t => exact absurd hq (ne_reset_edge (live_cycle t))
  | stateIdle =>
    have he : (cycle d i t).readEdgeD = false := by
      by_contra he
      rw [captured_eq_some.mpr ⟨⟨hq, by simpa using he⟩, rfl⟩] at h
      simp at h
    rw [(edge_idle_none hq he).2, evaluated_of_ne (by rw [hq]; simp)]
  | stateEvalData => rw [(edge_evalData hq).2, evaluated, if_pos hq]
  | stateRequestRx => rw [(edge_requestRx hq).2, evaluated_of_ne (by rw [hq]; simp)]
  | stateRx => rw [(edge_rx hq).2, data_at, evaluated_of_ne (by rw [hq]; simp)]
  | stateTx => rw [(edge_tx hq).2, evaluated_of_ne (by rw [hq]; simp)]

/-- **Each half holds the data of the last captured access to its address.** -/
theorem evaluated_at {k : BitVec 16} (hk : k ∈ setupAddresses) (t : ℕ) :
    (evaluated d i t).at k = lastWrite 0 (log (captured d i) t) k := by
  induction t with
  | zero => exact zero_at k
  | succ t ih =>
    cases hc : captured d i t with
    | none => rw [evaluated_succ_none hc, log_succ_none hc, ih]
    | some w =>
      rw [evaluated_succ_some hc, log_succ_some hc, store_at _ _ _ hk, lastWrite_concat, ih]

end Captures

/-! ## `Write_SI` has no effect -/

/-- The inputs without `Write_SI`. -/
def silent (x : Inputs) : Inputs := { x with writeSi := false }

/-- The registers without the copies of `Write_SI` and its edge detector. -/
def withoutWrite (r : Regs) : Regs :=
  { r with
    writeS := false, writePS := false, writePpS := false, writeLastD := false, writeEdgeD := false }

theorem logic_withoutWrite (r : Regs) (l : Logic) : logic (withoutWrite r) l = logic r l := by
  unfold logic
  show branch r.statePresD _ _ = branch r.statePresD _ _
  cases r.statePresD with
  | stateReset => rfl
  | stateResetIntRegData => rfl
  | stateIdle => rfl
  | stateNextBurstItem => rfl
  | stateEvalData => rfl
  | stateRequestRx => rfl
  | stateRx => rfl
  | stateTx => rfl

theorem clock_withoutWrite (r : Regs) (l : Logic) (x : Inputs) :
    withoutWrite (clock (withoutWrite r) l (silent x)) = withoutWrite (clock r l x) := rfl

/-- The two runs are the same but for the copies of `Write_SI`. -/
structure SameButWrite (d' d : Signals) : Prop where
  regs : withoutWrite d'.toRegs = withoutWrite d.toRegs
  logic : d'.toLogic = d.toLogic

/-- A part of the registers (all but what `m` erases) that no clocked process mixes with the rest
stays the same from edge to edge. -/
theorem edge_regs_congr {m : Regs → Regs} {q : Inputs → Inputs}
    (hclock : ∀ r l x, m (clock (m r) l (q x)) = m (clock r l x)) {d' d : Signals} {x' x : Inputs}
    (hregs : m d'.toRegs = m d.toRegs) (hlogic : d'.toLogic = d.toLogic) (hx : q x' = q x) :
    m (edge d' x').toRegs = m (edge d x).toRegs := by
  show m (clock d'.toRegs d'.toLogic x') = m (clock d.toRegs d.toLogic x)
  rw [← hclock, hregs, hlogic, hx, hclock]

theorem sameButWrite_edge {d' d : Signals} {x' x : Inputs} (h : SameButWrite d' d)
    (hx : silent x' = silent x) : SameButWrite (edge d' x') (edge d x) := by
  have hregs : withoutWrite (edge d' x').toRegs = withoutWrite (edge d x).toRegs :=
    edge_regs_congr clock_withoutWrite h.regs h.logic hx
  refine ⟨hregs, ?_⟩
  show Dma.logic (edge d' x').toRegs d'.toLogic = Dma.logic (edge d x).toRegs d.toLogic
  rw [← logic_withoutWrite, hregs, h.logic, logic_withoutWrite]

/-- **No register, state or output depends on `Write_SI`.** -/
theorem writes_ignored {d : Signals} {i i' : ℕ → Inputs} (h : ∀ t, silent (i' t) = silent (i t))
    (t : ℕ) : SameButWrite (cycle d i' t) (cycle d i t) := by
  induction t with
  | zero => exact ⟨rfl, rfl⟩
  | succ t ih => exact sameButWrite_edge ih (h t)

/-! ## Accepted writes -/

section Writes

variable (d : Signals) (i : ℕ → Inputs)

/-- The CPU's write accepted in cycle `t`. -/
def acceptedStore : ℕ → Option (BitVec 16 × BitVec 16) :=
  accepted (fun t => (i t).writeSi) (fun t => (cycle d i t).waitReqSo) fun t =>
    ((i t).addressDi, (i t).writeDataDi)

/-- `StateIdle`, and no access on the port or in the pipeline. -/
structure Quiet (t : ℕ) : Prop where
  idle : state d i t = .stateIdle
  port : (i t).writeSi = false ∧ (i t).readSi = false
  sampled : (cycle d i t).writeS = false ∧ (cycle d i t).readS = false
  pulse : (cycle d i t).writeEdgeD = false ∧ (cycle d i t).readEdgeD = false

/-- `i'` is `i` less some writes to `RegErrorAddr`, `RegReservedAddr` or unmapped addresses. -/
def DropsUnmapped (i i' : ℕ → Inputs) : Prop :=
  ∀ t, i' t = i t ∨ (i t).addressDi ∉ regDataAddr :: setupAddresses ∧ i' t = silent (i t)

example : regErrorAddr ∉ regDataAddr :: setupAddresses ∧
    regReservedAddr ∉ regDataAddr :: setupAddresses := by decide

/-- The CPU's writes take effect, and only where they should. -/
structure WritesTakeEffect : Prop where
  holds : ∀ t, Quiet d i t → ∀ k ∈ setupAddresses,
    (addressable (cycle d i t).toRegs).at k = lastWrite 0 (log (acceptedStore d i) t) k
  others : ∀ i', DropsUnmapped i i' → ∀ t,
    addressable (cycle d i' t).toRegs = addressable (cycle d i t).toRegs

variable {d i}

theorem addressable_of_dropsUnmapped {i' : ℕ → Inputs} (h : DropsUnmapped i i') (t : ℕ) :
    addressable (cycle d i' t).toRegs = addressable (cycle d i t).toRegs := by
  have hsilent : ∀ t, silent (i' t) = silent (i t) := by
    intro t
    rcases h t with he | ⟨-, he⟩
    · rw [he]
    · rw [he]
      rfl
  have hregs := (writes_ignored (d := d) hsilent t).regs
  have hsame : ∀ r : Regs, addressable r = addressable (withoutWrite r) := fun _ => rfl
  rw [hsame, hregs, ← hsame]

/-- **Register writes take effect iff** in every quiet cycle the last accepted write and the last
captured read strobe at each address carry the same data. -/
theorem writes_take_effect_iff (d : Signals) (i : ℕ → Inputs) :
    WritesTakeEffect d i ↔ ∀ t, Quiet d i t → ∀ k ∈ setupAddresses,
      lastWrite 0 (log (captured d i) t) k = lastWrite 0 (log (acceptedStore d i) t) k := by
  have hat : ∀ t, Quiet d i t → ∀ k ∈ setupAddresses,
      (addressable (cycle d i t).toRegs).at k = lastWrite 0 (log (captured d i) t) k := by
    intro t hq k hk
    rw [← evaluated_at hk, evaluated_of_ne (by rw [hq.idle]; simp)]
  constructor
  · intro h t hq k hk
    rw [← hat t hq k hk, h.holds t hq k hk]
  · intro h
    refine ⟨fun t hq k hk => ?_, fun i' hi' t => addressable_of_dropsUnmapped hi' t⟩
    rw [hat t hq k hk, h t hq k hk]

/-- One write of `RegCtrlDma` to the control register. -/
def ctrlWrite (t : ℕ) : Inputs :=
  if t = 2 then
    { quietPort with addressDi := regCtrlAddr, writeSi := true, writeDataDi := 0x0002#16 }
  else quietPort

/-- **It is accepted and lost.** -/
theorem ctrl_write_lost : ¬ WritesTakeEffect fresh ctrlWrite := by
  intro h
  have hquiet : Quiet fresh ctrlWrite 8 :=
    ⟨by decide, by decide, by decide, by decide⟩
  have hctrl := h.holds 8 hquiet regCtrlAddr (by decide)
  revert hctrl
  decide

end Writes

end LcdInterface.Dma

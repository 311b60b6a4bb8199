import LcdInterface.StdLogic
import LcdInterface.Dma.RegisterFile

/-!
# The CPU's reads of the DMA

The slave port has `ReadData_DO` and `ReadDataValid_SO`, which the component description connects
as `readdata` and `readdatavalid`, but no process drives them. A read is accepted at once, is taken
for a write by `StateIdle` (`captured_succ_eq_some`), and is not answered.

* `harmless_of_not_captured`, `Harmless.store_eq`: a read that never finds the machine in
  `StateIdle` changes no register; one that does stores its data lines, so it is harmless only if
  they carry what the register holds.
* `not_readOk`: no read is harmless and answered. `stray_read` is one that changes a register.
-/

namespace LcdInterface.Dma

/-! ## Outputs without a driver -/

/-- `ReadDataValid_SO`. -/
def readDataValidSo (_ : Signals) : StdLogic := .uninitialized

/-- `ReadData_DO`, from bit `0` up. -/
def readDataDo (_ : Signals) (_ : Fin 16) : StdLogic := .uninitialized

/-! ## The machine without the read strobe -/

/-- The inputs without `Read_SI`. -/
def deaf (x : Inputs) : Inputs := { x with readSi := false }

/-- The registers without the copies of `Read_SI`. -/
def withoutStrobe (r : Regs) : Regs := { r with readS := false, readEdgeD := false }

theorem clock_withoutStrobe (r : Regs) (l : Logic) (x : Inputs) :
    withoutStrobe (clock (withoutStrobe r) l (deaf x)) = withoutStrobe (clock r l x) := rfl

/-- Only `StateIdle` looks at the strobe. -/
theorem logic_congr {r' r : Regs} (l : Logic) (h : withoutStrobe r' = withoutStrobe r)
    (hidle : r.statePresD = .stateIdle → r'.readEdgeD = r.readEdgeD) : logic r' l = logic r l := by
  have hstate : (withoutStrobe r').statePresD = (withoutStrobe r).statePresD := by rw [h]
  by_cases hq : r.statePresD = .stateIdle
  · have hsame : { r' with readS := false } = { r with readS := false } := by
      have hfull : ∀ r : Regs, { r with readS := false } =
          { withoutStrobe r with readEdgeD := r.readEdgeD } := fun _ => rfl
      rw [hfull, hfull, h, hidle hq]
    have hread : ∀ r : Regs, r.statePresD = .stateIdle →
        logic r l = logic { r with readS := false } l := by
      intro r hr
      unfold logic
      show branch r.statePresD _ _ = branch r.statePresD _ _
      rw [hr]
      rfl
    have hq' : r'.statePresD = .stateIdle := hstate.trans hq
    rw [hread r' hq', hread r hq, hsame]
  · have hblind : ∀ r : Regs, r.statePresD ≠ .stateIdle →
        logic r l = logic (withoutStrobe r) l := by
      intro r hr
      unfold logic
      show branch r.statePresD _ _ = branch r.statePresD _ _
      cases hs : r.statePresD with
      | stateIdle => exact absurd hs hr
      | stateReset => rfl
      | stateResetIntRegData => rfl
      | stateNextBurstItem => rfl
      | stateEvalData => rfl
      | stateRequestRx => rfl
      | stateRx => rfl
      | stateTx => rfl
    have hq' : r'.statePresD ≠ .stateIdle := fun h' => hq (hstate.symm.trans h')
    rw [hblind r' hq', hblind r hq, h]

/-- The two are the same but for the copies of `Read_SI`. -/
structure SameButRead (d' d : Signals) : Prop where
  regs : withoutStrobe d'.toRegs = withoutStrobe d.toRegs
  logic : d'.toLogic = d.toLogic

theorem SameButRead.edge_regs {d' d : Signals} {x' x : Inputs} (h : SameButRead d' d)
    (hx : deaf x' = deaf x) :
    withoutStrobe (edge d' x').toRegs = withoutStrobe (edge d x).toRegs :=
  edge_regs_congr clock_withoutStrobe h.regs h.logic hx

theorem SameButRead.edge {d' d : Signals} {x' x : Inputs} (h : SameButRead d' d)
    (hx : deaf x' = deaf x)
    (hidle : (edge d x).statePresD = .stateIdle →
      (Dma.edge d' x').readEdgeD = (Dma.edge d x).readEdgeD) :
    SameButRead (Dma.edge d' x') (Dma.edge d x) := by
  refine ⟨h.edge_regs hx, ?_⟩
  show Dma.logic (Dma.edge d' x').toRegs d'.toLogic = Dma.logic (Dma.edge d x).toRegs d.toLogic
  rw [h.logic]
  exact logic_congr _ (h.edge_regs hx) hidle

section Reads

variable (d : Signals) (i : ℕ → Inputs) (b n : ℕ)

/-- The CPU reads in the cycles `b, …, b + n - 1`; address and data lines are arbitrary. -/
structure Reads : Prop where
  pos : 0 < n
  readSi : ∀ t, b ≤ t → t < b + n → (i t).readSi = true
  writeSi : ∀ t, b ≤ t → t < b + n → (i t).writeSi = false

/-- The same inputs without that read. -/
def withoutRead (t : ℕ) : Inputs :=
  if b ≤ t ∧ t < b + n then { i t with readSi := false } else i t

/-- The registers are what they are without the read. -/
def Harmless : Prop :=
  ∀ t, addressable (cycle d i t).toRegs = addressable (cycle d (withoutRead i b n) t).toRegs

/-- A cycle in which the read is accepted. -/
structure Accepted (t : ℕ) : Prop where
  le : b ≤ t
  lt : t < b + n
  waitReqSo : (cycle d i t).waitReqSo = false

/-- The register that is read at `address`. -/
def Addressable.read (a : Addressable) (address : BitVec 16) : BitVec 16 :=
  if address = regErrorAddr then a.error else a.cell address

/-- What a read should do; `answer t` is the cycle that answers the read accepted in cycle `t`. -/
structure ReadOk (answer : ℕ → ℕ) : Prop where
  harmless : Harmless d i b n
  valid : ∀ t, Accepted d i b n t → t ≤ answer t ∧ readDataValidSo (cycle d i (answer t)) = .one
  data : ∀ t, Accepted d i b n t → (i t).addressDi ∈ regErrorAddr :: cellAddresses →
    ∀ k, readDataDo (cycle d i (answer t)) k =
      .ofBool (((addressable (cycle d i t).toRegs).read (i t).addressDi).getLsbD k)
  once : ∀ t t', Accepted d i b n t → Accepted d i b n t' → answer t = answer t' → t = t'

variable {d i b n}

theorem deaf_withoutRead (t : ℕ) : deaf (withoutRead i b n t) = deaf (i t) := by
  unfold withoutRead
  split <;> rfl

/-- In `StateIdle` the strobes agree unless it is the read that is seen. -/
theorem readEdgeD_withoutRead {t : ℕ}
    (h : ∀ u, t = u + 2 → b ≤ u → ¬ u < b + n) :
    (cycle d (withoutRead i b n) t).readEdgeD = (cycle d i t).readEdgeD := by
  rcases t with _ | _ | u
  · rfl
  · rw [readEdgeD_eq, readEdgeD_eq]
    rfl
  · have hout : ¬ (b ≤ u ∧ u < b + n) := fun hu => h u rfl hu.1 hu.2
    rw [readEdgeD_succ, readEdgeD_succ, withoutRead, if_neg hout]

/-- **Up to its first capture a read changes nothing** but the copies of `Read_SI`. -/
theorem sameButRead_cycle {m : ℕ}
    (h : ∀ t, b ≤ t → t < b + n → t + 2 < m → state d i (t + 2) ≠ .stateIdle) {t : ℕ}
    (ht : t < m) : SameButRead (cycle d (withoutRead i b n) t) (cycle d i t) := by
  induction t with
  | zero => exact ⟨rfl, rfl⟩
  | succ t ih =>
    refine (ih (by omega)).edge (deaf_withoutRead t) fun hidle => ?_
    have hstrobe : (cycle d (withoutRead i b n) (t + 1)).readEdgeD =
        (cycle d i (t + 1)).readEdgeD := by
      refine readEdgeD_withoutRead fun u hu hbu hun => ?_
      obtain rfl : t = u + 1 := by omega
      exact h u hbu hun ht hidle
    exact hstrobe

theorem addressable_withoutStrobe {r' r : Regs} (h : withoutStrobe r' = withoutStrobe r) :
    addressable r' = addressable r := by
  have hsame : ∀ r : Regs, addressable r = addressable (withoutStrobe r) := fun _ => rfl
  rw [hsame r', h, ← hsame]

/-- **A read that is never captured is harmless.** -/
theorem harmless_of_not_captured
    (h : ∀ t, b ≤ t → t < b + n → state d i (t + 2) ≠ .stateIdle) : Harmless d i b n := by
  intro t
  have hsame := sameButRead_cycle (m := t + 1) (fun u hbu hun _ => h u hbu hun)
    (Nat.lt_succ_self t)
  exact (addressable_withoutStrobe hsame.regs).symm

/-- A captured access is in the registers two cycles later. -/
theorem stored_of_captured {t : ℕ} (hidle : state d i (t + 2) = .stateIdle)
    (hread : (i t).readSi = true) :
    addressable (cycle d i (t + 4)).toRegs =
      (addressable (cycle d i (t + 2)).toRegs).store (i t).addressDi (i t).writeDataDi := by
  have hc : captured d i (t + 2) = some ((i t).addressDi, (i t).writeDataDi) :=
    captured_succ_eq_some.mpr ⟨⟨hidle, hread⟩, rfl⟩
  have heval : state d i (t + 3) = .stateEvalData :=
    (edge_idle_some (x := i (t + 2)) hidle ((readEdgeD_succ t).trans hread)).1
  have hnow : evaluated d i (t + 2) = addressable (cycle d i (t + 2)).toRegs :=
    evaluated_of_ne (by rw [hidle]; simp)
  have hthen : evaluated d i (t + 3) = addressable (cycle d i (t + 4)).toRegs := by
    rw [evaluated, if_pos heval]
    exact (edge_evalData (x := i (t + 3)) heval).2.symm
  rw [← hthen, ← hnow]
  exact evaluated_succ_some hc

/-- Without one they are the same for two cycles. -/
theorem kept_of_idle {t : ℕ} (hidle : state d i t = .stateIdle)
    (hstrobe : (cycle d i t).readEdgeD = false) :
    addressable (cycle d i (t + 2)).toRegs = addressable (cycle d i t).toRegs := by
  obtain ⟨hnext, hkept⟩ := edge_idle_none (x := i t) hidle hstrobe
  rw [← cycle_succ] at hnext hkept
  rw [← hkept]
  split at hnext
  · exact (edge_requestRx (x := i (t + 1)) hnext).2
  · cases hs : (cycle d i (t + 1)).readEdgeD with
    | true => exact (edge_idle_some (x := i (t + 1)) hnext hs).2.2.2
    | false => exact (edge_idle_none (x := i (t + 1)) hnext hs).2

/-- **A captured one is harmless only if** it stores what is there. -/
theorem Harmless.store_eq (h : Harmless d i b n) {t : ℕ} (hbt : b ≤ t) (htn : t < b + n)
    (hread : (i t).readSi = true) (hidle : state d i (t + 2) = .stateIdle)
    (hfirst : ∀ u, b ≤ u → u < t → state d i (u + 2) ≠ .stateIdle) :
    (addressable (cycle d i (t + 2)).toRegs).store (i t).addressDi (i t).writeDataDi =
      addressable (cycle d i (t + 2)).toRegs := by
  have hsame : SameButRead (cycle d (withoutRead i b n) (t + 1)) (cycle d i (t + 1)) :=
    sameButRead_cycle (m := t + 2) (fun u hbu _ hut => hfirst u hbu (by omega)) (by omega)
  have hregs : withoutStrobe (cycle d (withoutRead i b n) (t + 2)).toRegs =
      withoutStrobe (cycle d i (t + 2)).toRegs := hsame.edge_regs (deaf_withoutRead (t + 1))
  have hidle' : state d (withoutRead i b n) (t + 2) = .stateIdle := by
    have hstate : (withoutStrobe (cycle d (withoutRead i b n) (t + 2)).toRegs).statePresD =
        (withoutStrobe (cycle d i (t + 2)).toRegs).statePresD := by rw [hregs]
    exact hstate.trans hidle
  have hstrobe : (cycle d (withoutRead i b n) (t + 2)).readEdgeD = false := by
    rw [readEdgeD_succ, withoutRead, if_pos ⟨hbt, htn⟩]
  rw [← stored_of_captured hidle hread, h (t + 4), kept_of_idle hidle' hstrobe]
  exact addressable_withoutStrobe hregs

/-- The slave port never makes the CPU wait. -/
theorem Reads.accepted (h : Reads i b n) : Accepted d i b n b :=
  ⟨Nat.le_refl b, by have := h.pos; omega, (live_cycle b).waitReqSo⟩

/-- **No read is what it should be**, in any reachable state. -/
theorem not_readOk (h : Reads i b n) : ¬ ∃ answer, ReadOk d i b n answer := by
  rintro ⟨answer, hok⟩
  have hvalid := (hok.valid b h.accepted).2
  simp [readDataValidSo] at hvalid

end Reads

/-- A read of `RegSrcMSWAddr` in cycle `2`, with something on the data lines. -/
def strayRead (t : ℕ) : Inputs :=
  if t = 2 then
    { quietPort with addressDi := regSrcMSWAddr, writeDataDi := 0xBEEF#16, readSi := true }
  else quietPort

theorem reads_strayRead : Reads strayRead 2 1 := by
  have hport : ∀ t, 2 ≤ t → t < 2 + 1 → strayRead t = strayRead 2 := by
    intro t h1 h2
    rw [show t = 2 by omega]
  refine ⟨by omega, fun t h1 h2 => ?_, fun t h1 h2 => ?_⟩
  · rw [hport t h1 h2]
    rfl
  · rw [hport t h1 h2]
    rfl

theorem stray_read_not_ok : ¬ ∃ answer, ReadOk fresh strayRead 2 1 answer :=
  not_readOk reads_strayRead

/-- **It overwrites half of `RegSrc`, and `ReadDataValid_SO` is never `'1'`.** -/
theorem stray_read :
    Reads strayRead 2 1 ∧ Accepted fresh strayRead 2 1 2 ∧
      (cycle fresh strayRead 6).regSrcPresD = 0xBEEF0000#32 ∧
      (cycle fresh (withoutRead strayRead 2 1) 6).regSrcPresD = 0 ∧
      ∀ t, readDataValidSo (cycle fresh strayRead t) ≠ .one := by
  refine ⟨reads_strayRead, reads_strayRead.accepted, by decide, by decide, fun t => ?_⟩
  simp [readDataValidSo]

end LcdInterface.Dma

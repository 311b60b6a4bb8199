import LcdInterface.Dma.Master
import LcdInterface.Dma.RegisterFile
import LcdInterface.Dma.Simulation

/-!
# What the DMA amounts to

`dma.vhdl` has some fifty registers. A machine of six phases, the registers the CPU addresses and
four flip-flops at the inputs does the same, whatever happens on the pins and wherever a reset
comes.

* `refines_core`: every edge and every reset of the architecture is one of `Core`, and the outputs
  are those of `Core`.
* `reset_erases`: from a reset on, the DMA is a function of the reads on the slave port, of the
  words that arrive and of `Master_WaitReq_SI`. Nothing from before the reset is left, and no other
  input matters.
* `never_happens`: the interrupt, the error register and the burst are never used.
* `made_of_active`: the master port is at rest unless the CPU has loaded `RegCtrlGo` since the last
  reset.
-/

namespace LcdInterface.Dma

open Clocked

/-! ## The machine -/

/-- Where the machine is; in `StateEvalData` with the access it evaluates. -/
inductive Phase where
  | reset
  | idle
  | eval (address data : BitVec 16)
  | request
  | read
  | write
  deriving DecidableEq, Repr

/-- What the machine sees of the inputs. -/
structure Seen where
  access : Option (BitVec 16 × BitVec 16)
  wait : Bool
  word : Option (BitVec 16)
  deriving DecidableEq, Repr

structure Core where
  phase : Phase
  regs : Addressable
  /-- The access in `syncData`. -/
  sampled : Option (BitVec 16 × BitVec 16)
  /-- The access behind `edgeDetect`. -/
  pulse : Option (BitVec 16 × BitVec 16)
  waited : Bool
  word : Option (BitVec 16)
  deriving DecidableEq, Repr

def Core.init : Core := ⟨.reset, ⟨0, 0, 0, 0, 0, 0⟩, none, none, false, none⟩

/-- Phase and registers in the next cycle. -/
def Core.next (c : Core) : Phase × Addressable :=
  match c.phase with
  | .reset => (.idle, ⟨0, 0, 0, 0, 0, 0⟩)
  | .idle =>
    match c.pulse with
    | some (address, data) => (.eval address data, c.regs)
    | none => (if c.regs.ctrl &&& regCtrlGo ≠ 0 then .request else .idle, c.regs)
  | .eval address data => (.idle, c.regs.store address data)
  | .request => (if c.waited then .read else .request, c.regs)
  | .read =>
    match c.word with
    | some w => (.write, { c.regs with data := w })
    | none => (.request, c.regs)
  | .write => (if c.waited then .write else .idle, c.regs)

def Core.step (c : Core) (o : Seen) : Core :=
  { phase := c.next.1
    regs := c.next.2
    sampled := o.access
    pulse := c.sampled
    waited := o.wait
    word := o.word }

/-- A clock edge, or a reset. -/
def Core.handle (c : Core) : Option Seen → Core
  | some o => c.step o
  | none => .init

def Core.port (c : Core) : MasterPort :=
  match c.phase with
  | .request | .read => ⟨c.regs.src, false, true, false, 0⟩
  | .write => ⟨c.regs.dest, false, false, true, c.regs.data⟩
  | _ => ⟨0, false, false, false, 0⟩

/-! ## The refinement -/

def phaseOf (r : Regs) : Phase :=
  match r.statePresD with
  | .stateIdle | .stateNextBurstItem => .idle
  | .stateEvalData => .eval r.regAddressPresD r.regRxDataPresD
  | .stateRequestRx => .request
  | .stateRx => .read
  | .stateTx => .write
  | _ => .reset

def coreOf (r : Regs) : Core :=
  { phase := phaseOf r
    regs := addressable r
    sampled := if r.readS then some (r.addressD, r.writeDataD) else none
    pulse := if r.readEdgeD then some (r.addressPD, r.writeDataPD) else none
    waited := r.masterWaitReqS
    word := if r.masterReadDataValidS then some r.masterReadDataD else none }

def seen (x : Inputs) : Seen :=
  { access := if x.readSi then some (x.addressDi, x.writeDataDi) else none
    wait := x.masterWaitReqSi
    word := if x.masterReadDataValidSi then some x.masterReadDataDi else none }

def seenEvent : Event → Option Seen
  | .edge x => some (seen x)
  | .reset => none

variable {d : Signals} {x : Inputs}

/-- The flip-flops at the inputs. `Read_Last_D` is never set. -/
theorem pulse_edge (h : d.readLastD = false) :
    (coreOf (edge d x).toRegs).pulse = (coreOf d.toRegs).sampled := by
  show (if (if d.readLastD = false ∧ d.readS = true then true else false) then
    some (d.addressD, d.writeDataD) else none) = _
  rw [h]
  unfold coreOf
  cases d.readS <;> rfl

/-- **Phase and registers**, state by state. -/
theorem next_edge (h : Live d) :
    (phaseOf (edge d x).toRegs, addressable (edge d x).toRegs) = (coreOf d.toRegs).next := by
  unfold Core.next coreOf
  unfold phaseOf
  cases hq : d.statePresD with
  | stateResetIntRegData => exact absurd hq h.ne_resetIntRegData
  | stateNextBurstItem => exact absurd hq h.ne_nextBurstItem
  | stateReset =>
    obtain ⟨hst, hreg⟩ := edge_reset (x := x) hq
    rw [hst, hreg]
  | stateIdle =>
    cases he : d.readEdgeD with
    | true =>
      obtain ⟨hst, haddr, hdata, hreg⟩ := edge_idle_some (x := x) hq he
      rw [hst, haddr, hdata, hreg]
      rfl
    | false =>
      obtain ⟨hst, hreg⟩ := edge_idle_none (x := x) hq he
      rw [hst, hreg]
      by_cases hgo : d.regCtrlPresD &&& regCtrlGo ≠ 0
      · rw [if_pos hgo]
        exact Prod.ext (if_pos hgo).symm rfl
      · rw [if_neg hgo]
        exact Prod.ext (if_neg hgo).symm rfl
  | stateEvalData =>
    obtain ⟨hst, hreg⟩ := edge_evalData (x := x) hq
    rw [hst, hreg]
  | stateRequestRx =>
    obtain ⟨hst, hreg⟩ := edge_requestRx (x := x) hq
    rw [hst, hreg]
    cases d.masterWaitReqS <;> rfl
  | stateRx =>
    obtain ⟨hst, hreg⟩ := edge_rx (x := x) hq
    rw [hst, hreg]
    cases d.masterReadDataValidS <;> rfl
  | stateTx =>
    obtain ⟨hst, hreg⟩ := edge_tx (x := x) hq
    rw [hst, hreg]
    cases d.masterWaitReqS <;> rfl

/-- One edge of the architecture is one step of the machine. -/
theorem coreOf_edge (h : Live d) (hlast : d.readLastD = false) :
    coreOf (edge d x).toRegs = (coreOf d.toRegs).step (seen x) := by
  have hpulse := pulse_edge (x := x) hlast
  have hnext := next_edge (x := x) h
  unfold Core.step
  rw [← hnext, ← hpulse]
  rfl

theorem coreOf_reset (d : Signals) : coreOf (reset d).toRegs = .init := rfl

theorem port_coreOf (h : Live d) : masterPort d.toLogic = (coreOf d.toRegs).port := by
  rw [masterPort_eq h]
  unfold Core.port coreOf phaseOf
  cases hq : d.statePresD with
  | stateResetIntRegData => exact absurd hq h.ne_resetIntRegData
  | stateNextBurstItem => exact absurd hq h.ne_nextBurstItem
  | _ => rfl

section Runs

variable {stream : ℕ → BitVec 16} {e e' : ℕ → Event} {t : ℕ}

theorem readLastD_signals (t : ℕ) : (signals stream e t).readLastD = false := by
  refine run_invariant (P := fun d : Signals => d.readLastD = false) rfl (fun d x h => ?_) t
  cases x with
  | edge x => exact h
  | reset => rfl

/-- The machine of six phases, on the same events. -/
def coreAt (e : ℕ → Event) (t : ℕ) : Core := run Core.handle .init (fun t => seenEvent (e t)) t

theorem coreOf_signals (stream : ℕ → BitVec 16) (t : ℕ) :
    coreOf (signals stream e t).toRegs = coreAt e t := by
  induction t with
  | zero => rfl
  | succ t ih =>
    show _ = (coreAt e t).handle (seenEvent (e t))
    rw [signals_succ, ← ih]
    cases e t with
    | edge x => exact coreOf_edge (live_signals t) (readLastD_signals t)
    | reset => exact coreOf_reset _

/-- What the DMA shows, in phase, registers and outputs. -/
structure Behaves (d : Signals) (c : Core) : Prop where
  core : coreOf d.toRegs = c
  port : masterPort d.toLogic = c.port
  waitReqSo : d.waitReqSo = false

/-- **The architecture is the machine**, from any contents of the burst stream, on any inputs and
with resets anywhere. -/
theorem refines_core (stream : ℕ → BitVec 16) (e : ℕ → Event) (t : ℕ) :
    Behaves (signals stream e t) (coreAt e t) := by
  have hlive : Live (signals stream e t) := live_signals t
  exact ⟨coreOf_signals stream t, by rw [port_coreOf hlive, coreOf_signals], hlive.waitReqSo⟩

/-- From a reset on, only what is seen matters. -/
theorem coreAt_reset {a b n : ℕ} (ha : e a = .reset) (hb : e' b = .reset)
    (h : ∀ k, k < n → seenEvent (e (a + 1 + k)) = seenEvent (e' (b + 1 + k))) :
    coreAt e (a + 1 + n) = coreAt e' (b + 1 + n) := by
  induction n with
  | zero =>
    show (coreAt e a).handle (seenEvent (e a)) = (coreAt e' b).handle (seenEvent (e' b))
    rw [ha, hb]
    rfl
  | succ n ih =>
    show (coreAt e (a + 1 + n)).handle (seenEvent (e (a + 1 + n))) =
      (coreAt e' (b + 1 + n)).handle (seenEvent (e' (b + 1 + n)))
    rw [ih fun k hk => h k (by omega), h n (by omega)]

/-- The state of the DMA, less what nobody sees of it. -/
structure SameDma (d d' : Signals) : Prop where
  state : d.statePresD = d'.statePresD
  addressable : addressable d.toRegs = addressable d'.toRegs
  port : masterPort d.toLogic = masterPort d'.toLogic

theorem phaseOf_inj {d d' : Signals} (h : Live d) (h' : Live d')
    (hp : phaseOf d.toRegs = phaseOf d'.toRegs) : d.statePresD = d'.statePresD := by
  have h1 := h.ne_resetIntRegData
  have h2 := h.ne_nextBurstItem
  have h1' := h'.ne_resetIntRegData
  have h2' := h'.ne_nextBurstItem
  unfold phaseOf at hp
  cases hq : d.statePresD <;> cases hq' : d'.statePresD <;> simp_all

/-- **A reset erases everything**, and from then on the DMA depends on what `seen` keeps of the
inputs. -/
theorem reset_erases (stream stream' : ℕ → BitVec 16) {a b n : ℕ} (ha : e a = .reset)
    (hb : e' b = .reset)
    (h : ∀ k, k < n → seenEvent (e (a + 1 + k)) = seenEvent (e' (b + 1 + k))) :
    SameDma (signals stream e (a + 1 + n)) (signals stream' e' (b + 1 + n)) := by
  have hcore : coreOf (signals stream e (a + 1 + n)).toRegs =
      coreOf (signals stream' e' (b + 1 + n)).toRegs := by
    rw [coreOf_signals, coreOf_signals, coreAt_reset ha hb h]
  refine ⟨?_, congrArg Core.regs hcore, ?_⟩
  · exact phaseOf_inj (live_signals _) (live_signals _) (congrArg Core.phase hcore)
  · rw [port_coreOf (live_signals _), port_coreOf (live_signals _), hcore]

/-! ## What never happens -/

/-- What no run does. -/
structure Never (stream : ℕ → BitVec 16) (d : Signals) : Prop where
  irq : d.masterIrqSo = false
  waitReq : d.waitReqSo = false
  /-- Not both at once. -/
  exclusive : ¬ (d.masterReadSo = true ∧ d.masterWriteSo = true)
  error : d.regErrorPresD = 0
  burstCount : d.regBurstCountPresD = 0
  streamCount : d.burstStreamCountPresD = 0
  /-- `burstStream` never stores a word. -/
  stream : d.burstStreamD = stream

theorem burstStream_kept (r : Regs) (h : r.regBurstCountPresD = 0) :
    (burstStream r).burstStreamD = r.burstStreamD ∧
      ((burstStream r).burstStreamCountNextD = r.burstStreamCountPresD ∨
        (burstStream r).burstStreamCountNextD = 0) := by
  have hlt : ¬ (r.masterReadDataValidS = true ∧
      r.burstStreamCountPresD < r.regBurstCountPresD) := by
    rw [h]
    exact fun hlt => absurd hlt.2 BitVec.not_lt_zero
  unfold burstStream
  by_cases hq : r.statePresD = .stateRx
  · rw [if_pos hq, if_neg hlt]
    exact ⟨rfl, Or.inl rfl⟩
  · rw [if_neg hq]
    exact ⟨rfl, Or.inr rfl⟩

/-- `RegBurstCountPres_D` keeps its reset value, so `burstStream` never stores. -/
structure NoBurst (stream : ℕ → BitVec 16) (d : Signals) : Prop where
  burstCount : d.regBurstCountPresD = 0
  streamCount : d.burstStreamCountPresD = 0
  streamCountNext : d.burstStreamCountNextD = 0
  stream : d.burstStreamD = stream

theorem noBurst_handle (h : NoBurst stream d) (x : Event) : NoBurst stream (handle d x) := by
  cases x with
  | edge x =>
    obtain ⟨hstream, hnext⟩ := burstStream_kept d.toRegs h.burstCount
    refine ⟨h.burstCount, h.streamCountNext, ?_, hstream.trans h.stream⟩
    rcases hnext with hnext | hnext
    · exact hnext.trans h.streamCount
    · exact hnext
  | reset => exact ⟨rfl, rfl, rfl, h.stream⟩

theorem error_next {c : Core} (h : c.regs.error = 0) : c.next.2.error = 0 := by
  unfold Core.next
  cases hp : c.phase with
  | reset => rfl
  | eval address data => exact (c.regs.store_error address data).trans h
  | idle => cases c.pulse <;> exact h
  | read => cases c.word <;> exact h
  | _ => exact h

theorem error_coreAt (t : ℕ) : (coreAt e t).regs.error = 0 := by
  refine run_invariant (P := fun c : Core => c.regs.error = 0) rfl (fun c o h => ?_) t
  cases o with
  | none => rfl
  | some o => exact error_next h

/-- **No run does any of this.** -/
theorem never_happens (stream : ℕ → BitVec 16) (e : ℕ → Event) (t : ℕ) :
    Never stream (signals stream e t) := by
  have hlive : Live (signals stream e t) := live_signals t
  have hburst : NoBurst stream (signals stream e t) :=
    run_invariant (P := NoBurst stream) ⟨rfl, rfl, rfl, rfl⟩ (fun _ x h => noBurst_handle h x) t
  have herror := error_coreAt (e := e) t
  rw [← coreOf_signals stream] at herror
  refine ⟨?_, hlive.waitReqSo, ?_, herror, hburst.burstCount, hburst.streamCount, hburst.stream⟩
  · have hirq := congrArg MasterPort.irq (masterPort_eq hlive)
    refine Eq.trans hirq ?_
    split <;> rfl
  · rw [read_iff hlive, write_iff hlive]
    rintro ⟨h | h, hw⟩
    · rw [h] at hw
      cases hw
    · rw [h] at hw
      cases hw

/-! ## No transfer without `RegCtrlGo` -/

/-- The access `w` was made since the last reset. -/
def Made (e : ℕ → Event) (t : ℕ) (w : BitVec 16 × BitVec 16) : Prop :=
  ∃ u x, u < t ∧ e u = .edge x ∧ (seen x).access = some w ∧ ∀ v, u < v → v < t → e v ≠ .reset

theorem Made.succ {t : ℕ} {w : BitVec 16 × BitVec 16} (h : Made e t w) (he : e t ≠ .reset) :
    Made e (t + 1) w := by
  obtain ⟨u, x, hut, hx, hw, hno⟩ := h
  refine ⟨u, x, by omega, hx, hw, fun v huv hv => ?_⟩
  rcases Nat.lt_succ_iff_lt_or_eq.mp hv with hlt | rfl
  · exact hno v huv hlt
  · exact he

/-- The phases of a transfer. -/
def Phase.Transfers (p : Phase) : Prop := p = .request ∨ p = .read ∨ p = .write

/-- The access evaluated was made, so was the last one that set `RegCtrl`, and no transfer runs
without `RegCtrlGo`. -/
structure Justified (e : ℕ → Event) (t : ℕ) (p : Phase) (a : Addressable) : Prop where
  eval : ∀ address data, p = .eval address data → Made e t (address, data)
  ctrl : a.ctrl = 0 ∨ Made e t (regCtrlAddr, a.ctrl)
  go : p.Transfers → a.ctrl &&& regCtrlGo ≠ 0

/-- So were the accesses on their way. -/
structure Sourced (e : ℕ → Event) (t : ℕ) (c : Core) : Prop where
  sampled : ∀ w, c.sampled = some w → Made e t w
  pulse : ∀ w, c.pulse = some w → Made e t w
  justified : Justified e t c.phase c.regs

theorem Addressable.store_ctrl (a : Addressable) (address data : BitVec 16) :
    (a.store address data).ctrl = if address = regCtrlAddr then data else a.ctrl := by
  unfold Addressable.store
  by_cases hstate : address = regStateAddr
  · rw [if_pos hstate, hstate, if_neg (by decide)]
  · rw [if_neg hstate]
    split_ifs <;> rfl

theorem justified_idle {t : ℕ} {a : Addressable}
    (h : a.ctrl = 0 ∨ Made e t (regCtrlAddr, a.ctrl)) : Justified e t .idle a :=
  ⟨fun _ _ h => (nomatch h), h, by simp [Phase.Transfers]⟩

/-- In a transfer `RegCtrl` keeps `RegCtrlGo`. -/
theorem justified_transfers {t : ℕ} {p : Phase} {a : Addressable} (hp : p.Transfers)
    (h : a.ctrl = 0 ∨ Made e t (regCtrlAddr, a.ctrl)) (hgo : a.ctrl &&& regCtrlGo ≠ 0) :
    Justified e t p a := by
  refine ⟨fun address data heq => ?_, h, fun _ => hgo⟩
  rw [heq] at hp
  simp [Phase.Transfers] at hp

/-- **One cycle** of phase and registers. -/
theorem Sourced.next {t : ℕ} {c : Core} (h : Sourced e t c) :
    Justified e t c.next.1 c.next.2 := by
  have hctrl := h.justified.ctrl
  have hgo := h.justified.go
  unfold Core.next
  cases hp : c.phase with
  | reset => exact justified_idle (Or.inl rfl)
  | idle =>
    cases hpulse : c.pulse with
    | some w =>
      refine ⟨fun address data heq => ?_, hctrl, by simp [Phase.Transfers]⟩
      cases heq
      exact h.pulse w hpulse
    | none =>
      by_cases hset : c.regs.ctrl &&& regCtrlGo ≠ 0
      · simp only [hset, ne_eq, not_false_eq_true, if_true]
        exact justified_transfers (Or.inl rfl) hctrl hset
      · simp only [hset, if_false]
        exact justified_idle hctrl
  | eval address data =>
    refine justified_idle ?_
    rw [c.regs.store_ctrl]
    by_cases haddr : address = regCtrlAddr
    · rw [if_pos haddr, ← haddr]
      exact Or.inr (h.justified.eval address data hp)
    · rw [if_neg haddr]
      exact hctrl
  | request =>
    have hset := hgo (Or.inl hp)
    cases c.waited with
    | true => exact justified_transfers (Or.inr (Or.inl rfl)) hctrl hset
    | false => exact justified_transfers (Or.inl rfl) hctrl hset
  | read =>
    have hset := hgo (Or.inr (Or.inl hp))
    cases c.word with
    | some w => exact justified_transfers (Or.inr (Or.inr rfl)) hctrl hset
    | none => exact justified_transfers (Or.inl rfl) hctrl hset
  | write =>
    cases c.waited with
    | true => exact justified_transfers (Or.inr (Or.inr rfl)) hctrl (hgo (Or.inr (Or.inr hp)))
    | false => exact justified_idle hctrl

theorem Justified.succ {t : ℕ} {p : Phase} {a : Addressable} (h : Justified e t p a)
    (he : e t ≠ .reset) : Justified e (t + 1) p a :=
  ⟨fun address data hp => (h.eval address data hp).succ he, h.ctrl.imp_right fun hm => hm.succ he,
    h.go⟩

theorem sourced_init (t : ℕ) : Sourced e t .init := by
  refine ⟨fun w hw => ?_, fun w hw => ?_, fun _ _ h => (nomatch h), Or.inl rfl, fun hp => ?_⟩
  · cases hw
  · cases hw
  · rcases hp with hp | hp | hp <;> cases hp

theorem sourced_coreAt (t : ℕ) : Sourced e t (coreAt e t) := by
  induction t with
  | zero => exact sourced_init 0
  | succ t ih =>
    show Sourced e (t + 1) ((coreAt e t).handle (seenEvent (e t)))
    cases he : e t with
    | reset => exact sourced_init _
    | edge x =>
      have hne : e t ≠ .reset := by
        rw [he]
        simp
      refine ⟨fun w hw => ?_, fun w hw => (ih.sampled w hw).succ hne, ih.next.succ hne⟩
      exact ⟨t, x, Nat.lt_succ_self t, he, hw, fun v h1 h2 => by omega⟩

theorem transfers_iff {d : Signals} (h : Live d) :
    (phaseOf d.toRegs).Transfers ↔ d.masterReadSo = true ∨ d.masterWriteSo = true := by
  rw [read_iff h, write_iff h]
  unfold Phase.Transfers phaseOf
  cases d.statePresD <;> simp

/-- **A transfer was asked for**: while the master port is not at rest, `RegCtrl` has `RegCtrlGo`
set, and holds what the CPU had on the data lines in a read of it since the last reset. -/
theorem made_of_active (h : (signals stream e t).masterReadSo = true ∨
      (signals stream e t).masterWriteSo = true) :
    (signals stream e t).regCtrlPresD &&& regCtrlGo ≠ 0 ∧
      Made e t (regCtrlAddr, (signals stream e t).regCtrlPresD) := by
  have hs := (sourced_coreAt (e := e) t).justified
  rw [← coreOf_signals stream] at hs
  have hgo := hs.go ((transfers_iff (live_signals t)).mpr h)
  refine ⟨hgo, hs.ctrl.resolve_left fun hzero => hgo ?_⟩
  show (addressable (signals stream e t).toRegs).ctrl &&& regCtrlGo = 0
  have hzero : (addressable (signals stream e t).toRegs).ctrl = 0 := hzero
  rw [hzero]
  exact BitVec.zero_and

end Runs

/-- A transfer is started, and the reset comes in the middle of it. -/
def cutShort (t : ℕ) : Event :=
  if t = 0 then .edge goPort else if t = 6 then .reset else .edge quietPort

theorem cutShort_made :
    (signals (fun _ => 0) cutShort 5).regCtrlPresD &&& regCtrlGo ≠ 0 ∧
      Made cutShort 5 (regCtrlAddr, (signals (fun _ => 0) cutShort 5).regCtrlPresD) :=
  made_of_active (by decide)

/-- Nothing is left of it, a thousand cycles later. -/
theorem cutShort_erased :
    SameDma (signals (fun _ => 0) cutShort (6 + 1 + 1000))
      (signals (fun _ => 0xFFFF#16) (fun t => if t = 0 then .reset else .edge quietPort)
        (0 + 1 + 1000)) := by
  refine reset_erases _ _ (a := 6) (b := 0) (n := 1000) rfl rfl fun k _ => ?_
  unfold cutShort
  rw [if_neg (by omega), if_neg (by omega), if_neg (by omega)]

end LcdInterface.Dma

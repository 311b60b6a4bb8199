import LcdInterface.AddressMap
import LcdInterface.Clocked.Memory
import LcdInterface.Dma.Transfer

/-!
# The DMA and a memory

The DMA on its master port and a memory with any wait states and any latency, as one closed system
from reset; the CPU does on the slave port what it likes. Which word of the memory an address is
depends on the bus: in the SDRAM it is `sdramWord`. The environment is a stream of `Inputs`,
of which `Master_WaitReq_SI` is when the memory makes the DMA wait, and `Master_ReadDataValid_SI`
when it may return a word; what it returns is up to the memory.

* `memory_copies`: the system refines the machine whose one operation is to copy the word at
  `RegSrc` to `RegDest`, as long as the CPU changes `RegSrc` only while no read is unanswered:
  outside `StateTx` the memory is the initial one after the copies done (`copied`). A transfer
  copies its word unless its `StateTx` is one cycle in which it has to wait.
* `no_waits`: a memory without wait states is never written, and the first read goes on for ever.
-/

namespace LcdInterface.Dma

open Clocked
open AddressMap (sdramWord)

/-- The contents are 16-bit words. -/
abbrev Mem (κ : Type*) := Memory κ (BitVec 16)

structure System (κ : Type*) where
  dma : Signals
  mem : Mem κ

section Runs

variable {κ : Type*}

/-- The request on the master port. `cell` is the word of the memory at an address. -/
def request (cell : BitVec 32 → κ) (d : Signals) : Option (Request κ (BitVec 16)) :=
  if d.masterReadSo then some (.read (cell d.masterAddressDo))
  else if d.masterWriteSo then some (.write (cell d.masterAddressDo) d.masterWriteDataDo)
  else none

/-- The DMA's inputs when the memory is `m`. -/
def memInputs (m : Mem κ) (x : Inputs) : Inputs :=
  match m.returns x.masterReadDataValidSi with
  | some w => { x with masterReadDataValidSi := true, masterReadDataDi := w }
  | none => { x with masterReadDataValidSi := false }

variable [DecidableEq κ]

def tick (cell : BitVec 32 → κ) (c : System κ) (x : Inputs) : System κ :=
  { dma := edge c.dma (memInputs c.mem x)
    mem := c.mem.step (request cell c.dma) x.masterWaitReqSi x.masterReadDataValidSi }

variable (d : Signals) (cell : BitVec 32 → κ) (cells : κ → BitVec 16) (e : ℕ → Inputs)

/-- The closed system in cycle `t`. -/
def system (t : ℕ) : System κ := run (tick cell) ⟨reset d, ⟨cells, []⟩⟩ e t

/-- The DMA's inputs in the closed system. -/
def systemInputs (t : ℕ) : Inputs := memInputs (system d cell cells e t).mem (e t)

/-- The contents of the memory. -/
def contents (t : ℕ) : κ → BitVec 16 := (system d cell cells e t).mem.cells

/-- The words read that are not returned yet. -/
def owed (t : ℕ) : List (BitVec 16) := (system d cell cells e t).mem.owed

/-- The words of `RegSrc` and `RegDest`. -/
def pair (t : ℕ) : κ × κ :=
  (cell (cycle d (systemInputs d cell cells e) t).regSrcPresD,
    cell (cycle d (systemInputs d cell cells e) t).regDestPresD)

/-- The word at `RegSrc`. -/
def word (t : ℕ) : BitVec 16 := contents d cell cells e t (pair d cell cells e t).1

/-- The machine was in `StateTx` in the cycle before. -/
def wrote : ℕ → Bool :=
  delay false fun t => decide (state d (systemInputs d cell cells e) t = .stateTx)

/-- The copy that is done when `StateTx` is left after cycle `t`: none if that was its only cycle
and it had to wait. -/
def copied (t : ℕ) : Option (κ × κ) :=
  if state d (systemInputs d cell cells e) t = .stateTx ∧
      state d (systemInputs d cell cells e) (t + 1) ≠ .stateTx ∧
      (wrote d cell cells e t = true ∨ masterWait e t = false) then
    some (pair d cell cells e t)
  else none

/-- The CPU changes `RegSrc` only while no read is unanswered. -/
def SrcSettled : Prop :=
  ∀ t, (pair d cell cells e (t + 1)).1 ≠ (pair d cell cells e t).1 →
    owed d cell cells e (t + 1) = []

variable {d cell cells e}

theorem system_dma (t : ℕ) :
    (system d cell cells e t).dma = cycle d (systemInputs d cell cells e) t := by
  induction t with
  | zero => rfl
  | succ t ih =>
    rw [cycle_succ, ← ih]
    rfl

theorem mem_succ (t : ℕ) : (system d cell cells e (t + 1)).mem =
    (system d cell cells e t).mem.step (request cell (cycle d (systemInputs d cell cells e) t))
      (masterWait e t) (e t).masterReadDataValidSi := by
  rw [← system_dma]
  rfl

/-- The request in each state. -/
theorem request_cycle (t : ℕ) : request cell (cycle d (systemInputs d cell cells e) t) =
    if state d (systemInputs d cell cells e) t = .stateTx then
      some (.write (pair d cell cells e t).2 (cycle d (systemInputs d cell cells e) t).regDataPresD)
    else if masterRead d (systemInputs d cell cells e) t then some (.read (pair d cell cells e t).1)
    else none := by
  have hread := masterRead_iff (d := d) (i := systemInputs d cell cells e) t
  have hwrite := masterWrite_iff (d := d) (i := systemInputs d cell cells e) t
  unfold request
  by_cases htx : state d (systemInputs d cell cells e) t = .stateTx
  · have hr : masterRead d (systemInputs d cell cells e) t = false := by
      rw [← Bool.not_eq_true, hread, htx]
      simp
    have hbeat := masterBeat_write htx
    unfold masterBeat at hbeat
    rw [Prod.mk.injEq] at hbeat
    unfold masterRead at hr
    unfold masterWrite at hwrite
    rw [hr, hwrite.mpr htx, hbeat.1, hbeat.2, if_pos htx]
    rfl
  · have hw : masterWrite d (systemInputs d cell cells e) t = false :=
      (masterWrite_eq_false t).mpr htx
    unfold masterWrite at hw
    rw [if_neg htx, hw]
    cases hr : masterRead d (systemInputs d cell cells e) t with
    | false =>
      unfold masterRead at hr
      rw [hr]
      rfl
    | true =>
      have haddr := masterAddress_read (hread.mp hr)
      unfold masterAddress at haddr
      unfold masterRead at hr
      rw [hr, haddr]
      rfl

theorem masterWait_system (t : ℕ) :
    masterWait (systemInputs d cell cells e) t = masterWait e t := by
  unfold masterWait systemInputs memInputs
  split <;> rfl

/-- A word arrives when the memory returns one. -/
theorem returned_system (t : ℕ) : returned (systemInputs d cell cells e) t =
    (system d cell cells e t).mem.returns (e t).masterReadDataValidSi := by
  unfold returned systemInputs memInputs
  cases (system d cell cells e t).mem.returns (e t).masterReadDataValidSi <;> rfl

/-! ## One cycle of the memory -/

theorem contents_tx {t : ℕ} (h : state d (systemInputs d cell cells e) t = .stateTx)
    (hw : masterWait e t = false) : contents d cell cells e (t + 1) =
      Function.update (contents d cell cells e t) (pair d cell cells e t).2
        (cycle d (systemInputs d cell cells e) t).regDataPresD := by
  unfold contents
  rw [mem_succ, request_cycle, if_pos h, hw, Memory.step_write]

theorem contents_wait {t : ℕ} (hw : masterWait e t = true) :
    contents d cell cells e (t + 1) = contents d cell cells e t := by
  unfold contents
  rw [mem_succ, hw, Memory.step_wait]

/-- Only `StateTx` writes. -/
theorem contents_other {t : ℕ} (h : state d (systemInputs d cell cells e) t ≠ .stateTx) :
    contents d cell cells e (t + 1) = contents d cell cells e t := by
  unfold contents
  rw [mem_succ, request_cycle, if_neg h]
  refine Memory.step_other fun a b => ?_
  split <;> simp

/-- A word owed was owed before, or is the word at `RegSrc`, read in a transfer. -/
theorem owed_succ {t : ℕ} {w : BitVec 16} (h : w ∈ owed d cell cells e (t + 1)) :
    w ∈ owed d cell cells e t ∨
      InTransfer d (systemInputs d cell cells e) t ∧ w = word d cell cells e t := by
  unfold owed at h
  rw [mem_succ] at h
  rcases Memory.mem_owed_step h with hold | ⟨a, hreq, hw⟩
  · exact Or.inl hold
  · right
    rw [request_cycle] at hreq
    split_ifs at hreq with htx hread
    · cases hreq
    · cases hreq
      rw [masterRead_iff] at hread
      exact ⟨hread.elim Or.inl fun hrx => Or.inr (Or.inl hrx), hw⟩

/-- Only `StateEvalData` assigns `RegSrc` and `RegDest`. -/
theorem pair_kept {t : ℕ} (h : state d (systemInputs d cell cells e) t ≠ .stateEvalData) :
    pair d cell cells e (t + 1) = pair d cell cells e t := by
  have ha : (addressable (cycle d (systemInputs d cell cells e) (t + 1)).toRegs).setup =
      (addressable (cycle d (systemInputs d cell cells e) t).toRegs).setup := by
    by_cases hin : InTransfer d (systemInputs d cell cells e) t
    · exact hin.setup_kept
    · rw [cycle_succ]
      cases hq : state d (systemInputs d cell cells e) t with
      | stateReset =>
        cases t with
        | zero => rfl
        | succ t => exact absurd hq (ne_reset_edge (live_cycle t))
      | stateResetIntRegData => exact absurd hq (live_cycle t).ne_resetIntRegData
      | stateNextBurstItem => exact absurd hq (live_cycle t).ne_nextBurstItem
      | stateIdle =>
        cases he : (cycle d (systemInputs d cell cells e) t).readEdgeD with
        | true => rw [(edge_idle_some hq he).2.2.2]
        | false => rw [(edge_idle_none hq he).2]
      | stateEvalData => exact absurd hq h
      | stateRequestRx => exact absurd (Or.inl hq) hin
      | stateRx => exact absurd (Or.inr (Or.inl hq)) hin
      | stateTx => exact absurd (Or.inr (Or.inr hq)) hin
  exact Prod.ext (congrArg (fun a : Addressable => cell a.src) ha)
    (congrArg (fun a : Addressable => cell a.dest) ha)

theorem pair_inTransfer {t : ℕ} (h : InTransfer d (systemInputs d cell cells e) t) :
    pair d cell cells e (t + 1) = pair d cell cells e t := by
  refine pair_kept fun he => ?_
  rcases h with h | h | h
  · rw [h] at he
    cases he
  · rw [h] at he
    cases he
  · rw [h] at he
    cases he

/-! ## The words on their way -/

/-- In `StateTx` the data register holds what it held, or the word that was in `syncData`. -/
theorem data_tx {t : ℕ} (htx : state d (systemInputs d cell cells e) (t + 1) = .stateTx) :
    state d (systemInputs d cell cells e) t = .stateTx ∧
        (cycle d (systemInputs d cell cells e) (t + 1)).regDataPresD =
          (cycle d (systemInputs d cell cells e) t).regDataPresD ∨
      state d (systemInputs d cell cells e) t = .stateRx ∧
        inSync d (systemInputs d cell cells e) t =
          some (cycle d (systemInputs d cell cells e) (t + 1)).regDataPresD := by
  by_cases hprev : state d (systemInputs d cell cells e) t = .stateTx
  · exact Or.inl ⟨hprev,
      congrArg Addressable.data (edge_tx (x := systemInputs d cell cells e t) hprev).2⟩
  · have hrx : state d (systemInputs d cell cells e) t = .stateRx :=
      rx_of_edge (live_cycle t) hprev htx
    have hv : (cycle d (systemInputs d cell cells e) t).masterReadDataValidS = true := by
      by_contra hv
      rw [state_rx hrx, if_neg hv] at htx
      cases htx
    have hdata := congrArg Addressable.data (edge_rx (x := systemInputs d cell cells e t) hrx).2
    refine Or.inr ⟨hrx, ?_⟩
    unfold inSync
    rw [hv] at hdata ⊢
    exact congrArg some hdata.symm

/-- Every word on its way from the memory to `StateTx` is the word at `RegSrc`. -/
structure Current (d : Signals) (cell : BitVec 32 → κ) (cells : κ → BitVec 16) (e : ℕ → Inputs)
    (t : ℕ) : Prop where
  owed : ∀ w ∈ owed d cell cells e t, w = word d cell cells e t
  inSync : state d (systemInputs d cell cells e) t = .stateRx →
    ∀ w, inSync d (systemInputs d cell cells e) t = some w → w = word d cell cells e t
  data : state d (systemInputs d cell cells e) t = .stateTx →
    (cycle d (systemInputs d cell cells e) t).regDataPresD = word d cell cells e t

/-- A write that is taken copies the word. -/
theorem Current.copy {t : ℕ} (h : Current d cell cells e t)
    (htx : state d (systemInputs d cell cells e) t = .stateTx) (hw : masterWait e t = false) :
    contents d cell cells e (t + 1) =
      Clocked.copy (contents d cell cells e t) (pair d cell cells e t) := by
  rw [contents_tx htx hw, h.data htx]
  rfl

/-- No cycle changes the word at an address that stays in `RegSrc`. -/
theorem Current.word_succ {t : ℕ} (h : Current d cell cells e t)
    (hs : (pair d cell cells e (t + 1)).1 = (pair d cell cells e t).1) :
    word d cell cells e (t + 1) = word d cell cells e t := by
  unfold word
  rw [hs]
  by_cases htx : state d (systemInputs d cell cells e) t = .stateTx
  · cases hw : masterWait e t with
    | true => rw [contents_wait hw]
    | false => rw [h.copy htx hw, copy_source]
  · rw [contents_other htx]

theorem current_succ (hsrc : SrcSettled d cell cells e) {t : ℕ} (h : Current d cell cells e t) :
    Current d cell cells e (t + 1) := by
  refine ⟨fun w hw => ?_, fun hrx w hw => ?_, fun htx => ?_⟩
  · by_cases hs : (pair d cell cells e (t + 1)).1 = (pair d cell cells e t).1
    · rw [h.word_succ hs]
      rcases owed_succ hw with hold | ⟨-, hnew⟩
      · exact h.owed w hold
      · exact hnew
    · rw [hsrc t hs] at hw
      cases hw
  · -- the word was returned in `StateRequestRx`
    have hq := (requestRx_of_edge (live_cycle t) hrx).1
    rw [h.word_succ (congrArg Prod.fst (pair_inTransfer (Or.inl hq)))]
    rw [inSync_succ, returned_system] at hw
    exact h.owed w (Memory.mem_of_returns hw)
  · rcases data_tx htx with ⟨hprev, hdata⟩ | ⟨hrx, hin⟩
    · rw [h.word_succ (congrArg Prod.fst (pair_inTransfer (Or.inr (Or.inr hprev)))), hdata]
      exact h.data hprev
    · rw [h.word_succ (congrArg Prod.fst (pair_inTransfer (Or.inr (Or.inl hrx))))]
      exact h.inSync hrx _ hin

theorem current (hsrc : SrcSettled d cell cells e) (t : ℕ) : Current d cell cells e t := by
  induction t with
  | zero =>
    refine ⟨fun w hw => ?_, fun h => ?_, fun h => ?_⟩
    · cases hw
    · cases h
    · cases h
  | succ t ih => exact current_succ hsrc ih

/-! ## The refinement -/

/-- The memory under the copies done. -/
def copiesDone (d : Signals) (cell : BitVec 32 → κ) (cells : κ → BitVec 16) (e : ℕ → Inputs)
    (t : ℕ) : κ → BitVec 16 := copies cells (log (copied d cell cells e) t)

theorem copiesDone_none {t : ℕ} (h : copied d cell cells e t = none) :
    copiesDone d cell cells e (t + 1) = copiesDone d cell cells e t := by
  unfold copiesDone
  rw [log_succ_none h]

theorem copiesDone_some {t : ℕ} (h : copied d cell cells e t = some (pair d cell cells e t)) :
    copiesDone d cell cells e (t + 1) =
      copy (copiesDone d cell cells e t) (pair d cell cells e t) := by
  unfold copiesDone
  rw [log_succ_some h, copies_concat]

/-- Outside `StateTx` the memory is what the copies make of it; in `StateTx` the next copy is done
already, or it is not but will be before `StateTx` is left, unless this is a single cycle that has
to wait. -/
structure Tracks (d : Signals) (cell : BitVec 32 → κ) (cells : κ → BitVec 16) (e : ℕ → Inputs)
    (t : ℕ) : Prop where
  out : state d (systemInputs d cell cells e) t ≠ .stateTx →
    contents d cell cells e t = copiesDone d cell cells e t
  tx : state d (systemInputs d cell cells e) t = .stateTx →
    contents d cell cells e t = copy (copiesDone d cell cells e t) (pair d cell cells e t) ∧
        wrote d cell cells e t = true ∨
      contents d cell cells e t = copiesDone d cell cells e t ∧
        ((cycle d (systemInputs d cell cells e) t).masterWaitReqS = false →
          wrote d cell cells e t = false)

theorem tracks_succ {t : ℕ} (hc : Current d cell cells e t) (h : Tracks d cell cells e t) :
    Tracks d cell cells e (t + 1) := by
  by_cases htx : state d (systemInputs d cell cells e) t = .stateTx
  · have hwrote : wrote d cell cells e (t + 1) = true := decide_eq_true htx
    have hcopy : masterWait e t = false → contents d cell cells e t = copiesDone d cell cells e t ∨
        contents d cell cells e t = copy (copiesDone d cell cells e t) (pair d cell cells e t) →
        contents d cell cells e (t + 1) =
          copy (copiesDone d cell cells e t) (pair d cell cells e t) := by
      rintro hw (heq | heq)
      · rw [hc.copy htx hw, heq]
      · rw [hc.copy htx hw, heq, copy_copy]
    by_cases hnext : state d (systemInputs d cell cells e) (t + 1) = .stateTx
    · -- the phase goes on
      have hnone : copied d cell cells e t = none := if_neg fun hn => hn.2.1 hnext
      refine ⟨fun hne => absurd hnext hne, fun _ => ?_⟩
      rw [copiesDone_none hnone, pair_inTransfer (Or.inr (Or.inr htx))]
      cases hw : masterWait e t with
      | false =>
        refine Or.inl ⟨hcopy hw ?_, hwrote⟩
        rcases h.tx htx with ⟨heq, -⟩ | ⟨heq, -⟩
        · exact Or.inr heq
        · exact Or.inl heq
      | true =>
        rw [contents_wait hw]
        rcases h.tx htx with ⟨heq, -⟩ | ⟨heq, -⟩
        · exact Or.inl ⟨heq, hwrote⟩
        · refine Or.inr ⟨heq, fun hlow => ?_⟩
          rw [masterWaitReqS_eq, delay_succ, masterWait_system, hw] at hlow
          cases hlow
    · -- it ends here
      refine ⟨fun _ => ?_, fun hn => absurd hn hnext⟩
      have hlow : (cycle d (systemInputs d cell cells e) t).masterWaitReqS = false := by
        rwa [state_tx_iff htx, Bool.not_eq_true] at hnext
      by_cases hdone : wrote d cell cells e t = true ∨ masterWait e t = false
      · rw [copiesDone_some (if_pos ⟨htx, hnext, hdone⟩)]
        rcases h.tx htx with ⟨heq, -⟩ | ⟨heq, hfirst⟩
        · cases hw : masterWait e t with
          | false => exact hcopy hw (Or.inr heq)
          | true => rw [contents_wait hw, heq]
        · refine hcopy (hdone.resolve_left ?_) (Or.inl heq)
          rw [hfirst hlow]
          simp
      · obtain ⟨hfirst, hw⟩ := not_or.mp hdone
        rw [copiesDone_none (if_neg fun hn => hdone hn.2.2), contents_wait (by simpa using hw)]
        rcases h.tx htx with ⟨-, hold⟩ | ⟨heq, -⟩
        · exact absurd hold hfirst
        · exact heq
  · -- nothing is written
    have hnone : copied d cell cells e t = none := if_neg fun hn => htx hn.1
    have hsame : contents d cell cells e (t + 1) = copiesDone d cell cells e (t + 1) := by
      rw [contents_other htx, copiesDone_none hnone]
      exact h.out htx
    exact ⟨fun _ => hsame, fun _ => Or.inr ⟨hsame, fun _ => decide_eq_false htx⟩⟩

variable (d cell cells e)

/-- The closed system, seen from the memory. -/
structure MemoryCopies : Prop where
  /-- Outside `StateTx` the memory is the initial one after the copies done. -/
  contents : ∀ t, state d (systemInputs d cell cells e) t ≠ .stateTx →
    contents d cell cells e t = copies cells (log (copied d cell cells e) t)
  /-- What `StateTx` writes is the word at `RegSrc`, to `RegDest`. -/
  beat : ∀ t, state d (systemInputs d cell cells e) t = .stateTx →
    masterBeat d (systemInputs d cell cells e) t =
      ((cycle d (systemInputs d cell cells e) t).regDestPresD, word d cell cells e t)

variable {d cell cells e}

/-- **The DMA copies words**, if `RegSrc` changes only while no read is unanswered. -/
theorem memory_copies (h : SrcSettled d cell cells e) : MemoryCopies d cell cells e := by
  have htracks : ∀ t, Tracks d cell cells e t := by
    intro t
    induction t with
    | zero =>
      refine ⟨fun _ => rfl, fun h => ?_⟩
      cases h
    | succ t ih => exact tracks_succ (current h t) ih
  refine ⟨fun t => (htracks t).out, fun t htx => ?_⟩
  rw [masterBeat_write htx, (current h t).data htx]

/-! ## A memory without wait states -/

/-- Without wait states `StateRx` is never reached. -/
theorem ne_rx_of_no_waits (h : ∀ t, masterWait e t = false) (t : ℕ) :
    state d (systemInputs d cell cells e) t ≠ .stateRx := by
  intro hrx
  cases t with
  | zero => cases hrx
  | succ t =>
    have hw := (requestRx_of_edge (live_cycle t) hrx).2
    rw [masterWaitReqS_eq] at hw
    cases t with
    | zero => cases hw
    | succ t =>
      rw [delay_succ, masterWait_system, h t] at hw
      cases hw

theorem ne_tx_of_no_waits (h : ∀ t, masterWait e t = false) (t : ℕ) :
    state d (systemInputs d cell cells e) t ≠ .stateTx := by
  induction t with
  | zero =>
    intro htx
    cases htx
  | succ t ih =>
    exact fun htx => ne_rx_of_no_waits h t (rx_of_edge (live_cycle t) ih htx)

variable (d cell cells e)

/-- What the DMA does on a memory without wait states. -/
structure ReadsForEver : Prop where
  untouched : ∀ t, Dma.contents d cell cells e t = cells
  /-- Once a word is requested it is requested in every cycle. -/
  endless : ∀ t, state d (systemInputs d cell cells e) t = .stateRequestRx → ∀ n,
    state d (systemInputs d cell cells e) (t + n) = .stateRequestRx

variable {d cell cells e}

/-- **A memory without wait states is never written**, and the first read has no end. -/
theorem no_waits (h : ∀ t, masterWait e t = false) : ReadsForEver d cell cells e := by
  refine ⟨fun t => ?_, fun t ht n => ?_⟩
  · induction t with
    | zero => rfl
    | succ t ih => rw [contents_other (ne_tx_of_no_waits h t), ih]
  · induction n with
    | zero => exact ht
    | succ n ih =>
      have hnext := state_requestRx ih
      split at hnext
      · exact absurd hnext (ne_rx_of_no_waits h _)
      · exact hnext

end Runs

/-! ## A run -/

/-- The CPU loads `0x0010` into the low half of `RegDest`, and then `RegCtrlGo`; the memory has a
wait state every four cycles and may return a word in the cycle after it. -/
def copyOnce (t : ℕ) : Inputs :=
  if t = 0 then
    { quietPort with addressDi := regDestLSWAddr, writeDataDi := 0x0010#16, readSi := true }
  else if t = 3 then goPort
  else
    { quietPort with
      masterWaitReqSi := decide (t % 4 = 0), masterReadDataValidSi := decide (t % 4 = 1) }

/-- The contents before. -/
def numbered (a : BitVec 23) : BitVec 16 := a.setWidth 16 + 0x1234#16

theorem readSi_copyOnce {t : ℕ} (h : 3 < t) :
    (systemInputs fresh sdramWord numbered copyOnce t).readSi = false := by
  unfold systemInputs memInputs copyOnce
  rw [if_neg (by omega), if_neg (by omega)]
  split <;> rfl

theorem ne_evalData_copyOnce (n : ℕ) :
    state fresh (systemInputs fresh sdramWord numbered copyOnce) (n + 4 + 2 + 1) ≠
      .stateEvalData := by
  intro hq
  have he := (idle_of_edge (live_cycle _) hq).2
  rw [readEdgeD_succ, readSi_copyOnce (by omega)] at he
  cases he

/-- Nothing is read before `RegCtrlGo` is loaded, and no register is set after that. -/
theorem srcSettled_copyOnce : SrcSettled fresh sdramWord numbered copyOnce := by
  intro t hne
  by_cases ht : t < 8
  · have hall : ∀ t, t < 8 → owed fresh sdramWord numbered copyOnce (t + 1) = [] := by decide
    exact hall t ht
  · obtain ⟨n, rfl⟩ : ∃ n, t = n + 4 + 2 + 1 := ⟨t - 7, by omega⟩
    exact absurd (congrArg Prod.fst (pair_kept (ne_evalData_copyOnce n))) hne

/-- **The word at address `0` is copied to address `0x0010`.** -/
theorem word_copied : contents fresh sdramWord numbered copyOnce 16 =
    copy numbered (0#23, 8#23) := by
  have hstate : state fresh (systemInputs fresh sdramWord numbered copyOnce) 16 ≠ .stateTx := by
    decide
  have hlog : log (copied fresh sdramWord numbered copyOnce) 16 = [(0#23, 8#23)] := by
    decide
  rw [(memory_copies srcSettled_copyOnce).contents 16 hstate, hlog]
  rfl

/-- Words are returned all the time, and none gets through. -/
theorem never_written :
    contents fresh sdramWord numbered (transfer (fun _ => false) fun _ => true) 1000 =
      numbered := by
  refine (no_waits fun t => ?_).untouched 1000
  unfold masterWait transfer
  split <;> rfl

end LcdInterface.Dma

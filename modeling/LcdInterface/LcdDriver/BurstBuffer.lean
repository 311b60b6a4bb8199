import LcdInterface.LcdDriver.Alignment
import LcdInterface.LcdDriver.Burst
import LcdInterface.LcdDriver.Strobe

/-!
# The burst buffer

`burstStream` stores the beats of a burst in `BurstStream_D` and counts them, and
`StateNextBurstItem` loads words from there. Neither index is compared with `PICSIZE_DEC`; the store
is limited by `RegBurstCountPres_D`, which `regUpdate` never loads.

* `accesses_in_range`: the buffer is accessed at `storeIndex` and at `loadIndex` only, and neither is
  an index from `PICSIZE_DEC` on.
* `bufferFilled_iff`: the buffer takes the beats of a burst only if the burst is over before the
  first of them is due.
-/

namespace LcdInterface.LcdDriver

open Clocked
open Slave (Inputs)

/-! ## The accesses -/

/-- The index `burstStream` stores at. -/
def storeIndex (r : Regs) : Option ℕ :=
  if r.regBeginBurstTransferPresS = true ∧ r.writePpS = true ∧
      r.burstStreamCountPresD < r.regBurstCountPresD then
    some r.burstStreamCountPresD.toNat
  else none

/-- The index `StateNextBurstItem` loads from. -/
def loadIndex (r : Regs) : Option ℕ :=
  if r.statePresD = .stateNextBurstItem ∧ r.burstStreamCountPresD > r.burstCountPresD then
    some r.burstCountPresD.toNat
  else none

theorem burstStream_stored {r : Regs} {n : ℕ} (h : storeIndex r = some n) :
    (burstStream r).burstStreamD n = r.writeDataPpD := by
  unfold storeIndex at h
  split at h
  · rename_i hc
    obtain rfl := Option.some.inj h
    unfold burstStream
    rw [if_pos hc.1, if_pos hc.2]
    exact if_pos rfl
  · simp at h

/-- Nothing is stored elsewhere. -/
theorem burstStream_other {r : Regs} {n : ℕ} (h : storeIndex r ≠ some n) :
    (burstStream r).burstStreamD n = r.burstStreamD n := by
  unfold storeIndex at h
  unfold burstStream
  split
  · rename_i hbegin
    split
    · rename_i hc
      rw [if_pos ⟨hbegin, hc⟩] at h
      exact if_neg fun hn => h (by rw [hn])
    · rfl
  · rfl

/-- `logic` reads the buffer at `loadIndex` only. -/
theorem logic_burstStreamD {r : Regs} {f : ℕ → BitVec 16}
    (h : ∀ n, loadIndex r = some n → f n = r.burstStreamD n) (l : Logic) :
    logic { r with burstStreamD := f } l = logic r l := by
  unfold logic
  show branch r.statePresD _ _ = branch r.statePresD _ _
  cases hq : r.statePresD with
  | stateReset => rfl
  | stateLcdReset => rfl
  | stateResetIntRegData => rfl
  | stateIdle => rfl
  | stateEvalData => rfl
  | statePrepareTx => rfl
  | stateTx => rfl
  | stateNextBurstItem =>
    by_cases hc : r.burstStreamCountPresD > r.burstCountPresD
    · have hload := h r.burstCountPresD.toNat (if_pos ⟨hq, hc⟩)
      simp only [branch, logicNextBurstItem, if_pos hc, hload, Logic.holdRegs]
    · simp only [branch, logicNextBurstItem, if_neg hc, Logic.holdRegs]

/-! ## Their range -/

theorem storeIndex_eq_none {s : Signals} (h : NoStream s) : storeIndex s.toRegs = none := by
  refine if_neg fun hc => ?_
  have hlt := hc.2.2
  rw [h.pres, h.burstLength] at hlt
  exact absurd hlt (by decide)

theorem loadIndex_eq_none {s : Signals} (h : NoStream s) : loadIndex s.toRegs = none := by
  refine if_neg fun hc => ?_
  have hgt := hc.2
  rw [h.pres] at hgt
  simp at hgt

/-- The accesses to the buffer when the registers are `r`, and their range. -/
structure AccessesInRange (r : Regs) : Prop where
  /-- `burstStream` stores at `storeIndex`, and nowhere else. -/
  stored : ∀ n, (burstStream r).burstStreamD n =
    if storeIndex r = some n then r.writeDataPpD else r.burstStreamD n
  /-- `logic` loads from `loadIndex`, and from nowhere else: a buffer that differs elsewhere makes
  no difference. -/
  loaded : ∀ f l, (∀ n, loadIndex r = some n → f n = r.burstStreamD n) →
    logic { r with burstStreamD := f } l = logic r l
  storeIndex_lt : ∀ n, storeIndex r = some n → n < picsizeDec
  loadIndex_lt : ∀ n, loadIndex r = some n → n < picsizeDec

/-- **Every access is in range**, whatever lengths are announced: there is none. -/
theorem accesses_in_range (stream : ℕ → BitVec 16) (e : ℕ → Event) (t : ℕ) :
    AccessesInRange (signals stream e t).toRegs := by
  refine ⟨fun n => ?_, fun f l h => logic_burstStreamD h l, fun n hn => ?_, fun n hn => ?_⟩
  · split
    · exact burstStream_stored ‹_›
    · exact burstStream_other ‹_›
  · rw [storeIndex_eq_none (noStream_signals t)] at hn
    cases hn
  · rw [loadIndex_eq_none (noStream_signals t)] at hn
    cases hn

/-- Nothing is ever stored. -/
theorem edge_burstStreamD {s : Signals} {x : Inputs} (h : NoStream s) :
    (edge s x).burstStreamD = s.burstStreamD := by
  funext n
  exact burstStream_other (by rw [storeIndex_eq_none h]; simp)

/-! ## The beats of a burst -/

section Runs

variable (s : Signals) (i : ℕ → Inputs)

/-- The beat that passes `Write_PP_S` in cycle `t`. -/
def beat (t : ℕ) : Option (BitVec 16) :=
  if (cycle s i t).writePpS then some (cycle s i t).writeDataPpD else none

/-- The beats of the first `n` cycles after cycle `u`. -/
def beats (u n : ℕ) : List (BitVec 16) := log (fun m => beat s i (u + 1 + m)) n

/-- `RegBeginBurstTransferPres_S` is `'1'` in the first `n` cycles after cycle `u`. -/
def Armed (u n : ℕ) : Prop :=
  ∀ m, m < n → (cycle s i (u + 1 + m)).regBeginBurstTransferPresS = true

/-- `StateIdle` captures a burst start in cycle `u`. -/
structure BurstStart (u : ℕ) : Prop where
  idle : (cycle s i u).statePresD = .stateIdle
  pulse : (cycle s i u).writeEdgeD = true
  begins : (cycle s i u).beginBurstTransferPS = true
  pos : 1 ≤ (cycle s i u).burstCountPD.toNat
  le : (cycle s i u).burstCountPD.toNat ≤ picsizeDec

/-- The buffer takes the beats that follow cycle `u`, up to `len`. A beat of cycle `t` is stored by
the edge after it, and counted in `BurstStreamCountPres_D` from cycle `t + 2` on. -/
structure BufferFilled (u len : ℕ) : Prop where
  count : ∀ n, Armed s i u (n + 2) → (beats s i u n).length ≤ len →
    (cycle s i (u + n + 2)).burstStreamCountPresD.toNat = (beats s i u n).length
  mono : ∀ n, Armed s i u (n + 2) →
    (cycle s i (u + n + 1)).burstStreamCountPresD.toNat ≤
      (cycle s i (u + n + 2)).burstStreamCountPresD.toNat
  words : ∀ n, Armed s i u (n + 2) → (beats s i u n).length ≤ len →
    ∀ k (h : k < (beats s i u n).length),
      (cycle s i (u + n + 2)).burstStreamD k = (beats s i u n)[k]
  /-- A beat of cycle `u + n + 1` after the last one changes nothing. -/
  beyond : ∀ n, Armed s i u (n + 3) → len ≤ (beats s i u n).length →
    beat s i (u + n + 1) ≠ none →
      (cycle s i (u + n + 3)).burstStreamCountPresD =
          (cycle s i (u + n + 2)).burstStreamCountPresD ∧
        (cycle s i (u + n + 2)).burstStreamD = (cycle s i (u + n + 1)).burstStreamD

variable {s i}

/-! ### `RegBeginBurstTransferPres_S` -/

theorem begin_idle {s : Signals} {x : Inputs} (h : s.statePresD = .stateIdle) :
    (edge s x).regBeginBurstTransferPresS =
      if s.writeEdgeD then s.beginBurstTransferPS else s.regBeginBurstTransferPresS := by
  have hl : s.toLogic = logicIdle s.toRegs s.toLogic := settled_at h
  show s.regBeginBurstTransferNextS = _
  rw [hl]
  simp only [logicIdle]
  split <;> rfl

theorem begin_evalData {s : Signals} {x : Inputs} (h : s.statePresD = .stateEvalData) :
    (edge s x).regBeginBurstTransferPresS = s.regBeginBurstTransferPresS := by
  have hl : s.toLogic = logicEvalData s.toRegs s.toLogic := settled_at h
  show s.regBeginBurstTransferNextS = _
  rw [hl]
  simp only [logicEvalData]
  split_ifs <;> rfl

theorem begin_prepareTx {s : Signals} {x : Inputs} (h : s.statePresD = .statePrepareTx) :
    (edge s x).regBeginBurstTransferPresS = s.regBeginBurstTransferPresS := by
  have hl : s.toLogic = logicPrepareTx s.toRegs s.toLogic := settled_at h
  show s.regBeginBurstTransferNextS = _
  rw [hl]
  rfl

/-- A write without `BeginBurstTransfer_SI` that rises two cycles after cycle `a`. -/
structure Interrupts (i : ℕ → Inputs) (a : ℕ) : Prop where
  low : write i (a + 1) = false
  high : write i (a + 2) = true
  single : (i (a + 2)).beginBurstTransferSi = false

theorem BurstStart.armed {u : ℕ} (h : BurstStart s i u) :
    (cycle s i (u + 1)).statePresD = .stateEvalData ∧ Armed s i u 2 := by
  have heval : (cycle s i (u + 1)).statePresD = .stateEvalData :=
    (edge_idle_some (i := i u) h.idle h.pulse).1
  have hbegin : (cycle s i (u + 1)).regBeginBurstTransferPresS = true := by
    rw [cycle_succ, begin_idle h.idle, if_pos h.pulse]
    exact h.begins
  refine ⟨heval, fun m hm => ?_⟩
  obtain rfl | rfl : m = 0 ∨ m = 1 := by omega
  · exact hbegin
  · exact (begin_evalData heval).trans hbegin

/-- It is withdrawn at once iff the burst is dropped and another write follows it. -/
theorem begin_withdrawn_iff {a : ℕ} (h : BurstStart s i (a + 2)) :
    (cycle s i (a + 5)).regBeginBurstTransferPresS = false ↔
      ¬ IsTx (i a).addressDi ∧ Interrupts i a := by
  obtain ⟨heval, harmed⟩ := h.armed
  have hbegin : (cycle s i (a + 4)).regBeginBurstTransferPresS = true := harmed 1 (by omega)
  have haddress : (cycle s i (a + 3)).regAddressPresD = (i a).addressDi :=
    (edge_idle_some (i := i (a + 2)) h.idle h.pulse).2.1.trans (copyOf_cycle a).address
  by_cases htx : IsTx (i a).addressDi
  · -- `StatePrepareTx` holds it
    have hprep : (cycle s i (a + 4)).statePresD = .statePrepareTx :=
      (edge_evalData_tx (i := i (a + 3)) heval (haddress ▸ htx)).1
    rw [show cycle s i (a + 5) = edge (cycle s i (a + 4)) (i (a + 4)) from rfl,
      begin_prepareTx hprep, hbegin]
    simp [htx]
  · have hidle : (cycle s i (a + 4)).statePresD = .stateIdle :=
      edge_evalData_other (i := i (a + 3)) heval (haddress ▸ htx)
    have hcopy := (copyOf_cycle (s := s) (i := i) (a + 2)).beginBurstTransfer
    have hpulse : (cycle s i (a + 4)).writeEdgeD = rises (write i) (a + 2) := writeEdgeD_succ _
    rw [show cycle s i (a + 5) = edge (cycle s i (a + 4)) (i (a + 4)) from rfl,
      begin_idle hidle, hpulse, hbegin]
    constructor
    · intro hfall
      by_cases hr : rises (write i) (a + 2) = true
      · rw [if_pos hr, hcopy] at hfall
        obtain ⟨hhigh, hlow⟩ := rises_iff.mp hr
        exact ⟨htx, hlow, hhigh, hfall⟩
      · rw [if_neg hr] at hfall
        simp at hfall
    · rintro ⟨-, hlow, hhigh, hsingle⟩
      rw [if_pos (rises_iff.mpr ⟨hhigh, hlow⟩), hcopy]
      exact hsingle

/-! ### The buffer -/

theorem burstStreamD_eq (t n : ℕ) :
    (cycle s i (t + n)).burstStreamD = (cycle s i t).burstStreamD := by
  induction n with
  | zero => rfl
  | succ n ih => exact (edge_burstStreamD (noStream_cycle (t + n))).trans ih

/-- The first beat passes in the cycle after the capture. -/
theorem BurstStart.beats_one {u : ℕ} (h : BurstStart s i u) : (beats s i u 1).length = 1 := by
  obtain ⟨a, rfl, ha⟩ := pulse_iff.mp h.pulse
  have hpp : (cycle s i (a + 2 + 1)).writePpS = true :=
    (writePpS_succ a).trans (rises_iff.mp ha).1
  have hbeat : beat s i (a + 2 + 1 + 0) = some (cycle s i (a + 2 + 1)).writeDataPpD := if_pos hpp
  have hlog : beats s i (a + 2) 1 = [] ++ [(cycle s i (a + 2 + 1)).writeDataPpD] :=
    log_succ_some (e := fun m => beat s i (a + 2 + 1 + m)) hbeat
  rw [hlog]
  rfl

/-- Nothing is counted, so the first beat is missed unless the burst is over before it is due. -/
theorem BurstStart.filled_iff {u : ℕ} (h : BurstStart s i u) :
    BufferFilled s i u (cycle s i u).burstCountPD.toNat ↔
      (cycle s i (u + 3)).regBeginBurstTransferPresS = false := by
  constructor
  · intro hfill
    by_contra hbegin
    have harmed : Armed s i u (1 + 2) := by
      intro m hm
      rcases Nat.lt_or_ge m 2 with h2 | h2
      · exact h.armed.2 m h2
      · obtain rfl : m = 2 := by omega
        simpa using hbegin
    have hone := h.beats_one
    have hcount := hfill.count 1 harmed (by rw [hone]; exact h.pos)
    rw [(noStream_cycle (u + 1 + 2)).pres, hone] at hcount
    simp at hcount
  · intro hbegin
    have hzero : ∀ n, Armed s i u (n + 2) → n = 0 := by
      intro n harmed
      by_contra hne
      have := harmed 2 (by omega)
      rw [show u + 1 + 2 = u + 3 from rfl, hbegin] at this
      simp at this
    refine ⟨fun n harmed _ => ?_, fun n _ => ?_, fun n harmed _ k hk => ?_, fun n _ _ _ => ?_⟩
    · obtain rfl := hzero n harmed
      rw [(noStream_cycle (u + 0 + 2)).pres]
      rfl
    · rw [(noStream_cycle (u + n + 1)).pres, (noStream_cycle (u + n + 2)).pres]
    · obtain rfl := hzero n harmed
      simp [beats] at hk
    · rw [(noStream_cycle (u + n + 3)).pres, (noStream_cycle (u + n + 2)).pres]
      exact ⟨rfl, burstStreamD_eq (u + n + 1) 1⟩

/-- **The buffer takes a burst iff it is over at once**: its address is not one of the panel's, and
a write without `BeginBurstTransfer_SI` rises two cycles after it. -/
theorem bufferFilled_iff {a : ℕ} (h : BurstStart s i (a + 2)) :
    BufferFilled s i (a + 2) (cycle s i (a + 2)).burstCountPD.toNat ↔
      ¬ IsTx (i a).addressDi ∧ Interrupts i a :=
  h.filled_iff.trans (begin_withdrawn_iff h)

end Runs

/-! ### A burst of two words -/

def twoWords : ℕ → Inputs := heldBurst 0x1111#16 [0x2222#16]

theorem twoWords_first : twoWords (bootCycles + 1) = burstPort 2 0x1111#16 :=
  heldWrite_add (by omega)

theorem burstStart_twoWords : BurstStart fresh twoWords (bootCycles + 1 + 2) := by
  have hend : EndlessCapture (cycle fresh twoWords (bootCycles + 1 + 2)) :=
    endlessCapture_iff.mpr
      ⟨_, heldBurst_captured _ _, duration_eq_top.mpr ⟨Or.inl rfl, by decide⟩⟩
  have hcount : (cycle fresh twoWords (bootCycles + 1 + 2)).burstCountPD = 2 := by
    rw [(copyOf_cycle (bootCycles + 1)).burstCount, twoWords_first]
    rfl
  exact ⟨hend.idle, hend.pulse, hend.begins, by rw [hcount]; decide, by rw [hcount]; decide⟩

theorem two_words_filled_iff :
    BufferFilled fresh twoWords (bootCycles + 1 + 2)
        (cycle fresh twoWords (bootCycles + 1 + 2)).burstCountPD.toNat ↔
      ¬ IsTx (twoWords (bootCycles + 1)).addressDi ∧ Interrupts twoWords (bootCycles + 1) :=
  bufferFilled_iff burstStart_twoWords

/-- **The buffer takes no word of it.** -/
theorem two_words_not_filled :
    BurstStart fresh twoWords (bootCycles + 1 + 2) ∧
      ¬ BufferFilled fresh twoWords (bootCycles + 1 + 2)
        (cycle fresh twoWords (bootCycles + 1 + 2)).burstCountPD.toNat := by
  refine ⟨burstStart_twoWords, fun hfill => ?_⟩
  have hbegin := burstStart_twoWords.filled_iff.mp hfill
  have hother := ((begin_withdrawn_iff burstStart_twoWords).mp hbegin).1
  rw [twoWords_first] at hother
  exact hother (Or.inl rfl)

end LcdInterface.LcdDriver

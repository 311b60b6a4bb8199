import LcdInterface.Clocked.Handshake
import LcdInterface.LcdDriver.Refinement

/-!
# The bus side of the LCD driver

The writes the driver is offered, in terms of the slave port's inputs, and the course of
`WaitReq_SO` along a run from reset.

* `offer_eq`: a write is offered two cycles after it rises, with the payload of its first cycle.
* `words_idle`: in `StateIdle` no word is on its way, so the words shown are all the captured ones.
* `waitReq_before`, `waitReq_after`: `WaitReq_SO` is `'1'` from cycle `1` until the first capture
  (`StateIdle` keeps what `StateLcdReset` assigned), and `'0'` ever after.
-/

namespace LcdInterface.LcdDriver

open Clocked Clocked.Server Clocked.Handshake
open Slave (Inputs)

variable {s : Signals} {i : ℕ → Inputs}

/-! ## Offers -/

/-- The job a write stands for when `x` is the port in its first cycle. -/
def inputJob (x : Inputs) : Job :=
  { address := x.addressDi
    data := x.writeDataDi
    byteEnable := if x.beginBurstTransferSi then BitVec.allOnes 2 else x.byteEnableDi
    burst := if x.beginBurstTransferSi then x.burstCountDi else 0 }

theorem inputJob_burst {x : Inputs} (h : x.beginBurstTransferSi = true) :
    inputJob x = ⟨x.addressDi, x.writeDataDi, BitVec.allOnes 2, x.burstCountDi⟩ := by
  simp [inputJob, h]

theorem inputJob_single {x : Inputs} (h : x.beginBurstTransferSi = false) :
    inputJob x = ⟨x.addressDi, x.writeDataDi, x.byteEnableDi, 0⟩ := by
  simp [inputJob, h]

/-- `Write_SI`. -/
def write (i : ℕ → Inputs) (t : ℕ) : Bool := (i t).writeSi

theorem writeS_eq (t : ℕ) : (cycle s i t).writeS = delay false (write i) t := by
  rw [cycle_front]
  exact Slave.run_writeS i t

theorem writeEdgeD_eq (t : ℕ) :
    (cycle s i t).writeEdgeD = delay false (delay false (rises (write i))) t := by
  rw [cycle_front]
  exact Slave.run_writeEdgeD i t

theorem writeEdgeD_succ (t : ℕ) : (cycle s i (t + 2)).writeEdgeD = rises (write i) t :=
  writeEdgeD_eq _

theorem jobOf_eq (t : ℕ) : jobOf (cycle s i (t + 2)) = inputJob (i t) := by
  unfold jobOf inputJob
  rw [cycle_front, Slave.run_addressPD, Slave.run_writeDataPD, Slave.run_byteEnablePD,
    Slave.run_beginBurstTransferPS, Slave.run_burstCountPD]
  rfl

/-- **A write is offered two cycles after it rises.** -/
theorem offer_eq (t : ℕ) :
    offer (cycle s i (t + 2)) = if rises (write i) t then some (inputJob (i t)) else none := by
  unfold offer
  rw [writeEdgeD_succ, jobOf_eq]

theorem offer_zero : offer (cycle s i 0) = none := rfl

theorem offer_one : offer (cycle s i 1) = none := by
  unfold offer
  rw [writeEdgeD_eq]
  rfl

/-- The pulse is there only if the write was already sampled in the cycle before. -/
theorem offer_succ_of_writeS {t : ℕ} (h : (cycle s i t).writeS = false) :
    offer (cycle s i (t + 1)) = none := by
  cases t with
  | zero => exact offer_one
  | succ t =>
    rw [writeS_eq, delay_succ] at h
    rw [offer_eq, rises, h]
    rfl

theorem captured_eq_some {t : ℕ} {j : Job} :
    captured s i t = some j ↔ phaseAt s i t = .idle ∧ offer (cycle s i t) = some j := by
  rw [captured_eq_taken]
  exact taken_eq_some

theorem captured_of_offer_none {t : ℕ} (h : offer (cycle s i t) = none) :
    captured s i t = none := by
  unfold captured
  split
  · exact h
  · rfl

/-- Only a rising edge can be captured. -/
theorem captured_of_not_rises {t : ℕ} (h : rises (write i) t = false) :
    captured s i (t + 2) = none := by
  refine captured_of_offer_none ?_
  rw [offer_eq, h]
  rfl

/-- A captured write rose two cycles ago. -/
theorem rises_of_captured {t : ℕ} {j : Job} (h : captured s i t = some j) :
    ∃ u, t = u + 2 ∧ rises (write i) u = true ∧ j = inputJob (i u) := by
  obtain ⟨-, ho⟩ := captured_eq_some.mp h
  rcases t with _ | _ | u
  · simp [offer_zero] at ho
  · simp [offer_one] at ho
  · rw [offer_eq] at ho
    split at ho
    · rename_i hr
      exact ⟨u, rfl, hr, (Option.some.inj ho).symm⟩
    · simp at ho

/-! ## Phases along the run -/

theorem phaseAt_succ (t : ℕ) :
    phaseAt s i (t + 1) = next Job.duration (phaseAt s i t) (offer (cycle s i t)) := rfl

theorem phaseAt_boot {t : ℕ} (h : t ≤ bootCycles) : phaseAt s i t = .down (bootCycles - t) :=
  phase_boot h

theorem phaseAt_ready : phaseAt s i (bootCycles + 1) = .idle := phase_ready

theorem captured_of_busy {t : ℕ} {j : Job} {k : ℕ} (h : phaseAt s i t = .busy j k) :
    ∃ u, t = u + k ∧ 0 < k ∧ captured s i u = some j := by
  obtain ⟨u, h1, h2, h3⟩ := taken_of_busy h
  exact ⟨u, h1, h2, by rw [captured_eq_taken]; exact h3⟩

theorem busy_of_captured {u : ℕ} {j : Job} (hu : captured s i u = some j) {k : ℕ} (h0 : 0 < k)
    (hk : (k : ℕ∞) < j.duration) : phaseAt s i (u + k) = .busy j k :=
  busy_of_taken (by rw [← captured_eq_taken]; exact hu) h0 hk

theorem busy_succ_of_captured {u : ℕ} {j : Job} (hu : captured s i u = some j) :
    phaseAt s i (u + 1) = .busy j 1 :=
  busy_of_captured hu (by omega) (by exact_mod_cast one_lt_duration j)

theorem busy_of_word {u : ℕ} {j : Job} (hu : captured s i u = some j) (hw : IsTx j.address)
    {k : ℕ} (h0 : 0 < k) (h10 : k < 10) : phaseAt s i (u + k) = .busy j k := by
  rcases Nat.lt_or_ge k 2 with h2 | h2
  · obtain rfl : k = 1 := by omega
    exact busy_succ_of_captured hu
  · exact busy_of_captured hu h0 ((lt_duration_iff h2 h10).mpr hw)

theorem lt_of_captured {t : ℕ} {j : Job} (h : captured s i t = some j) : bootCycles < t := by
  rw [captured_eq_taken] at h
  exact lt_of_taken h

theorem captured_boot {t : ℕ} (h : t ≤ bootCycles) : captured s i t = none :=
  Option.eq_none_iff_forall_ne_some.mpr fun _ hj => absurd (lt_of_captured hj) (Nat.not_lt.mpr h)

theorem idle_after_capture {t : ℕ} {j : Job} (h : captured s i t = some j) {d : ℕ}
    (hd : j.duration = d) (h1 : 1 < d) : (cycle s i (t + d)).statePresD = .stateIdle := by
  rw [idle_iff]
  rw [captured_eq_taken] at h
  exact idle_after h hd h1

/-- With nothing in the pipeline the machine stays in `StateIdle` for two more cycles. -/
theorem idle_for_two {t : ℕ} (hidle : phaseAt s i t = .idle)
    (hs : (cycle s i t).writeS = false) (he : (cycle s i t).writeEdgeD = false) :
    phaseAt s i (t + 1) = .idle ∧ phaseAt s i (t + 2) = .idle := by
  have h1 : phaseAt s i (t + 1) = .idle := by
    rw [phaseAt_succ, hidle, offer, he]
    rfl
  refine ⟨h1, ?_⟩
  rw [phaseAt_succ, h1, offer_succ_of_writeS hs]
  rfl

/-- **A write raised in such a cycle is captured** two cycles later. -/
theorem capture_of_idle {t : ℕ} (hidle : phaseAt s i t = .idle)
    (hs : (cycle s i t).writeS = false) (he : (cycle s i t).writeEdgeD = false)
    (hw : write i t = true) : captured s i (t + 2) = some (inputJob (i t)) := by
  rw [writeS_eq] at hs
  rw [captured_eq_some, offer_eq, if_pos (rises_iff.mpr ⟨hw, hs⟩)]
  rw [← writeS_eq] at hs
  exact ⟨(idle_for_two hidle hs he).2, rfl⟩

theorem offer_none_boot (hq : ∀ t, t ≤ bootCycles → write i t = false) {t : ℕ}
    (h : t < bootCycles + 3) : offer (cycle s i t) = none := by
  rcases t with _ | _ | t
  · exact offer_zero
  · exact offer_one
  · rw [offer_eq, if_neg]
    rw [rises_iff, hq t (by omega)]
    simp

/-- Without a write before, the pipeline is empty in the first idle cycle. -/
theorem empty_boot (hq : ∀ t, t ≤ bootCycles → write i t = false) :
    (cycle s i (bootCycles + 1)).writeS = false ∧
      (cycle s i (bootCycles + 1)).writeEdgeD = false := by
  constructor
  · rw [writeS_eq]
    exact hq _ (Nat.le_refl _)
  · have h := offer_none_boot (s := s) hq (t := bootCycles + 1) (by omega)
    unfold offer at h
    by_contra hp
    simp [hp] at h

/-- The first write, raised in the first idle cycle. -/
theorem first_capture (hq : ∀ t, t ≤ bootCycles → write i t = false)
    (hw : write i (bootCycles + 1) = true) :
    captured s i (bootCycles + 3) = some (inputJob (i (bootCycles + 1))) ∧
      ∀ u, u < bootCycles + 3 → captured s i u = none := by
  obtain ⟨hs, he⟩ := empty_boot (s := s) hq
  exact ⟨capture_of_idle phaseAt_ready hs he hw, fun u hu =>
    captured_of_offer_none (offer_none_boot hq hu)⟩

/-- In `StateIdle` no word is on its way to the panel. -/
theorem words_idle {t : ℕ} (h : (cycle s i t).statePresD = .stateIdle) :
    words s i t = (log (captured s i) t).filterMap Job.toPanel := by
  rw [← words_eq]
  have hnone : ∀ u, u < 4 → presented s i (t + u) = none := by
    intro u hu
    rw [presented_eq, Option.map_eq_none_iff]
    refine Option.eq_none_iff_forall_ne_some.mpr fun j hj => ?_
    obtain ⟨v, hv, -, hcap⟩ := captured_of_busy (stage_eq_some.mp hj)
    have hdur : (5 : ℕ∞) < j.duration := by
      exact_mod_cast busy_lt_dur one_lt_duration (stage_eq_some.mp hj)
    by_cases hvt : v < t
    · -- the write was captured at most four cycles ago, and lasts longer
      have hb := busy_of_captured hcap (show 0 < t - v by omega)
        (lt_trans (by exact_mod_cast show t - v < 5 by omega) hdur)
      rw [show v + (t - v) = t by omega, (idle_iff t).mp h] at hb
      simp at hb
    · omega
  rw [Nat.add_comm 4 t]
  exact (log_add_none hnone).symm

/-- `StateIdle`, and no write on the port or in the pipeline. -/
structure Quiet (s : Signals) (i : ℕ → Inputs) (t : ℕ) : Prop where
  idle : (cycle s i t).statePresD = .stateIdle
  port : write i t = false
  sampled : (cycle s i t).writeS = false
  pulse : (cycle s i t).writeEdgeD = false

/-- No capture is due in such a cycle. -/
theorem log_captured_quiet {t : ℕ} (hq : Quiet s i t) :
    log (captured s i) (t + 2) = log (captured s i) t := by
  refine log_add_none fun v hv => captured_of_offer_none ?_
  obtain rfl | rfl : v = 0 ∨ v = 1 := by omega
  · unfold offer
    rw [Nat.add_zero, hq.pulse]
    rfl
  · exact offer_succ_of_writeS hq.sampled

/-! ## `WaitReq_SO` -/

/-- `WaitReq_SO`. -/
def waitReq (s : Signals) (i : ℕ → Inputs) (t : ℕ) : Bool := (cycle s i t).waitReqSo

theorem waitReq_lcdReset {s : Signals} (h : s.statePresD = .stateLcdReset) :
    s.waitReqSo = true := by
  have hl : s.toLogic = logicLcdReset s.toRegs s.toLogic := settled_at h
  rw [hl]
  rfl

/-- The two states that do not assign `WaitReq_SO` keep it. -/
theorem waitReq_kept {s : Signals} {x : Inputs}
    (h : (edge s x).statePresD = .stateIdle ∨ (edge s x).statePresD = .stateResetIntRegData) :
    (edge s x).waitReqSo = s.waitReqSo := by
  rw [edge_toLogic, logic]
  rcases h with h | h
  · rw [h]
    simp only [branch, logicIdle]
    split <;> rfl
  · rw [h]
    rfl

/-- Every other state but `StateLcdReset` clears it, when nothing is in the burst stream. -/
theorem waitReq_busy {s : Signals} (hn : NoStream s) {j : Job} {k : ℕ}
    (h : Refines s (.busy j k)) :
    s.waitReqSo = false ∨ s.statePresD = .stateResetIntRegData := by
  cases h with
  | evalData h =>
    have hl : s.toLogic = logicEvalData s.toRegs s.toLogic := settled_at h
    left; rw [hl]; simp only [logicEvalData]; split_ifs <;> rfl
  | prepareTx h =>
    have hl : s.toLogic = logicPrepareTx s.toRegs s.toLogic := settled_at h
    left; rw [hl]; rfl
  | tx h =>
    have hl : s.toLogic = logicTx s.toRegs s.toLogic := settled_at h
    left; rw [hl]; simp only [logicTx]; split_ifs <;> rfl
  | last h => exact Or.inr h
  | nextItem h =>
    have hl : s.toLogic = logicNextBurstItem s.toRegs s.toLogic := settled_at h
    have hle : ¬ s.burstStreamCountPresD > s.burstCountPresD := by rw [hn.pres]; simp
    left; rw [hl]; simp only [logicNextBurstItem, if_neg hle]

/-- **`WaitReq_SO` is `'1'` until the first capture.** -/
theorem waitReq_before {t : ℕ} (ht : 0 < t) (h : ∀ u, u < t → captured s i u = none) :
    waitReq s i t = true := by
  induction t with
  | zero => omega
  | succ t ih =>
    have hr := refines_cycle (s := s) (i := i) (t + 1)
    have hkeep : 0 < t → ((cycle s i (t + 1)).statePresD = .stateIdle ∨
        (cycle s i (t + 1)).statePresD = .stateResetIntRegData) → waitReq s i (t + 1) = true :=
      fun ht' hst => (waitReq_kept hst).trans (ih ht' fun u hu => h u (by omega))
    by_cases hboot : t + 1 ≤ bootCycles
    · have hp := phaseAt_boot (s := s) (i := i) hboot
      rw [hp] at hr
      generalize hk : bootCycles - (t + 1) = k at hr
      cases hr with
      | reset => omega
      | lcdReset hs => exact waitReq_lcdReset hs
      | booted hs =>
        rcases Nat.eq_zero_or_pos t with rfl | hpos
        · simp [bootCycles] at hk
        · exact hkeep hpos (Or.inr hs)
    · have hpos : 0 < t := by
        unfold bootCycles at hboot; omega
      cases hp : phaseAt s i (t + 1) with
      | down k => exact absurd hp (phase_ne_down (by omega) k)
      | idle => exact hkeep hpos (Or.inl ((idle_iff (t + 1)).mpr hp))
      | busy j k =>
        obtain ⟨u, hu, hk, hc⟩ := captured_of_busy hp
        rw [h u (by omega)] at hc
        simp at hc

/-- **… and `'0'` ever after.** -/
theorem waitReq_after {u t : ℕ} {j : Job} (hu : captured s i u = some j) (hut : u < t) :
    waitReq s i t = false := by
  induction t with
  | zero => omega
  | succ t ih =>
    have hr := refines_cycle (s := s) (i := i) (t + 1)
    have hboot := lt_of_captured hu
    have hkeep : u < t → ((cycle s i (t + 1)).statePresD = .stateIdle ∨
        (cycle s i (t + 1)).statePresD = .stateResetIntRegData) → waitReq s i (t + 1) = false :=
      fun hut' hst => (waitReq_kept hst).trans (ih hut')
    rcases Nat.lt_succ_iff_lt_or_eq.mp hut with hlt | rfl
    · cases hp : phaseAt s i (t + 1) with
      | down k => exact absurd hp (phase_ne_down (by omega) k)
      | idle => exact hkeep hlt (Or.inl ((idle_iff (t + 1)).mpr hp))
      | busy j' k =>
        rw [hp] at hr
        rcases waitReq_busy (noStream_cycle (t + 1)) hr with hw | hst
        · exact hw
        · exact hkeep hlt (Or.inr hst)
    · have hp := busy_succ_of_captured hu
      rw [hp] at hr
      cases hr with
      | evalData hs hj hd =>
        rcases waitReq_busy (noStream_cycle (u + 1)) (.evalData hs hj hd) with hw | hst
        · exact hw
        · rw [hs] at hst; simp at hst
      | prepareTx _ _ _ _ h1 => omega
      | tx _ _ _ _ h4 => omega
      | nextItem _ _ _ h8 => omega

/-! ## Masters -/

/-- The payload a waiting master holds. -/
def payload (x : Inputs) : BitVec 16 × BitVec 16 × BitVec 2 :=
  (x.addressDi, x.writeDataDi, x.byteEnableDi)

/-- The master obeys the handshake. -/
def Master (s : Signals) (i : ℕ → Inputs) : Prop :=
  Holds (write i) (waitReq s i) fun t => payload (i t)

/-- Power-up with zeros in the burst stream. -/
def fresh : Signals := powerUp fun _ => 0

/-- The port at rest. -/
def quietPort : Inputs :=
  { addressDi := 0, writeSi := false, writeDataDi := 0, readSi := false, byteEnableDi := 0,
    beginBurstTransferSi := false, burstCountDi := 0 }

/-- A full-width, non-burst write of `d` to word address `a`. -/
def writePort (a d : BitVec 16) : Inputs :=
  { quietPort with addressDi := a, writeSi := true, writeDataDi := d, byteEnableDi := 0b11#2 }

/-- The master waits for the LCD reset to end, holds the write `x` for four cycles, then drives
`rest`. -/
def heldWrite (x : Inputs) (rest : List Inputs) (t : ℕ) : Inputs :=
  if t ≤ bootCycles then quietPort
  else ((x :: x :: x :: x :: rest)[t - (bootCycles + 1)]?).getD quietPort

section HeldWrite

variable {x : Inputs} {rest : List Inputs} {β : Type*}

theorem heldWrite_boot {t : ℕ} (h : t ≤ bootCycles) : heldWrite x rest t = quietPort := if_pos h

theorem write_heldWrite_boot {t : ℕ} (h : t ≤ bootCycles) : write (heldWrite x rest) t = false := by
  unfold write
  rw [heldWrite_boot h]
  rfl

theorem heldWrite_add {n : ℕ} (h : 0 < n) : heldWrite x rest (bootCycles + n) =
    ((x :: x :: x :: x :: rest)[n - 1]?).getD quietPort := by
  unfold heldWrite
  rw [if_neg (by omega), show bootCycles + n - (bootCycles + 1) = n - 1 by omega]

theorem write_heldWrite_held (hx : x.writeSi = true) {n : ℕ} (h0 : 0 < n) (h4 : n ≤ 4) :
    write (heldWrite x rest) (bootCycles + n) = true := by
  unfold write
  rw [heldWrite_add h0]
  obtain rfl | rfl | rfl | rfl : n = 1 ∨ n = 2 ∨ n = 3 ∨ n = 4 := by omega
  · exact hx
  · exact hx
  · exact hx
  · exact hx

theorem write_heldWrite_low {n : ℕ} (h : 4 + rest.length < n) :
    write (heldWrite x rest) (bootCycles + n) = false := by
  unfold write
  rw [heldWrite_add (by omega), List.getElem?_eq_none]
  · rfl
  · simp only [List.length_cons]
    omega

/-- With nothing after it, the held write is one pulse. -/
theorem rises_heldWrite (hx : x.writeSi = true) (t : ℕ) :
    rises (write (heldWrite x [])) t = true ↔ t = bootCycles + 1 := by
  by_cases hb : t ≤ bootCycles
  · rw [rises_iff, write_heldWrite_boot hb]
    simp only [Bool.false_eq_true, false_and, false_iff]
    omega
  · obtain ⟨n, rfl⟩ : ∃ n, t = bootCycles + (n + 1) := ⟨t - bootCycles - 1, by omega⟩
    rcases Nat.eq_zero_or_pos n with rfl | hn
    · refine iff_of_true (rises_iff.mpr ⟨?_, write_heldWrite_boot (Nat.le_refl _)⟩) rfl
      exact write_heldWrite_held hx (by omega) (by omega)
    · refine iff_of_false ?_ (by omega)
      rw [Bool.not_eq_true]
      by_cases h4 : n ≤ 4
      · exact rises_succ_of_high (t := bootCycles + n) (write_heldWrite_held hx hn h4)
      · have hlow : write (heldWrite x []) (bootCycles + (n + 1)) = false :=
          write_heldWrite_low (by simp only [List.length_nil]; omega)
        simp [rises, hlow]

theorem heldWrite_single (hx : x.beginBurstTransferSi = false)
    (hr : ∀ y ∈ rest, y.beginBurstTransferSi = false) (t : ℕ) :
    (heldWrite x rest t).beginBurstTransferSi = false := by
  unfold heldWrite
  split
  · rfl
  · cases hy : (x :: x :: x :: x :: rest)[t - (bootCycles + 1)]? with
    | none => rfl
    | some y =>
      have hmem := List.mem_of_getElem? hy
      simp only [List.mem_cons] at hmem
      rcases hmem with rfl | rfl | rfl | rfl | hmem
      · exact hx
      · exact hx
      · exact hx
      · exact hx
      · exact hr y hmem

/-- The held write is captured in its third cycle, before anything else. -/
theorem heldWrite_captured (hx : x.writeSi = true) :
    captured s (heldWrite x rest) (bootCycles + 3) = some (inputJob x) ∧
      ∀ u, u < bootCycles + 3 → captured s (heldWrite x rest) u = none := by
  have hport : heldWrite x rest (bootCycles + 1) = x := heldWrite_add (by omega)
  have h := first_capture (s := s) (i := heldWrite x rest)
    (fun t ht => write_heldWrite_boot ht)
    (by unfold write; rw [hport]; exact hx)
  rwa [hport] at h

theorem heldWrite_wait (hx : x.writeSi = true) {n : ℕ} (h : 0 < n) :
    waitReq s (heldWrite x rest) (bootCycles + n) = decide (n ≤ 3) := by
  by_cases hn : n ≤ 3
  · rw [decide_eq_true hn]
    exact waitReq_before (by omega) fun u hu => (heldWrite_captured hx).2 u (by omega)
  · rw [decide_eq_false hn]
    exact waitReq_after (heldWrite_captured hx).1 (by omega)

/-- Four cycles are exactly as long as the driver makes the first write wait. -/
theorem master_heldWrite (hx : x.writeSi = true) : Master s (heldWrite x rest) := by
  intro t hw hwait
  by_cases hb : t ≤ bootCycles
  · rw [write_heldWrite_boot hb] at hw
    simp at hw
  · obtain ⟨n, rfl, hn⟩ : ∃ n, t = bootCycles + n ∧ 0 < n := ⟨t - bootCycles, by omega⟩
    rw [heldWrite_wait hx hn, decide_eq_true_eq] at hwait
    rw [Nat.add_assoc]
    refine ⟨write_heldWrite_held hx (by omega) (by omega), ?_⟩
    simp only [heldWrite_add hn, heldWrite_add (Nat.succ_pos n)]
    obtain rfl | rfl | rfl : n = 1 ∨ n = 2 ∨ n = 3 := by omega
    · rfl
    · rfl
    · rfl

/-- Nothing is accepted before the fourth cycle of the held write … -/
theorem heldWrite_accepted_none (hx : x.writeSi = true) (f : Inputs → β) {t : ℕ}
    (ht : t < bootCycles + 4) :
    accepted (write (heldWrite x rest)) (waitReq s (heldWrite x rest))
      (fun t => f (heldWrite x rest t)) t = none := by
  by_cases hb : t ≤ bootCycles
  · unfold accepted
    rw [if_neg]
    simp [write_heldWrite_boot hb]
  · obtain ⟨n, rfl, hn⟩ : ∃ n, t = bootCycles + n ∧ 0 < n := ⟨t - bootCycles, by omega⟩
    refine accepted_of_wait ?_
    rw [heldWrite_wait hx hn, decide_eq_true_eq]
    omega

/-- … and from then on one beat a cycle. -/
theorem heldWrite_accepted (hx : x.writeSi = true) (hr : ∀ y ∈ rest, y.writeSi = true)
    (f : Inputs → β) (k : ℕ) :
    accepted (write (heldWrite x rest)) (waitReq s (heldWrite x rest))
      (fun t => f (heldWrite x rest t)) (bootCycles + (4 + k)) = ((x :: rest).map f)[k]? := by
  have hport : heldWrite x rest (bootCycles + (4 + k)) = ((x :: rest)[k]?).getD quietPort := by
    rw [heldWrite_add (by omega), show 4 + k - 1 = k + 1 + 1 + 1 by omega]
    simp only [List.getElem?_cons_succ]
  have hwait : waitReq s (heldWrite x rest) (bootCycles + (4 + k)) = false := by
    rw [heldWrite_wait hx (by omega), decide_eq_false_iff_not]
    omega
  unfold accepted write
  simp only [hwait, hport, List.getElem?_map]
  cases hy : (x :: rest)[k]? with
  | none => simp [quietPort]
  | some y =>
    have hwr : y.writeSi = true := by
      rcases List.mem_cons.mp (List.mem_of_getElem? hy) with rfl | hmem
      · exact hx
      · exact hr y hmem
    simp [hwr]

end HeldWrite

/-- The machine is at rest again ten cycles after the first capture. -/
theorem quiet_heldWrite {x : Inputs} {rest : List Inputs} (hx : x.writeSi = true)
    (hb : x.beginBurstTransferSi = false) (hw : IsTx x.addressDi) (hr : rest.length ≤ 6) :
    Quiet s (heldWrite x rest) (bootCycles + 13) := by
  have hlow : ∀ n, 10 < n → write (heldWrite x rest) (bootCycles + n) = false := by
    intro n hn
    exact write_heldWrite_low (by omega)
  have hjob : (inputJob x).duration = ((10 : ℕ) : ℕ∞) := by
    rw [inputJob_single hb, Job.duration, if_pos hw, if_pos rfl]
    rfl
  refine ⟨idle_after_capture (heldWrite_captured hx).1 hjob (by omega), hlow 13 (by omega), ?_, ?_⟩
  · rw [writeS_eq]
    exact hlow 12 (by omega)
  · rw [writeEdgeD_succ (bootCycles + 11), rises, hlow 11 (by omega)]
    rfl

/-- One command, held by `WaitReq_SO` until it is accepted. -/
def oneCommand : ℕ → Inputs := heldWrite (writePort regWriteCmdAddr 0x002C#16) []

theorem oneCommand_single (t : ℕ) : (oneCommand t).beginBurstTransferSi = false :=
  heldWrite_single rfl (by simp) t

end LcdInterface.LcdDriver

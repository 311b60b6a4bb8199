import LcdInterface.LcdDriver.Bus

/-!
# Delivery of writes to the panel

Two statements about runs without bursts.

* `io_relation`: seen from the captures, the driver is exact. The words in `StateTx` are the
  captured writes to `RegWriteDataAddr` and `RegWriteCmdAddr`, five cycles late, and the machine is
  back in `StateIdle` ten cycles after such a capture and two after any other.
* `delivered_iff`: seen from the bus it is not. `WaitReq_SO` is `'0'` while a word is being sent, so
  a beat accepted then is never captured. In a quiet cycle the words shown are the words accepted
  iff every accepted beat was in time (`inTime`): it was kept up by `WaitReq_SO` until it was
  accepted, or it is a new write in a cycle from which the machine reaches `StateIdle` within two.
  `back_to_back_loses` is a master that obeys the handshake and loses a word.

`log_captured` is the common part: at rest the captures are the accepted beats that were in time.
-/

namespace LcdInterface.LcdDriver

open Clocked Clocked.Server Clocked.Handshake
open Slave (Inputs)

variable {s : Signals} {i : ℕ → Inputs}

/-! ## The input/output relation -/

/-- The exact relation between the port and the panel in runs without bursts. -/
structure IoRelation (s : Signals) (i : ℕ → Inputs) : Prop where
  /-- A capture takes the payload of the first cycle of its write. -/
  captured_iff : ∀ t j, captured s i t = some j ↔
    (cycle s i t).statePresD = .stateIdle ∧ ∃ u, t = u + 2 ∧ rises (write i) u = true ∧
      j = ⟨(i u).addressDi, (i u).writeDataDi, (i u).byteEnableDi, 0⟩
  /-- The words presented are the captures to the panel's addresses. -/
  words_eq : ∀ t, words s i (4 + t) = (log (captured s i) t).filterMap Job.toPanel
  /-- The word stays on the bus throughout `StateTx`. -/
  stable : ∀ t j, captured s i t = some j → IsTx j.address → ∀ k, 4 < k → k < 9 →
    (cycle s i (t + k)).statePresD = .stateTx ∧
      ((cycle s i (t + k)).dbDio, (cycle s i (t + k)).dcNso) = j.word
  /-- `StateTx` is entered for a capture only. -/
  tx_only : ∀ t, (cycle s i t).statePresD = .stateTx →
    ∃ u j k, t = u + k ∧ 4 < k ∧ k < 9 ∧ captured s i u = some j ∧ IsTx j.address
  /-- Ten cycles for a word. -/
  back_tx : ∀ t j, captured s i t = some j → IsTx j.address →
    (cycle s i (t + 10)).statePresD = .stateIdle ∧
      ∀ k, 0 < k → k < 10 → (cycle s i (t + k)).statePresD ≠ .stateIdle
  /-- Two cycles for anything else. -/
  back_other : ∀ t j, captured s i t = some j → ¬ IsTx j.address →
    (cycle s i (t + 2)).statePresD = .stateIdle ∧ (cycle s i (t + 1)).statePresD ≠ .stateIdle
  /-- A pulse outside `StateIdle` has no effect. -/
  deaf : ∀ t, (cycle s i t).statePresD ≠ .stateIdle → ∀ b x,
    (withWriteEdge (cycle s i t) b).toLogic = (cycle s i t).toLogic ∧
      edge (withWriteEdge (cycle s i t) b) x = edge (cycle s i t) x

/-- Without bursts every captured word takes ten cycles. -/
theorem duration_single (hb : ∀ t, (i t).beginBurstTransferSi = false) {t : ℕ} {j : Job}
    (h : captured s i t = some j) (hw : IsTx j.address) : j.duration = ((10 : ℕ) : ℕ∞) := by
  obtain ⟨u, -, -, rfl⟩ := rises_of_captured h
  rw [Job.duration, if_pos hw, if_pos]
  · rfl
  · rw [inputJob_single (hb u)]

theorem not_idle_of_busy {t : ℕ} {j : Job} {k : ℕ} (h : phaseAt s i t = .busy j k) :
    (cycle s i t).statePresD ≠ .stateIdle := by
  rw [Ne, idle_iff, h]
  simp

/-- **The driver's exact input/output relation without bursts.** -/
theorem io_relation (s : Signals) (i : ℕ → Inputs)
    (hb : ∀ t, (i t).beginBurstTransferSi = false) : IoRelation s i where
  captured_iff t j := by
    constructor
    · intro h
      obtain ⟨u, hu, hr, hj⟩ := rises_of_captured h
      exact ⟨(idle_iff t).mpr (captured_eq_some.mp h).1, u, hu, hr,
        hj.trans (inputJob_single (hb u))⟩
    · rintro ⟨hs, u, rfl, hr, rfl⟩
      rw [captured_eq_some, offer_eq, if_pos hr, inputJob_single (hb u)]
      exact ⟨(idle_iff _).mp hs, rfl⟩
  words_eq := words_eq
  stable t j h hw k h4 h9 := by
    have hp := busy_of_word h hw (show 0 < k by omega) (by omega)
    have hr := refines_cycle (s := s) (i := i) (t + k)
    rw [hp] at hr
    exact ⟨hr.tx_iff.mpr ⟨j, k, rfl, h4, h9⟩, hr.word h4 h9⟩
  tx_only t h := by
    obtain ⟨j, k, hp, h4, h9⟩ := (refines_cycle t).tx_iff.mp h
    obtain ⟨u, hu, -, hc⟩ := captured_of_busy hp
    have hlt : (k : ℕ∞) < j.duration := busy_lt_dur one_lt_duration hp
    exact ⟨u, j, k, hu, h4, h9, hc, (lt_duration_iff (by omega) (by omega)).mp hlt⟩
  back_tx t j h hw :=
    ⟨idle_after_capture h (duration_single hb h hw) (by omega), fun k h0 h10 =>
      not_idle_of_busy (busy_of_word h hw h0 h10)⟩
  back_other t j h hw := by
    refine ⟨idle_after_capture h ?_ (by omega), not_idle_of_busy (busy_succ_of_captured h)⟩
    rw [Job.duration, if_neg hw]
    rfl
  deaf t h b x := withWriteEdge_eq h b

/-- A single command is on the panel's bus five cycles after its capture, and gone after ten. -/
theorem one_command_shown :
    ((cycle fresh oneCommand (bootCycles + 8)).dbDio,
        (cycle fresh oneCommand (bootCycles + 8)).dcNso) = (0x002C#16, false) ∧
      (cycle fresh oneCommand (bootCycles + 13)).statePresD = .stateIdle := by
  have hio := io_relation fresh oneCommand oneCommand_single
  have hc : captured fresh oneCommand (bootCycles + 3) =
      some ⟨regWriteCmdAddr, 0x002C#16, 0b11#2, 0⟩ := (heldWrite_captured rfl).1
  refine ⟨?_, (hio.back_tx _ _ hc (Or.inr rfl)).1⟩
  rw [(hio.stable _ _ hc (Or.inr rfl) 5 (by omega) (by omega)).2]
  decide

/-! ## Accepted beats -/

/-- The beat accepted in cycle `t`: `Write_SI = '1'` and `WaitReq_SO = '0'`. -/
def acceptedJob (s : Signals) (i : ℕ → Inputs) : ℕ → Option Job :=
  accepted (write i) (waitReq s i) fun t => inputJob (i t)

/-- The words that were to be shown by cycle `t`. -/
def acceptedWords (s : Signals) (i : ℕ → Inputs) (t : ℕ) : List Word :=
  (log (acceptedJob s i) t).filterMap Job.toPanel

/-- The machine is in `StateIdle` two cycles from now, if no write has just been sampled. -/
def ready (s : Signals) : Bool :=
  match s.statePresD with
  | .stateIdle => !s.writeEdgeD || !decide (IsTx s.addressPD)
  | .stateEvalData => !decide (IsTx s.regAddressPresD)
  | .stateTx => decide (s.idleCountPresD.toNat = 0) && decide (s.burstCountPresD = 0)
  | .stateResetIntRegData => true
  | .stateLcdReset => decide (s.idleCountPresD.toNat = 0)
  | .stateReset | .stateNextBurstItem | .statePrepareTx => false

/-- The beat of cycle `t` is one that had to wait, or a new write that the machine will be ready
for. -/
def inTime (s : Signals) (i : ℕ → Inputs) (t : ℕ) : Bool :=
  heldOver (write i) (waitReq s i) t || (!(cycle s i t).writeS && ready (cycle s i t))

theorem ready_iff {t : ℕ} (h : (cycle s i t).writeS = false) :
    ready (cycle s i t) = true ↔ phaseAt s i (t + 2) = .idle := by
  rw [phaseAt_succ, offer_succ_of_writeS h, phaseAt_succ]
  have hr := refines_cycle (s := s) (i := i) t
  generalize phaseAt s i t = p at hr ⊢
  generalize cycle s i t = c at hr ⊢
  cases hr with
  | reset hs => simp [ready, hs, bootCycles, next]
  | lcdReset hs =>
    simp only [ready, hs, decide_eq_true_eq]
    cases c.idleCountPresD.toNat <;> simp [next]
  | booted hs => simp [ready, hs, next]
  | idle hs =>
    unfold offer
    cases he : c.writeEdgeD with
    | false => simp [ready, hs, he, next]
    | true =>
      simp only [ready, hs, he, Bool.not_true, Bool.false_or, Bool.not_eq_true',
        decide_eq_false_iff_not, if_true]
      show ¬ IsTx (jobOf c).address ↔ next Job.duration (.busy (jobOf c) 1) none = .idle
      by_cases ha : IsTx (jobOf c).address
      · simp [ha, next_word]
      · simp [ha, next_other]
  | @evalData j hs hj hd =>
    simp only [ready, hs, Bool.not_eq_true', decide_eq_false_iff_not, hj.address]
    by_cases ha : IsTx j.address
    · simp [ha, next_word]
    · rw [next_other ha]
      simp [ha, next]
  | @prepareTx j k hs hj hd hw h1 hk =>
    rw [next_word hw (by omega) (by omega), next_word hw (by omega) (by omega)]
    simp [ready, hs]
  | @tx j k hs hj hd hw h4 hk =>
    rw [next_word hw (by omega) (by omega)]
    simp only [ready, hs, Bool.and_eq_true, decide_eq_true_eq, hj.burst]
    rcases Nat.lt_or_eq_of_le (show k ≤ 8 by omega) with hlt | rfl
    · rw [next_word hw (by omega) (by omega)]
      simp only [reduceCtorEq, iff_false]
      omega
    · by_cases hb : j.burst = 0
      · rw [next_last hb]
        simp only [hb, and_true, iff_true]
        omega
      · rw [next_endless hw hb]
        simp only [reduceCtorEq, iff_false]
        exact fun h => hb h.2
  | @last j hs hw hb =>
    rw [next_last hb]
    simp [ready, hs, next]
  | @nextItem j k hs hw hb h8 =>
    rw [next_endless hw hb, next_endless hw hb]
    simp [ready, hs]

/-! ## Captures and accepted beats -/

theorem acceptedJob_of_wait {t : ℕ} (h : waitReq s i t = true) : acceptedJob s i t = none :=
  accepted_of_wait h

/-- A beat accepted before the first capture can only be the one of cycle `0`, and is lost. -/
theorem inTime_none_before {u t : ℕ} (h : ∀ v, v < u → captured s i v = none) (ht : t ≤ u) :
    when (fun t => inTime s i t = true) (acceptedJob s i) t = none := by
  rcases Nat.eq_zero_or_pos t with rfl | hpos
  · rfl
  · unfold when
    rw [acceptedJob_of_wait (waitReq_before hpos fun v hv => h v (by omega))]
    split <;> rfl

/-- After the first capture a beat in time is one that is captured two cycles later. -/
theorem inTime_eq_captured {u t : ℕ} {j : Job} (hu : captured s i u = some j) (ht : u + 2 ≤ t) :
    when (fun t => inTime s i t = true) (acceptedJob s i) t = captured s i (t + 2) := by
  have hwait : waitReq s i t = false := waitReq_after hu (by omega)
  have hheld : heldOver (write i) (waitReq s i) t = false := by
    obtain ⟨v, rfl⟩ : ∃ v, t = v + 1 := ⟨t - 1, by omega⟩
    simp [heldOver, waitReq_after hu (show u < v by omega)]
  unfold when acceptedJob accepted inTime captured
  rw [offer_eq]
  simp only [hwait, hheld, Bool.false_or, Bool.and_eq_true, Bool.not_eq_true', and_true]
  cases hs : (cycle s i t).writeS with
  | true =>
    rw [writeS_eq] at hs
    simp [rises, hs]
  | false =>
    have hready := (ready_iff hs).trans (idle_iff (t + 2)).symm
    rw [writeS_eq] at hs
    simp only [rises, hs, Bool.not_false, Bool.and_true, true_and, hready]

/-- The beat of the first capture is accepted in the cycle after it, still held. -/
theorem first_accepted (hm : Master s i) (hb : ∀ t, (i t).beginBurstTransferSi = false) {u : ℕ}
    {j : Job} (hu : captured s i u = some j) (hfirst : ∀ v, v < u → captured s i v = none) :
    write i (u - 1) = true ∧ write i u = true ∧ inTime s i (u + 1) = true ∧
      acceptedJob s i (u + 1) = some j := by
  obtain ⟨w, rfl, hr, rfl⟩ := rises_of_captured hu
  have hboot := lt_of_captured hu
  unfold bootCycles at hboot
  have hwait : ∀ v, w ≤ v → v < w + 3 → waitReq s i v = true := fun v h1 h2 =>
    waitReq_before (by omega) fun x hx => hfirst x (by omega)
  have hheld : ∀ v, w ≤ v → v ≤ w + 3 → write i v = true ∧ payload (i v) = payload (i w) :=
    fun v h1 h2 => holds_until hm h1 (rises_iff.mp hr).1 fun x hx hxv => hwait x hx (by omega)
  have hpay := (hheld (w + 3) (by omega) (by omega)).2
  have hjob : inputJob (i (w + 3)) = inputJob (i w) := by
    rw [inputJob_single (hb _), inputJob_single (hb _)]
    unfold payload at hpay
    simp only [Prod.mk.injEq] at hpay
    obtain ⟨h1, h2, h3⟩ := hpay
    rw [h1, h2, h3]
  refine ⟨(hheld (w + 1) (by omega) (by omega)).1, (hheld (w + 2) (by omega) (by omega)).1, ?_, ?_⟩
  · have hover : heldOver (write i) (waitReq s i) (w + 2 + 1) = true :=
      heldOver_succ.mpr
        ⟨(hheld (w + 2) (by omega) (by omega)).1, hwait (w + 2) (by omega) (by omega)⟩
    simp [inTime, hover]
  · exact accepted_eq_some.mpr
      ⟨(hheld (w + 3) (by omega) (by omega)).1, waitReq_after hu (by omega), hjob⟩

/-- No new write is captured in the three cycles after the first capture: the first one is still
on the port. -/
theorem none_after_first {u : ℕ} {j : Job} (hu : captured s i u = some j)
    (h1 : write i (u - 1) = true) (h2 : write i u = true) {n : ℕ} (h0 : 0 < n) (h3 : n ≤ 3) :
    captured s i (u + n) = none := by
  obtain ⟨w, rfl, hr, -⟩ := rises_of_captured hu
  obtain ⟨m, rfl⟩ : ∃ m, n = m + 1 := ⟨n - 1, by omega⟩
  have hhigh : write i (w + m) = true := by
    obtain rfl | rfl | rfl : m = 0 ∨ m = 1 ∨ m = 2 := by omega
    · exact (rises_iff.mp hr).1
    · exact h1
    · exact h2
  rw [show w + 2 + (m + 1) = w + m + 1 + 2 by omega]
  exact captured_of_not_rises (rises_succ_of_high hhigh)

/-- **At rest the captured writes are the accepted beats that were in time**, in order. -/
theorem log_captured (hm : Master s i) (hb : ∀ t, (i t).beginBurstTransferSi = false) {t : ℕ}
    (hq : Quiet s i t) :
    log (captured s i) t = log (when (fun t => inTime s i t = true) (acceptedJob s i)) t := by
  rcases first_event (captured s i) t with hnone | ⟨u, j, hut, hu, hfirst⟩
  · rw [log_eq_nil hnone, log_eq_nil fun u hu => inTime_none_before hnone (by omega)]
  · -- `u` is the cycle of the first capture
    obtain ⟨hw1, hw2, hin, hacc⟩ := first_accepted hm hb hu hfirst
    have hne1 : t ≠ u + 1 := by
      rintro rfl
      have := (idle_iff _).mp hq.idle
      rw [busy_succ_of_captured hu] at this
      simp at this
    obtain ⟨n, rfl⟩ : ∃ n, t = u + 2 + n := ⟨t - (u + 2), by omega⟩
    -- both logs up to the acceptance of the first beat
    have hL : log (captured s i) (u + 4) = [j] := by
      rw [show u + 4 = u + 1 + 3 by omega, log_add, log_succ_some hu, log_eq_nil hfirst,
        log_eq_nil fun v hv => ?_]
      · rfl
      · rw [Nat.add_assoc]
        exact none_after_first hu hw1 hw2 (by omega) (by omega)
    have hR : log (when (fun t => inTime s i t = true) (acceptedJob s i)) (u + 2) = [j] := by
      have hsome : when (fun t => inTime s i t = true) (acceptedJob s i) (u + 1) = some j := by
        unfold when
        rw [if_pos hin, hacc]
      rw [log_succ_some hsome, log_eq_nil fun v hv => inTime_none_before hfirst (by omega)]
      rfl
    -- from there on they run two cycles apart, and at rest nothing is in between
    have hstep : log (captured s i) (u + 4 + n) =
        log (when (fun t => inTime s i t = true) (acceptedJob s i)) (u + 2 + n) := by
      rw [log_add, hL, log_add (u + 2), hR]
      congr 1
      refine log_congr fun v _ => ?_
      rw [inTime_eq_captured hu (by omega)]
      congr 1
      omega
    rw [← log_captured_quiet hq, ← hstep]
    congr 1
    omega

/-- The words shown at rest, in terms of the bus. -/
theorem words_eq_inTime (hm : Master s i) (hb : ∀ t, (i t).beginBurstTransferSi = false) {t : ℕ}
    (hq : Quiet s i t) :
    words s i t =
      log (when (fun t => inTime s i t = true) fun t => (acceptedJob s i t).bind Job.toPanel)
        t := by
  rw [words_idle hq.idle, log_captured hm hb hq, log_filterMap]
  refine log_congr fun u _ => ?_
  unfold when
  split <;> rfl

/-- **In a quiet cycle the panel has seen the accepted words iff all of them were in time.** -/
theorem delivered_iff (hm : Master s i) (hb : ∀ t, (i t).beginBurstTransferSi = false) {t : ℕ}
    (hq : Quiet s i t) :
    words s i t = acceptedWords s i t ↔
      ∀ u, u < t → ∀ j, acceptedJob s i u = some j → IsTx j.address → inTime s i u = true := by
  unfold acceptedWords
  rw [words_eq_inTime hm hb hq, log_filterMap, log_when_eq_iff]
  refine forall_congr' fun u => forall_congr' fun _ => ?_
  constructor
  · intro h j hj hw
    refine h ?_
    simp [hj, Job.toPanel, hw]
  · intro h hne
    cases hj : acceptedJob s i u with
    | none => simp [hj] at hne
    | some j =>
      refine h j hj ?_
      by_contra hw
      simp [hj, Job.toPanel, hw] at hne

/-- A master that obeys the handshake and writes two words back to back. -/
def backToBack : ℕ → Inputs :=
  heldWrite (writePort regWriteDataAddr 0x1111#16) [writePort regWriteDataAddr 0x2222#16]

theorem backToBack_single (t : ℕ) : (backToBack t).beginBurstTransferSi = false :=
  heldWrite_single rfl (by simp [writePort, quietPort]) t

/-- **The second word is accepted while the first is being sent, and is lost.** -/
theorem back_to_back_loses :
    Master fresh backToBack ∧ (∀ t, (backToBack t).beginBurstTransferSi = false) ∧
      Quiet fresh backToBack (bootCycles + 13) ∧
      words fresh backToBack (bootCycles + 13) ≠
        acceptedWords fresh backToBack (bootCycles + 13) := by
  have hm : Master fresh backToBack := master_heldWrite rfl
  have hq : Quiet fresh backToBack (bootCycles + 13) :=
    quiet_heldWrite rfl rfl (Or.inl rfl) (by simp)
  have hport : ∀ n, n = 4 ∨ n = 5 → write backToBack (bootCycles + n) = true ∧
      waitReq fresh backToBack (bootCycles + n) = false := by
    intro n hn
    unfold write backToBack
    rw [heldWrite_add (by omega), heldWrite_wait rfl (by omega)]
    obtain rfl | rfl := hn <;> exact ⟨rfl, rfl⟩
  refine ⟨hm, backToBack_single, hq, ?_⟩
  unfold acceptedWords
  rw [words_eq_inTime hm backToBack_single hq, log_filterMap, Ne, log_when_eq_iff]
  intro h
  -- the second beat is on the port in the cycle after the first one was accepted
  have hacc : acceptedJob fresh backToBack (bootCycles + 5) =
      some (inputJob (writePort regWriteDataAddr 0x2222#16)) :=
    heldWrite_accepted rfl (by simp [writePort]) inputJob 1
  have hin := h (bootCycles + 5) (by omega) (by rw [hacc]; decide)
  have hheld : heldOver (write backToBack) (waitReq fresh backToBack)
      (bootCycles + 5) = false := by
    rw [heldOver, delay_succ, (hport 4 (by omega)).2, Bool.and_false]
  have hs : (cycle fresh backToBack (bootCycles + 5)).writeS = true := by
    rw [writeS_eq, delay_succ, (hport 4 (by omega)).1]
  unfold inTime at hin
  rw [hheld, hs] at hin
  simp at hin

/-- A single command is delivered. -/
theorem single_write_delivered :
    words fresh oneCommand (bootCycles + 13) =
      acceptedWords fresh oneCommand (bootCycles + 13) := by
  have hm : Master fresh oneCommand := master_heldWrite rfl
  have hq : Quiet fresh oneCommand (bootCycles + 13) :=
    quiet_heldWrite rfl rfl (Or.inr rfl) (by simp)
  refine (delivered_iff hm oneCommand_single hq).mpr ?_
  intro u _ j hj _
  by_cases hu : u < bootCycles + 4
  · have hnone : acceptedJob fresh oneCommand u = none :=
      heldWrite_accepted_none rfl inputJob hu
    rw [hnone] at hj
    simp at hj
  · obtain ⟨k, rfl⟩ : ∃ k, u = bootCycles + (4 + k) := ⟨u - (bootCycles + 4), by omega⟩
    have hsome : acceptedJob fresh oneCommand (bootCycles + (4 + k)) = _ :=
      heldWrite_accepted rfl (by simp) inputJob k
    obtain rfl : k = 0 := by
      by_contra hk
      rw [hsome, List.getElem?_eq_none] at hj
      · simp at hj
      · simp only [List.length_map, List.length_cons, List.length_nil]
        omega
    -- the accepted beat is the one that has waited
    have hport : write oneCommand (bootCycles + 3) = true :=
      write_heldWrite_held rfl (by omega) (by omega)
    have hwait : waitReq fresh oneCommand (bootCycles + 3) = true :=
      heldWrite_wait rfl (by omega)
    have hheld := heldOver_succ.mpr ⟨hport, hwait⟩
    unfold inTime
    rw [Nat.add_zero, show bootCycles + 4 = bootCycles + 3 + 1 by omega, hheld, Bool.true_or]

end LcdInterface.LcdDriver

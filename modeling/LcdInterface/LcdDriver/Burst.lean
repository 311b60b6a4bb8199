import LcdInterface.LcdDriver.Boot

/-!
# Write bursts

`regUpdate` assigns `RegBurstCountPres_D` itself instead of `RegBurstCountNext_D`, so the length of
a burst is never stored, `burstStream` stores no word of it, and `StateNextBurstItem` waits for a
word that never comes.

* `stuck_after`: after the capture of a burst's first beat the machine shows that word and stays in
  `StateNextBurstItem`.
* `back_to_idle_iff`: some inputs lead back to `StateIdle` from every state of a run iff the run
  captures no such beat.
* `burst_not_delivered`: no burst to `RegWriteDataAddr` is delivered, not even one of a single word,
  as the interconnect makes of a CPU's write.
-/

namespace LcdInterface.LcdDriver

open Clocked Clocked.Server Clocked.Handshake
open Slave (Inputs)

variable {s : Signals} {i : ℕ → Inputs}

/-! ## After a burst -/

theorem refines_from (t : ℕ) (x : ℕ → Inputs) (n : ℕ) :
    Refines (run edge (cycle s i t) x n)
      (run (next Job.duration) (phaseAt s i t) (fun m => offer (run edge (cycle s i t) x m)) n) :=
  (refines_run (noStream_cycle t) (refines_cycle t) x n).2

/-- **The machine waits in `StateNextBurstItem`**, whatever the master does. -/
theorem stuck_after {t : ℕ} {j : Job} (h : captured s i t = some j) (hd : j.duration = ⊤) {k : ℕ}
    (hk : 8 < k) : (cycle s i (t + k)).statePresD = .stateNextBurstItem := by
  have hp : phaseAt s i (t + k) = .busy j k :=
    busy_of_captured h (by omega) (by rw [hd]; exact WithTop.coe_lt_top k)
  have hr := refines_cycle (s := s) (i := i) (t + k)
  rw [hp] at hr
  cases hr with
  | evalData => omega
  | prepareTx _ _ _ _ _ hk' => omega
  | tx _ _ _ _ _ hk' => omega
  | last _ _ hb => exact absurd hb (duration_eq_top.mp hd).2
  | nextItem hs => exact hs

theorem never_back {t : ℕ} {j : Job} (h : captured s i t = some j) (hd : j.duration = ⊤)
    (x : ℕ → Inputs) (n : ℕ) : (run edge (cycle s i (t + 1)) x n).statePresD ≠ .stateIdle := by
  intro hidle
  have hp := (refines_from (s := s) (i := i) (t + 1) x n).idle_iff.mp hidle
  rw [busy_succ_of_captured h, run_endless hd] at hp
  simp at hp

/-- `StateIdle` captures the first beat of a burst to the panel that announces a word. -/
structure EndlessCapture (s : Signals) : Prop where
  idle : s.statePresD = .stateIdle
  pulse : s.writeEdgeD = true
  begins : s.beginBurstTransferPS = true
  count : s.burstCountPD ≠ 0
  address : IsTx s.addressPD

theorem endlessCapture_iff {t : ℕ} :
    EndlessCapture (cycle s i t) ↔ ∃ j, captured s i t = some j ∧ j.duration = ⊤ := by
  unfold captured offer
  constructor
  · intro h
    rw [if_pos h.idle, if_pos h.pulse]
    refine ⟨_, rfl, duration_eq_top.mpr ⟨h.address, ?_⟩⟩
    show (if _ then _ else _) ≠ _
    rw [if_pos h.begins]
    exact h.count
  · rintro ⟨j, hc, hd⟩
    split at hc
    · rename_i hidle
      split at hc
      · rename_i hpulse
        obtain rfl := Option.some.inj hc
        obtain ⟨ha, hb⟩ := duration_eq_top.mp hd
        unfold jobOf at hb
        cases hbeg : (cycle s i t).beginBurstTransferPS with
        | false => simp [hbeg] at hb
        | true =>
          rw [hbeg] at hb
          exact ⟨hidle, hpulse, hbeg, hb, ha⟩
      · simp at hc
    · simp at hc

/-- **Every state of a run can get back to `StateIdle` iff the run captures no burst.** -/
theorem back_to_idle_iff (s : Signals) (i : ℕ → Inputs) :
    (∀ t, ∃ x n, (run edge (cycle s i t) x n).statePresD = .stateIdle) ↔
      ∀ t, ¬ EndlessCapture (cycle s i t) := by
  constructor
  · intro h t hend
    obtain ⟨j, hc, hd⟩ := endlessCapture_iff.mp hend
    obtain ⟨x, n, hidle⟩ := h (t + 1)
    exact never_back hc hd x n hidle
  · intro h t
    have hfin : ∀ j k, phaseAt s i t = .busy j k → j.duration ≠ ⊤ := by
      intro j k hp hd
      obtain ⟨u, -, -, hc⟩ := captured_of_busy hp
      exact h u (endlessCapture_iff.mpr ⟨j, hc, hd⟩)
    -- any inputs will do
    let x : ℕ → Inputs := fun _ => quietPort
    obtain ⟨n, hn⟩ := idle_eventually hfin fun m => offer (run edge (cycle s i t) x m)
    exact ⟨x, n, (refines_from t x n).idle_iff.mpr hn⟩

/-- The first beat of a burst of `n` words. -/
def burstPort (n : BitVec picsizeBin) (d : BitVec 16) : Inputs :=
  { writePort regWriteDataAddr d with beginBurstTransferSi := true, burstCountDi := n }

/-- The master sends `d`, held until it is accepted, and then `l`, as one burst. -/
def heldBurst (d : BitVec 16) (l : List (BitVec 16)) : ℕ → Inputs :=
  heldWrite (burstPort (BitVec.ofNat picsizeBin (l.length + 1)) d)
    (l.map (writePort regWriteDataAddr))

theorem heldBurst_captured (d : BitVec 16) (l : List (BitVec 16)) :
    captured s (heldBurst d l) (bootCycles + 3) =
      some ⟨regWriteDataAddr, d, BitVec.allOnes 2, BitVec.ofNat picsizeBin (l.length + 1)⟩ :=
  (heldWrite_captured rfl).1

/-- After a burst of one word `StateIdle` is out of reach. -/
theorem burst_of_one_stuck :
    ¬ ∃ x n, (run edge (cycle fresh (heldBurst 0x1111#16 []) (bootCycles + 4)) x n).statePresD =
      .stateIdle := by
  rintro ⟨x, n, hidle⟩
  have hend := duration_eq_top (j := ⟨regWriteDataAddr, 0x1111#16, BitVec.allOnes 2, 1⟩)
  exact never_back (heldBurst_captured 0x1111#16 []) (hend.mpr ⟨Or.inl rfl, by decide⟩) x n hidle

/-! ## A burst to the panel -/

/-- From a quiet `StateIdle` in cycle `t` on, the master sends `l` to `RegWriteDataAddr` as one
burst. -/
structure SendsBurst (s : Signals) (i : ℕ → Inputs) (t : ℕ) (l : List (BitVec 16)) : Prop where
  master : Master s i
  idle : (cycle s i t).statePresD = .stateIdle
  sampled : (cycle s i t).writeS = false
  pulse : (cycle s i t).writeEdgeD = false
  starts : write i t = true
  begins : (i t).beginBurstTransferSi = true
  count : (i t).burstCountDi = BitVec.ofNat picsizeBin l.length
  address : (i t).addressDi = regWriteDataAddr
  /-- The accepted beats, with any gaps. -/
  beats : ∃ n,
    log (fun m => accepted (write i) (waitReq s i) (fun t => (i t).writeDataDi) (t + m)) n = l ∧
      ∀ m, n ≤ m → write i (t + m) = false

/-- From cycle `t` on the panel is shown `l` as data, and the machine gets back to `StateIdle`. -/
def BurstDelivered (s : Signals) (i : ℕ → Inputs) (t : ℕ) (l : List (BitVec 16)) : Prop :=
  ∃ n, (cycle s i (t + n)).statePresD = .stateIdle ∧
    log (fun m => presented s i (t + m)) n = l.map fun d => (d, true)

/-- Any list can be sent so, once the LCD reset is over. -/
theorem sendsBurst_heldBurst (d : BitVec 16) (l : List (BitVec 16)) :
    SendsBurst s (heldBurst d l) (bootCycles + 1) (d :: l) := by
  have hport : heldBurst d l (bootCycles + 1) =
      burstPort (BitVec.ofNat picsizeBin (l.length + 1)) d := heldWrite_add (by omega)
  obtain ⟨hs, he⟩ := empty_boot (s := s) (i := heldBurst d l) fun t ht => write_heldWrite_boot ht
  refine ⟨master_heldWrite rfl, (idle_iff _).mpr phaseAt_ready, hs, he,
    write_heldWrite_held rfl (by omega) (by omega), ?_, ?_, ?_, 3 + (l.length + 1), ?_, ?_⟩
  · rw [hport]
    rfl
  · rw [hport]
    rfl
  · rw [hport]
    rfl
  · have hwr : ∀ y ∈ l.map (writePort regWriteDataAddr), y.writeSi = true := by
      intro y hy
      obtain ⟨d', -, rfl⟩ := List.mem_map.mp hy
      rfl
    have hbeats : (burstPort (BitVec.ofNat picsizeBin (l.length + 1)) d ::
        l.map (writePort regWriteDataAddr)).map Inputs.writeDataDi = d :: l := by
      rw [List.map_cons, List.map_map]
      exact congrArg (d :: ·) (List.map_id l)
    rw [log_shift (f := fun k => (d :: l)[k]?) (fun m hm => ?_) fun k _ => ?_]
    · exact log_getElem? (d :: l)
    · exact heldWrite_accepted_none rfl _ (by omega)
    · rw [show bootCycles + 1 + (3 + k) = bootCycles + (4 + k) by omega, ← hbeats]
      exact heldWrite_accepted rfl hwr Inputs.writeDataDi k
  · intro m hm
    rw [Nat.add_assoc]
    exact write_heldWrite_low (by rw [List.length_map]; omega)

theorem ofNat_ne_zero {n : ℕ} (h1 : 1 ≤ n) (hn : n ≤ picsizeDec) :
    BitVec.ofNat picsizeBin n ≠ 0 := by
  unfold picsizeDec at hn
  intro h
  have hmod : n % 2 ^ 17 = 0 := congrArg BitVec.toNat h
  omega

/-- **A burst leaves `StateIdle` for good** before a word of it is shown. -/
theorem idle_of_burst {t : ℕ} {l : List (BitVec 16)} (h : SendsBurst s i t l)
    (h1 : 1 ≤ l.length) (hl : l.length ≤ picsizeDec) {n : ℕ}
    (hidle : (cycle s i (t + n)).statePresD = .stateIdle) :
    n < 3 ∧ log (fun m => presented s i (t + m)) n = [] := by
  have hp := (idle_iff t).mp h.idle
  have hc := capture_of_idle hp h.sampled h.pulse h.starts
  have hd : (inputJob (i t)).duration = ⊤ := by
    rw [inputJob_burst h.begins, duration_eq_top]
    refine ⟨Or.inl h.address, ?_⟩
    rw [h.count]
    exact ofNat_ne_zero h1 hl
  have hn : n < 3 := by
    by_contra hge
    obtain ⟨m, rfl⟩ : ∃ m, n = 3 + m := ⟨n - 3, by omega⟩
    refine never_back hc hd (fun u => i (t + 2 + 1 + u)) m ?_
    rw [show t + (3 + m) = t + 2 + 1 + m by omega] at hidle
    unfold cycle at hidle ⊢
    rwa [run_add] at hidle
  refine ⟨hn, log_eq_nil fun m hm => ?_⟩
  obtain ⟨hp1, hp2⟩ := idle_for_two hp h.sampled h.pulse
  obtain rfl | rfl : m = 0 ∨ m = 1 := by omega
  · rw [presented_eq, Nat.add_zero, hp1]
    rfl
  · rw [presented_eq, Nat.add_assoc, hp2]
    rfl

/-- **No burst is delivered.** -/
theorem burst_not_delivered {t : ℕ} {l : List (BitVec 16)} (h : SendsBurst s i t l)
    (h1 : 1 ≤ l.length) (hl : l.length ≤ picsizeDec) : ¬ BurstDelivered s i t l := by
  rintro ⟨n, hidle, hlog⟩
  rw [(idle_of_burst h h1 hl hidle).2] at hlog
  have hlen := congrArg List.length hlog
  rw [List.length_nil, List.length_map] at hlen
  omega

/-- A burst of one word, as the interconnect makes of a single write. -/
theorem burst_of_one_lost :
    SendsBurst fresh (heldBurst 0x1111#16 []) (bootCycles + 1) [0x1111#16] ∧
      ¬ BurstDelivered fresh (heldBurst 0x1111#16 []) (bootCycles + 1) [0x1111#16] := by
  have h := sendsBurst_heldBurst (s := fresh) 0x1111#16 []
  refine ⟨h, ?_⟩
  rintro ⟨n, hidle, hlog⟩
  rw [(idle_of_burst h (by decide) (by decide) hidle).2] at hlog
  simp at hlog

/-- A burst of two words. -/
theorem burst_of_two_lost :
    ¬ BurstDelivered fresh (heldBurst 0x1111#16 [0x2222#16]) (bootCycles + 1)
      [0x1111#16, 0x2222#16] :=
  burst_not_delivered (sendsBurst_heldBurst _ _) (by decide) (by decide)

end LcdInterface.LcdDriver

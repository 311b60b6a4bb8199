import LcdInterface.LcdDriver.Pins

/-!
# What the outputs remember

Two runs from reset with the same offers differ at most in `BitEnable_D` (`outputs_congr`).

* `outputs_of_sameWrites`: the driver sees a write in the cycle in which `Write_SI` rises, and
  nothing else of its inputs.
* `reset_erases_iff`: no reset branch assigns `BitEnable_D`, and `StatePrepareTx` reads it before
  `StateTx` assigns it. So a reset erases the history iff that value does not show in the first word
  after it. `reset_keeps_mask` is a pair of states where it does.
-/

namespace LcdInterface.LcdDriver

open Clocked Clocked.Server
open Slave (Inputs)

/-! ## Inputs that do not matter -/

/-- The two traces have the same writes: `Write_SI` throughout, and the rest in the first cycle of
each. -/
structure SameWrites (i i' : ℕ → Inputs) : Prop where
  write : ∀ t, (i t).writeSi = (i' t).writeSi
  address : ∀ t, rises (LcdDriver.write i) t = true → (i t).addressDi = (i' t).addressDi
  writeData : ∀ t, rises (LcdDriver.write i) t = true → (i t).writeDataDi = (i' t).writeDataDi
  byteEnable : ∀ t, rises (LcdDriver.write i) t = true → (i t).byteEnableDi = (i' t).byteEnableDi
  beginBurstTransfer : ∀ t, rises (LcdDriver.write i) t = true →
    (i t).beginBurstTransferSi = (i' t).beginBurstTransferSi
  burstCount : ∀ t, rises (LcdDriver.write i) t = true → (i t).burstCountDi = (i' t).burstCountDi

section Runs

variable {s s' : Signals} {i i' : ℕ → Inputs}

/-- The offers of both runs are those of the inputs. -/
theorem offer_congr (hw : write i = write i')
    (hjob : ∀ t, rises (write i) t = true → inputJob (i t) = inputJob (i' t)) (t : ℕ) :
    offer (cycle s i t) = offer (cycle s' i' t) := by
  rcases t with _ | _ | t
  · rw [offer_zero, offer_zero]
  · rw [offer_one, offer_one]
  · rw [offer_eq, offer_eq, ← hw]
    split_ifs with hr
    · rw [hjob t hr]
    · rfl

/-- From equal values, `BitEnable_D` stays equal. -/
theorem bitEnableD_congr (h : ∀ t, offer (cycle s i t) = offer (cycle s' i' t)) {u : ℕ}
    (hu : (cycle s i u).bitEnableD = (cycle s' i' u).bitEnableD) (n : ℕ) :
    (cycle s i (u + n)).bitEnableD = (cycle s' i' (u + n)).bitEnableD := by
  induction n with
  | zero => exact hu
  | succ n ih => rw [← Nat.add_assoc, bitEnableD_succ, bitEnableD_succ, ih, phaseAt_congr h]

theorem SameWrites.offer_eq (h : SameWrites i i') (t : ℕ) :
    offer (cycle s i t) = offer (cycle s i' t) := by
  refine offer_congr (funext h.write) (fun t hr => ?_) t
  unfold inputJob
  rw [h.address t hr, h.writeData t hr, h.byteEnable t hr, h.beginBurstTransfer t hr,
    h.burstCount t hr]

/-- **Only the first cycle of a write matters.** -/
theorem outputs_of_sameWrites (s : Signals) (h : SameWrites i i') (t : ℕ) :
    outputs (cycle s i t).toLogic = outputs (cycle s i' t).toLogic := by
  have hm : (cycle s i (0 + t)).bitEnableD = (cycle s i' (0 + t)).bitEnableD :=
    bitEnableD_congr h.offer_eq rfl t
  rw [Nat.zero_add] at hm
  exact outputs_congr h.offer_eq hm

/-- `i` with a read in every cycle, and something else on the other lines after the first cycle of
a write. -/
def noisy (i : ℕ → Inputs) (t : ℕ) : Inputs :=
  if rises (write i) t then i t
  else { writePort 0x1234#16 0xFFFF#16 with writeSi := (i t).writeSi, readSi := true }

theorem sameWrites_noisy (i : ℕ → Inputs) : SameWrites i (noisy i) := by
  have hfirst : ∀ t, rises (write i) t = true → noisy i t = i t := fun t hr => if_pos hr
  refine ⟨fun t => ?_, ?_, ?_, ?_, ?_, ?_⟩
  · unfold noisy
    split <;> rfl
  all_goals
    intro t hr
    rw [hfirst t hr]

/-- A command and its noisy copy, in the first cycle of `StateTx`. -/
theorem one_command_noisy :
    (noisy oneCommand 0).readSi ≠ (oneCommand 0).readSi ∧
      outputs (cycle fresh oneCommand (bootCycles + 8)).toLogic =
        outputs (cycle fresh (noisy oneCommand) (bootCycles + 8)).toLogic := by
  refine ⟨?_, outputs_of_sameWrites fresh (sameWrites_noisy oneCommand) (bootCycles + 8)⟩
  have h0 : oneCommand 0 = quietPort := heldWrite_boot (Nat.zero_le _)
  have hr : rises (write oneCommand) 0 = false := by
    rw [rises, write, h0]
    rfl
  rw [noisy, hr, h0]
  decide

/-! ## What a reset keeps -/

/-- The first write to the panel after the reset rises in cycle `t`. -/
structure FirstWord (i : ℕ → Inputs) (t : ℕ) : Prop where
  rises : Clocked.rises (write i) t = true
  booted : bootCycles < t + 2
  isTx : IsTx (i t).addressDi
  first : ∀ v, v < t → Clocked.rises (write i) v = true → bootCycles < v + 2 →
    ¬ IsTx (i v).addressDi

/-- Before the first word the driver is never busy when a write arrives: `StateEvalData` rejects
the other addresses within the two cycles that two rising edges are apart. -/
theorem FirstWord.captured_eq {t : ℕ} (h : FirstWord i t) :
    captured s i (t + 2) = some (inputJob (i t)) := by
  rw [captured_eq_some, offer_eq, if_pos h.rises]
  refine ⟨?_, rfl⟩
  cases hp : phaseAt s i (t + 2) with
  | down k => exact absurd hp (phase_ne_down h.booted k)
  | idle => rfl
  | busy j k =>
    obtain ⟨u, hu, h0, hc⟩ := captured_of_busy hp
    obtain ⟨v, rfl, hr, rfl⟩ := rises_of_captured hc
    have hboot := lt_of_captured hc
    have hother : ¬ IsTx (inputJob (i v)).address := h.first v (by omega) hr hboot
    -- so the job is one cycle old, and two rising edges are not
    have hk : k = 1 := by
      by_contra hne
      exact hother (isTx_of_busy hp (by omega))
    obtain rfl : t = v + 1 := by omega
    have hlow := rises_succ_of_high (rises_iff.mp hr).1
    rw [h.rises] at hlow
    simp at hlow

/-- Earlier captures are not words. -/
theorem FirstWord.not_isTx {t v : ℕ} {j : Job} (h : FirstWord i t) (hv : v < t + 2)
    (hc : captured s i v = some j) : ¬ IsTx j.address := by
  obtain ⟨u, rfl, hr, rfl⟩ := rises_of_captured hc
  exact h.first u (by omega) hr (lt_of_captured hc)

/-- A captured word is not before the first one. -/
theorem exists_firstWord {u : ℕ} {j : Job} (hc : captured s i u = some j) (hw : IsTx j.address) :
    ∃ t, t + 2 ≤ u ∧ FirstWord i t := by
  obtain ⟨v, rfl, hr, rfl⟩ := rises_of_captured hc
  have hex : ∃ t, Clocked.rises (write i) t = true ∧ bootCycles < t + 2 ∧ IsTx (i t).addressDi :=
    ⟨v, hr, lt_of_captured hc, hw⟩
  obtain ⟨h1, h2, h3⟩ := Nat.find_spec hex
  refine ⟨Nat.find hex, ?_, h1, h2, h3, fun x hx hrx hbx hwx => ?_⟩
  · have := Nat.find_min' hex ⟨hr, lt_of_captured hc, hw⟩
    omega
  · exact Nat.find_min hex hx ⟨hrx, hbx, hwx⟩

/-- Nothing else is captured while the first word is served. -/
theorem FirstWord.eq_of_captured {t u : ℕ} {j : Job} (h : FirstWord i t)
    (hc : captured s i u = some j) (htu : t + 2 ≤ u) (hut : u < t + 12) : j = inputJob (i t) := by
  have hfirst := h.captured_eq (s := s)
  rcases Nat.eq_or_lt_of_le htu with rfl | hlt
  · rw [hfirst] at hc
    exact (Option.some.inj hc).symm
  · obtain ⟨k, rfl⟩ := Nat.exists_eq_add_of_lt hlt
    have hidle := (captured_eq_some.mp hc).1
    rw [Nat.add_assoc, busy_of_word hfirst h.isTx (by omega) (by omega)] at hidle
    simp at hidle

/-- Until a word reaches `StateTx`, `BitEnable_D` is what it was before the reset. -/
theorem bitEnableD_kept {t : ℕ}
    (h : ∀ u j, captured s i u = some j → IsTx j.address → t < u + 5) :
    (cycle s i t).bitEnableD = s.bitEnableD := by
  induction t with
  | zero => rfl
  | succ t ih =>
    rw [bitEnableD_succ, ih fun u j hc hw => by have := h u j hc hw; omega]
    cases hp : phaseAt s i (t + 1) with
    | down k => rfl
    | idle => rfl
    | busy j k =>
      refine if_neg ?_
      rintro ⟨h4, -⟩
      obtain ⟨u, hu, -, hc⟩ := captured_of_busy hp
      have := h u j hc (isTx_of_busy hp (by omega))
      omega

/-- The first word shows the old `BitEnable_D`. -/
theorem FirstWord.dbDio {t : ℕ} (h : FirstWord i t) :
    (cycle s i (t + 4)).dbDio = (i t).writeDataDi &&& s.bitEnableD := by
  have hc := h.captured_eq (s := s)
  have hp : phaseAt s i (t + 4) = .busy (inputJob (i t)) 2 :=
    busy_of_word hc h.isTx (k := 2) (by omega) (by omega)
  have hmask : (cycle s i (t + 4)).bitEnableD = s.bitEnableD := by
    refine bitEnableD_kept fun u j hu hw => ?_
    by_contra hlt
    exact h.not_isTx (by omega) hu hw
  have hpins := pins_eq (s := s) (i := i) (t + 4)
  rw [hp, hmask] at hpins
  exact congrArg Pins.dbDio hpins

theorem pinsOf_congr {mask mask' : BitVec 16} {p : Phase Job}
    (h : ∀ j k, p = .busy j k → k ≠ 1 → k < 5 → j.data &&& mask = j.data &&& mask') :
    pinsOf mask p = pinsOf mask' p := by
  cases p with
  | down k => rfl
  | idle => rfl
  | busy j k =>
    simp only [pinsOf]
    split_ifs with h1 h5
    · rfl
    · rw [h j k rfl h1 h5]
    · rfl
    · rfl

/-- **A reset erases the history iff the old `BitEnable_D` does not show in the first word.** -/
theorem reset_erases_iff (s s' : Signals) (i : ℕ → Inputs) :
    (∀ t, outputs (cycle s i t).toLogic = outputs (cycle s' i t).toLogic) ↔
      ∀ t, FirstWord i t →
        (i t).writeDataDi &&& s.bitEnableD = (i t).writeDataDi &&& s'.bitEnableD := by
  have hoffer : ∀ t, offer (cycle s i t) = offer (cycle s' i t) :=
    offer_congr rfl fun _ _ => rfl
  constructor
  · intro h t ht
    rw [← ht.dbDio, ← ht.dbDio]
    exact congrArg (fun o => o.dbDio) (h (t + 4))
  · intro h t
    by_cases hsent : ∃ u j, captured s i u = some j ∧ IsTx j.address ∧ u + 5 ≤ t
    · -- `StateTx` has assigned the variable in both runs
      obtain ⟨u, j, hc, hw, hut⟩ := hsent
      obtain ⟨n, rfl⟩ := Nat.exists_eq_add_of_le hut
      refine outputs_congr hoffer (bitEnableD_congr hoffer ?_ n)
      have hp := busy_of_word hc hw (k := 5) (by omega) (by omega)
      rw [bitEnableD_succ (u + 4), bitEnableD_succ (u + 4), ← phaseAt_congr hoffer, hp]
      rfl
    · have hcap := captured_congr hoffer
      have hwait : (cycle s i t).waitReqSo = (cycle s' i t).waitReqSo :=
        congrFun (waitReq_congr hcap) t
      have hmask : (cycle s i t).bitEnableD = s.bitEnableD := by
        refine bitEnableD_kept fun u j hc hw => ?_
        by_contra hlt
        exact hsent ⟨u, j, hc, hw, by omega⟩
      have hmask' : (cycle s' i t).bitEnableD = s'.bitEnableD := by
        refine bitEnableD_kept fun u j hc hw => ?_
        by_contra hlt
        exact hsent ⟨u, j, hcap ▸ hc, hw, by omega⟩
      unfold outputs
      rw [pins_eq, pins_eq, ← phaseAt_congr hoffer, hwait, hmask, hmask']
      rw [pinsOf_congr fun j k hp h1 h5 => ?_]
      -- the word on the bus is the first one
      obtain ⟨u, rfl, h0, hc⟩ := captured_of_busy hp
      obtain ⟨v, hvu, hfirst⟩ := exists_firstWord hc (isTx_of_busy hp (by omega))
      have hearly : u + k < v + 2 + 5 := by
        by_contra hle
        exact hsent ⟨v + 2, _, hfirst.captured_eq, hfirst.isTx, by omega⟩
      rw [hfirst.eq_of_captured hc hvu (by omega)]
      exact h v hfirst

end Runs

/-! ### Two states that a reset does not make equal -/

theorem firstWord_oneCommand : FirstWord oneCommand (bootCycles + 1) := by
  have hport : oneCommand (bootCycles + 1) = writePort regWriteCmdAddr 0x002C#16 :=
    heldWrite_add (by omega)
  refine ⟨(rises_heldWrite rfl _).mpr rfl, by omega, ?_, fun v hv hr _ => ?_⟩
  · rw [hport]
    exact Or.inr rfl
  · have := (rises_heldWrite rfl v).mp hr
    omega

/-- **`BitEnable_D` is `0` at power-up and `0xFFFF` while the first word is sent**, and after a
reset in these two states the same command looks different. -/
theorem reset_keeps_mask :
    (cycle (signals (fun _ => 0) firstWrite 0) oneCommand (bootCycles + 5)).dbDio = 0 ∧
      (cycle (signals (fun _ => 0) firstWrite (bootCycles + 9)) oneCommand
        (bootCycles + 5)).dbDio = 0x002C#16 := by
  have hport : oneCommand (bootCycles + 1) = writePort regWriteCmdAddr 0x002C#16 :=
    heldWrite_add (by omega)
  have hsent : (signals (fun _ => 0) firstWrite (bootCycles + 9)).bitEnableD = 0xFFFF#16 := by
    have hc : captured fresh oneCommand (bootCycles + 3) = some _ := (heldWrite_captured rfl).1
    have hp := busy_of_word hc (Or.inr rfl) (k := 5) (by omega) (by omega)
    have hr := refines_cycle (s := fresh) (i := oneCommand) (bootCycles + 3 + 5)
    rw [hp] at hr
    have hmask := hr.bitEnableD (by omega) (by omega)
    rw [show bootCycles + 9 = bootCycles + 3 + 5 + 1 from rfl, signals_firstWrite, hmask]
    decide
  have h := firstWord_oneCommand
  have hshow : ∀ s, (cycle s oneCommand (bootCycles + 5)).dbDio = 0x002C#16 &&& s.bitEnableD := by
    intro s
    have hdb := h.dbDio (s := s)
    rw [hport] at hdb
    exact hdb
  rw [hshow, hshow, hsent]
  decide

end LcdInterface.LcdDriver

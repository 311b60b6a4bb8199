import LcdInterface.LcdDriver.Pins

/-!
# The waveforms at the panel

* `strobe_shape`: `Cs_NSO` is `'0'` for one word at a time: three cycles with `Wr_NSO = '0'`, then
  `'1'` for the four of `StateTx` and, unless a burst goes on, for the one of `StateResetIntRegData`
  that follows.
* `reset_pulse`: `LcdReset_NRO` is `'0'` once, from cycle 1 to cycle 500000002 after reset.
-/

namespace LcdInterface.LcdDriver

open Clocked Clocked.Server
open Slave (Inputs)

section Runs

variable {s : Signals} {i : ℕ → Inputs}

/-! ## `Cs_NSO` -/

/-- The age at which the panel's bus is released: a burst goes on without `StateResetIntRegData`. -/
def Job.released (j : Job) : ℕ := if j.burst = 0 then 10 else 9

theorem Job.lt_released_iff {j : Job} {k : ℕ} :
    k < j.released ↔ k < 9 ∨ k = 9 ∧ j.burst = 0 := by
  unfold Job.released
  split_ifs with hb
  · simp only [hb, and_true]
    omega
  · simp only [hb, and_false, or_false]

theorem Job.released_bounds (j : Job) : 9 ≤ j.released ∧ j.released ≤ 10 := by
  unfold Job.released
  split_ifs <;> simp

/-- While a job is on the panel's bus. -/
theorem pins_onBus {t : ℕ} {j : Job} {k : ℕ} (h : phaseAt s i t = .busy j k) (h1 : 1 < k)
    (hk : k < j.released) :
    ∃ db, pins (cycle s i t).toLogic =
      .shown (decide (4 < k)) (db, decide (j.address = regWriteDataAddr)) := by
  rw [pins_eq, h, pinsOf, if_neg (by omega)]
  rcases Nat.lt_or_ge k 5 with h5 | h5
  · have hwr : decide (4 < k) = false := decide_eq_false (by omega)
    rw [if_pos h5, hwr]
    exact ⟨_, rfl⟩
  · have hwr : decide (4 < k) = true := decide_eq_true (by omega)
    rw [if_neg (by omega), if_pos (Job.lt_released_iff.mp hk), hwr]
    exact ⟨_, rfl⟩

theorem onBus_of_pinsOf {mask : BitVec 16} {p : Phase Job} (hage : ∀ j k, p = .busy j k → 0 < k)
    (h : (pinsOf mask p).csNso = false) : ∃ j k, p = .busy j k ∧ 1 < k ∧ k < j.released := by
  cases p with
  | down k =>
    simp only [pinsOf] at h
    split_ifs at h <;> simp [Pins.reset, Pins.lcdReset] at h
  | idle => simp [pinsOf, Pins.idle] at h
  | busy j k =>
    simp only [pinsOf] at h
    have hpos := hage j k rfl
    refine ⟨j, k, rfl, ?_⟩
    rw [Job.lt_released_iff]
    split_ifs at h with h1 h5 h9
    · simp [Pins.evalData] at h
    · exact ⟨by omega, Or.inl (by omega)⟩
    · exact ⟨by omega, h9⟩
    · simp [Pins.idle] at h

/-- **`Cs_NSO` is `'0'` while a job is on the panel's bus.** -/
theorem csNso_eq_false {t : ℕ} :
    (cycle s i t).csNso = false ↔
      ∃ j k, phaseAt s i t = .busy j k ∧ 1 < k ∧ k < j.released := by
  constructor
  · intro hcs
    have hp : (pinsOf (cycle s i t).bitEnableD (phaseAt s i t)).csNso = false := by
      rw [← pins_eq]
      exact hcs
    refine onBus_of_pinsOf (fun j k h => ?_) hp
    obtain ⟨u, -, h0, -⟩ := captured_of_busy h
    exact h0
  · rintro ⟨j, k, h, h1, hk⟩
    obtain ⟨db, hp⟩ := pins_onBus h h1 hk
    exact congrArg Pins.csNso hp

/-! ### Around one word -/

theorem csNso_before {u : ℕ} {j : Job} (hu : captured s i u = some j) :
    (cycle s i (u + 1)).csNso = true := by
  by_contra hcs
  rw [Bool.not_eq_true, csNso_eq_false] at hcs
  obtain ⟨j', k, hp, hk, -⟩ := hcs
  rw [busy_succ_of_captured hu, Phase.busy.injEq] at hp
  omega

theorem pins_word {u : ℕ} {j : Job} (hu : captured s i u = some j) (hw : IsTx j.address) {k : ℕ}
    (h1 : 1 < k) (hk : k < j.released) :
    ∃ db, pins (cycle s i (u + k)).toLogic =
      .shown (decide (4 < k)) (db, decide (j.address = regWriteDataAddr)) :=
  pins_onBus (busy_of_word hu hw (by omega) (by have := j.released_bounds; omega)) h1 hk

theorem csNso_word {u : ℕ} {j : Job} (hu : captured s i u = some j) (hw : IsTx j.address) {k : ℕ}
    (h1 : 1 < k) (hk : k < j.released) : (cycle s i (u + k)).csNso = false := by
  obtain ⟨db, hp⟩ := pins_word hu hw h1 hk
  exact congrArg Pins.csNso hp

/-- At age nine. -/
theorem state_nine {u : ℕ} {j : Job} (hu : captured s i u = some j) (hw : IsTx j.address) :
    (cycle s i (u + 9)).statePresD = .stateResetIntRegData ∧ j.burst = 0 ∨
      (cycle s i (u + 9)).statePresD = .stateNextBurstItem ∧ j.burst ≠ 0 := by
  have hr := refines_cycle (s := s) (i := i) (u + 9)
  rw [busy_of_word hu hw (by omega) (by omega)] at hr
  cases hr with
  | prepareTx _ _ _ _ _ hk => omega
  | tx _ _ _ _ _ hk => omega
  | last hs _ hb => exact Or.inl ⟨hs, hb⟩
  | nextItem hs _ hb => exact Or.inr ⟨hs, hb⟩

theorem csNso_after {u : ℕ} {j : Job} (hu : captured s i u = some j) (hw : IsTx j.address) :
    (cycle s i (u + j.released)).csNso = true := by
  by_contra hcs
  rw [Bool.not_eq_true, csNso_eq_false] at hcs
  obtain ⟨j', k, hp, -, hk⟩ := hcs
  have h9 := busy_of_word hu hw (k := 9) (by omega) (by omega)
  by_cases hb : j.burst = 0
  · -- `StateIdle` follows `StateResetIntRegData`
    rw [Job.released, if_pos hb, show u + 10 = u + 9 + 1 from rfl, phaseAt_succ, h9,
      next_last hb] at hp
    simp at hp
  · have hr : j.released = 9 := if_neg hb
    rw [hr, h9, Phase.busy.injEq] at hp
    obtain ⟨rfl, rfl⟩ := hp
    omega

/-! ## One block of `Cs_NSO = '0'` -/

/-- `a` is the first cycle of a block. -/
def Starts (s : Signals) (i : ℕ → Inputs) (a : ℕ) : Prop :=
  (cycle s i a).csNso = false ∧ ∀ u, a = u + 1 → (cycle s i u).csNso = true

/-- A complete maximal block of cycles with `Cs_NSO = '0'`: the cycles `a, …, b - 1`. -/
structure Block (s : Signals) (i : ℕ → Inputs) (a b : ℕ) : Prop where
  starts : Starts s i a
  nonempty : a < b
  low : ∀ t, a ≤ t → t < b → (cycle s i t).csNso = false
  ends : (cycle s i b).csNso = true

/-- `Wr_NSO` rises between cycles `t` and `t + 1`. -/
def WrRises (s : Signals) (i : ℕ → Inputs) (t : ℕ) : Prop :=
  (cycle s i t).wrNso = false ∧ (cycle s i (t + 1)).wrNso = true

/-- The waveform of one word. -/
structure StrobeShape (s : Signals) (i : ℕ → Inputs) (a b : ℕ) : Prop where
  wrLow : ∀ t, a ≤ t → t < a + 3 → (cycle s i t).wrNso = false
  wrHigh : ∀ t, a + 3 ≤ t → t < b → (cycle s i t).wrNso = true
  /-- Five cycles if `StateResetIntRegData` follows `StateTx`, four if `StateNextBurstItem`. -/
  width : (cycle s i (a + 6)).statePresD = .stateTx ∧
    ((cycle s i (a + 7)).statePresD = .stateResetIntRegData ∧ b = a + 3 + 5 ∨
      (cycle s i (a + 7)).statePresD = .stateNextBurstItem ∧ b = a + 3 + 4)
  rdHigh : ∀ t, a ≤ t → t < b → (cycle s i t).rdNso = true
  lcdResetHigh : ∀ t, a ≤ t → t < b → (cycle s i t).lcdResetNro = true
  dcConst : ∀ t, a ≤ t → t < b → (cycle s i t).dcNso = (cycle s i a).dcNso

theorem starts_of_captured {u : ℕ} {j : Job} (hu : captured s i u = some j)
    (hw : IsTx j.address) : Starts s i (u + 2) := by
  have hb := j.released_bounds
  refine ⟨csNso_word hu hw (k := 2) (by omega) (by omega), fun v hv => ?_⟩
  obtain rfl : v = u + 1 := by omega
  exact csNso_before hu

/-- **A block starts two cycles after the capture of its word.** -/
theorem Starts.word {a : ℕ} (h : Starts s i a) :
    ∃ u j, a = u + 2 ∧ captured s i u = some j ∧ IsTx j.address := by
  obtain ⟨hcs, hbefore⟩ := h
  obtain ⟨j, k, hp, h1, hk⟩ := csNso_eq_false.mp hcs
  obtain ⟨u, rfl, -, hu⟩ := captured_of_busy hp
  have hw := isTx_of_busy hp h1
  obtain rfl : k = 2 := by
    by_contra hne
    have hlow := csNso_word hu hw (k := k - 1) (by omega) (by omega)
    rw [hbefore (u + (k - 1)) (by omega)] at hlow
    simp at hlow
  exact ⟨u, j, rfl, hu, hw⟩

/-- Every captured word has its block. -/
theorem block_of_captured {u : ℕ} {j : Job} (hu : captured s i u = some j)
    (hw : IsTx j.address) : Block s i (u + 2) (u + j.released) := by
  have hb := j.released_bounds
  refine ⟨starts_of_captured hu hw, by omega, fun t hat htb => ?_, csNso_after hu hw⟩
  obtain ⟨k, rfl⟩ : ∃ k, t = u + k := ⟨t - u, by omega⟩
  exact csNso_word hu hw (by omega) (by omega)

/-- **Where a block ends.** -/
theorem Block.end_eq {u b : ℕ} {j : Job} (h : Block s i (u + 2) b)
    (hu : captured s i u = some j) (hw : IsTx j.address) : b = u + j.released := by
  have hbounds := j.released_bounds
  have hne := h.nonempty
  obtain ⟨k, rfl⟩ : ∃ k, b = u + k := ⟨b - u, by omega⟩
  rcases Nat.lt_trichotomy k j.released with hlt | rfl | hgt
  · have hlow := csNso_word hu hw (k := k) (by omega) hlt
    rw [h.ends] at hlow
    simp at hlow
  · rfl
  · have hlow := h.low (u + j.released) (by omega) (by omega)
    rw [csNso_after hu hw] at hlow
    simp at hlow

theorem Block.shape {a b : ℕ} (h : Block s i a b) : StrobeShape s i a b := by
  obtain ⟨u, j, rfl, hu, hw⟩ := h.starts.word
  obtain rfl := h.end_eq hu hw
  have hbounds := j.released_bounds
  have hpins : ∀ t, u + 2 ≤ t → t < u + j.released → ∃ db, pins (cycle s i t).toLogic =
      .shown (decide (4 < t - u)) (db, decide (j.address = regWriteDataAddr)) := by
    intro t hat htb
    obtain ⟨k, rfl⟩ : ∃ k, t = u + k := ⟨t - u, by omega⟩
    rw [Nat.add_sub_cancel_left]
    exact pins_word hu hw (by omega) (by omega)
  refine ⟨?_, ?_, ⟨?_, ?_⟩, ?_, ?_, ?_⟩
  · intro t hat ht
    obtain ⟨db, hp⟩ := hpins t hat (by omega)
    exact (congrArg Pins.wrNso hp).trans (decide_eq_false (by omega))
  · intro t ht htb
    obtain ⟨db, hp⟩ := hpins t (by omega) htb
    exact (congrArg Pins.wrNso hp).trans (decide_eq_true (by omega))
  · have h8 := busy_of_word hu hw (k := 8) (by omega) (by omega)
    exact (refines_cycle _).tx_iff.mpr ⟨j, 8, h8, by omega, by omega⟩
  · rcases state_nine hu hw with ⟨hs, hb⟩ | ⟨hs, hb⟩
    · exact Or.inl ⟨hs, congrArg (u + ·) (if_pos hb)⟩
    · exact Or.inr ⟨hs, congrArg (u + ·) (if_neg hb)⟩
  · intro t hat htb
    obtain ⟨db, hp⟩ := hpins t hat htb
    exact congrArg Pins.rdNso hp
  · intro t hat htb
    obtain ⟨db, hp⟩ := hpins t hat htb
    exact congrArg Pins.lcdResetNro hp
  · intro t hat htb
    obtain ⟨db, hp⟩ := hpins t hat htb
    obtain ⟨db', hp'⟩ := hpins (u + 2) (Nat.le_refl _) h.nonempty
    exact (congrArg Pins.dcNso hp).trans (congrArg Pins.dcNso hp').symm

/-- **`Wr_NSO` rises with `Cs_NSO = '0'` in the third cycle of a block only.** -/
theorem starts_of_rises {t : ℕ} (h : WrRises s i t)
    (hcs : (cycle s i t).csNso = false ∨ (cycle s i (t + 1)).csNso = false) :
    ∃ a, t = a + 2 ∧ Starts s i a := by
  obtain ⟨hlow, hhigh⟩ := h
  have hage : ∀ u k j, captured s i u = some j → IsTx j.address → 1 < k → k < j.released →
      (cycle s i (u + k)).wrNso = decide (4 < k) := by
    intro u k j hu hw h1 hk
    obtain ⟨db, hp⟩ := pins_word hu hw h1 hk
    exact congrArg Pins.wrNso hp
  rcases hcs with hcs | hcs
  · obtain ⟨j, k, hp, h1, hk⟩ := csNso_eq_false.mp hcs
    have hw := isTx_of_busy hp h1
    obtain ⟨u, rfl, -, hu⟩ := captured_of_busy hp
    have hbounds := j.released_bounds
    rw [hage u k j hu hw h1 hk, decide_eq_false_iff_not] at hlow
    -- `Wr_NSO` stays low up to age four
    have hk4 : k = 4 := by
      by_contra hne
      rw [Nat.add_assoc, hage u (k + 1) j hu hw (by omega) (by omega), decide_eq_true_iff] at hhigh
      omega
    exact ⟨u + 2, by omega, starts_of_captured hu hw⟩
  · obtain ⟨j, k, hp, h1, hk⟩ := csNso_eq_false.mp hcs
    have hw := isTx_of_busy hp h1
    obtain ⟨u, hut, -, hu⟩ := captured_of_busy hp
    rw [hut, hage u k j hu hw h1 hk, decide_eq_true_iff] at hhigh
    obtain rfl : t = u + (k - 1) := by omega
    rw [hage u (k - 1) j hu hw (by omega) (by omega), decide_eq_false_iff_not] at hlow
    exact ⟨u + 2, by omega, starts_of_captured hu hw⟩

/-- **Every block is one strobe.** -/
theorem strobe_shape (s : Signals) (i : ℕ → Inputs) :
    (∀ a b, Block s i a b → StrobeShape s i a b) ∧
      ∀ t, WrRises s i t →
        (cycle s i t).csNso = false ∨ (cycle s i (t + 1)).csNso = false →
          ∃ a, t = a + 2 ∧ Starts s i a :=
  ⟨fun _ _ => Block.shape, fun _ => starts_of_rises⟩

/-! ## `LcdReset_NRO` -/

theorem lcdResetNro_pinsOf {mask : BitVec 16} {p : Phase Job} :
    (pinsOf mask p).lcdResetNro = false ↔ ∃ k, p = .down k ∧ k ≠ bootCycles := by
  cases p with
  | down k =>
    simp only [pinsOf, Phase.down.injEq, exists_eq_left']
    split_ifs with hk
    · simp [Pins.reset, hk]
    · simp [Pins.lcdReset, hk]
  | idle => simp [pinsOf, Pins.idle]
  | busy j k =>
    simp only [pinsOf]
    split_ifs <;> simp [Pins.evalData, Pins.shown, Pins.idle]

theorem csNso_down {mask : BitVec 16} {k : ℕ} : (pinsOf mask (.down k)).csNso = true := by
  simp only [pinsOf]
  split_ifs <;> rfl

/-- The panel is held in reset while the server is down, but for the cycle of the reset itself. -/
theorem lcdResetNro_cycle (t : ℕ) :
    (pins (cycle s i t).toLogic).lcdResetNro = false ↔ 1 ≤ t ∧ t ≤ bootCycles := by
  rw [pins_eq, lcdResetNro_pinsOf]
  constructor
  · rintro ⟨k, hk, hne⟩
    have hle : t ≤ bootCycles := by
      by_contra hlt
      exact phase_ne_down (by omega) k hk
    rw [phaseAt_boot hle, Phase.down.injEq] at hk
    omega
  · rintro ⟨h1, hle⟩
    exact ⟨bootCycles - t, phaseAt_boot hle, by omega⟩

/-- **One pulse, of 500000002 cycles, with the panel not selected.** `StateResetIntRegData` makes it
one cycle longer than `StateLcdReset`. -/
theorem reset_pulse (s : Signals) (i : ℕ → Inputs) (t : ℕ) :
    ((cycle s i t).lcdResetNro = false ↔ 1 ≤ t ∧ t ≤ 500000002) ∧
      (1 ≤ t → t ≤ 500000002 → (cycle s i t).csNso = true) := by
  have hboot : bootCycles = 500000002 := by unfold bootCycles; rfl
  have hcs : (cycle s i t).csNso = (pinsOf _ (phaseAt s i t)).csNso :=
    congrArg Pins.csNso (pins_eq (s := s) (i := i) t)
  rw [← hboot, hcs]
  refine ⟨lcdResetNro_cycle t, fun _ hle => ?_⟩
  rw [phaseAt_boot hle]
  exact csNso_down

end Runs

/-- The block of one command. -/
theorem one_command_block :
    Block fresh oneCommand (bootCycles + 5) (bootCycles + 13) ∧
      StrobeShape fresh oneCommand (bootCycles + 5) (bootCycles + 13) := by
  have hc : captured fresh oneCommand (bootCycles + 3) = some _ := (heldWrite_captured rfl).1
  have hb : Block fresh oneCommand (bootCycles + 5) (bootCycles + 13) :=
    block_of_captured hc (Or.inr rfl)
  exact ⟨hb, (strobe_shape fresh oneCommand).1 _ _ hb⟩

end LcdInterface.LcdDriver

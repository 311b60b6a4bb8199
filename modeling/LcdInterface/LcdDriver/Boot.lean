import LcdInterface.LcdDriver.Bus

/-!
# Writes during the LCD reset

`StateLcdReset` lasts 500000001 cycles with `WaitReq_SO = '1'`, so a master that starts a write
there has to hold it, and its pulse comes and goes while nobody listens. In `StateIdle` the held
write has no edge left, and `WaitReq_SO` keeps the `'1'` that only a capture would clear: driver and
master wait for each other. `StateIdle` of `dma.vhdl` assigns `WaitReq_SO <= '0'`; here it does not.

* `deadlocked_succ`: a deadlocked cycle is followed by another.
* `no_deadlock_iff`: a run deadlocks iff the master writes in `StateLcdReset` while its counter is
  not yet `0`. `early_write_deadlocks` is such a run.
-/

namespace LcdInterface.LcdDriver

open Clocked Clocked.Server Clocked.Handshake
open Slave (Inputs)

variable {s : Signals} {i : ℕ → Inputs}

/-! ## The states of the LCD reset -/

/-- `StateLcdReset` counts down to `0` in the cycle before the last. -/
theorem boot_state {t : ℕ} (h0 : 0 < t) (h : t < bootCycles) :
    (cycle s i t).statePresD = .stateLcdReset ∧
      (cycle s i t).idleCountPresD.toNat + 1 = bootCycles - t := by
  have hr := refines_cycle (s := s) (i := i) t
  rw [phaseAt_boot h.le] at hr
  generalize hk : bootCycles - t = k at hr
  cases hr with
  | reset => omega
  | lcdReset hs => exact ⟨hs, rfl⟩
  | booted => omega

theorem Refines.lcdReset_phase {s : Signals} {p : Phase Job} (h : Refines s p)
    (hs : s.statePresD = .stateLcdReset) : p = .down (s.idleCountPresD.toNat + 1) := by
  cases h <;> simp_all

/-- … and the counter tells the cycle. -/
theorem lcdReset_count {t : ℕ} (h : (cycle s i t).statePresD = .stateLcdReset) :
    0 < t ∧ t + ((cycle s i t).idleCountPresD.toNat + 1) = bootCycles := by
  have hp := (refines_cycle (s := s) (i := i) t).lcdReset_phase h
  have hle : t ≤ bootCycles := by
    by_contra hlt
    exact phase_ne_down (by omega) _ hp
  rw [phaseAt_boot hle, Phase.down.injEq] at hp
  refine ⟨Nat.pos_of_ne_zero ?_, by omega⟩
  rintro rfl
  have h0 : (cycle s i 0).statePresD = .stateReset := rfl
  rw [h0] at h
  simp at h

/-- The machine stays in `StateIdle` until the first capture. -/
theorem idle_before {t : ℕ} (hb : bootCycles < t) (h : ∀ u, u < t → captured s i u = none) :
    phaseAt s i t = .idle := by
  cases hp : phaseAt s i t with
  | down k => exact absurd hp (phase_ne_down hb k)
  | idle => rfl
  | busy j k =>
    obtain ⟨u, hu, hk, hc⟩ := captured_of_busy hp
    rw [h u (by omega)] at hc
    simp at hc

/-! ## The deadlock -/

/-- The machine waits for an edge of `Write_SI`, the master for `WaitReq_SO`. -/
structure Deadlocked (s : Signals) (i : ℕ → Inputs) (t : ℕ) : Prop where
  idle : (cycle s i t).statePresD = .stateIdle
  wait : waitReq s i t = true
  port : write i t = true
  sampled : (cycle s i t).writeS = true
  last : (cycle s i t).writeLastD = true
  pulse : (cycle s i t).writeEdgeD = false

/-- **A deadlock lasts.** -/
theorem deadlocked_succ (hm : Master s i) {t : ℕ} (h : Deadlocked s i t) :
    Deadlocked s i (t + 1) := by
  have hidle : (cycle s i (t + 1)).statePresD = .stateIdle := edge_idle_none h.idle h.pulse
  refine ⟨hidle, (waitReq_kept (Or.inl hidle)).trans h.wait, (hm t h.port h.wait).1, h.port,
    h.sampled, ?_⟩
  rw [cycle_succ, edge_toFrontEnd]
  show (if (cycle s i t).writeLastD = false ∧ _ then true else false) = false
  rw [h.last]
  rfl

theorem writeLastD_succ (t : ℕ) : (cycle s i (t + 2)).writeLastD = write i t := by
  rw [cycle_front, Slave.run_writeLastD]
  rfl

/-- A write that is up two cycles before the reset ends is still held when it has ended, without
an edge. -/
theorem deadlocked_of_early (hm : Master s i) {t : ℕ} (h0 : 0 < t) (ht : t + 2 ≤ bootCycles)
    (hw : write i t = true) : Deadlocked s i (bootCycles + 1) := by
  have hwait : ∀ v, 0 < v → v ≤ bootCycles + 1 → waitReq s i v = true := by
    intro v hv hvb
    exact waitReq_before hv fun u hu => captured_boot (by omega)
  have hheld : ∀ v, t ≤ v → v ≤ bootCycles + 1 → write i v = true := by
    intro v hv hvb
    exact (holds_until hm hv hw fun x hx hxv => hwait x (by omega) (by omega)).1
  obtain ⟨n, hn⟩ : ∃ n, bootCycles = n + 2 := ⟨bootCycles - 2, by omega⟩
  refine ⟨(idle_iff _).mpr phaseAt_ready, hwait _ (by omega) (by omega),
    hheld _ (by omega) (by omega), ?_, ?_, ?_⟩
  · rw [writeS_eq, delay_succ]
    exact hheld _ (by omega) (by omega)
  · rw [hn, show n + 2 + 1 = n + 1 + 2 by omega, writeLastD_succ]
    exact hheld _ (by omega) (by omega)
  · rw [hn, show n + 2 + 1 = n + 1 + 2 by omega, writeEdgeD_succ]
    exact rises_succ_of_high (hheld n (by omega) (by omega))

/-- The write of a deadlock was up two cycles before the reset ended. -/
theorem early_of_deadlocked {t : ℕ} (h : Deadlocked s i t) :
    ∃ u, u + 2 = bootCycles ∧ write i u = true := by
  have hnone : ∀ u, u < t → captured s i u = none := by
    intro u hu
    refine Option.eq_none_iff_forall_ne_some.mpr fun j hj => ?_
    have hwait := h.wait
    rw [waitReq_after hj hu] at hwait
    simp at hwait
  have hboot : bootCycles < t := by
    by_contra hle
    have hp := (idle_iff t).mp h.idle
    rw [phaseAt_boot (by omega)] at hp
    simp at hp
  have h2 : 2 < bootCycles := by unfold bootCycles; omega
  obtain ⟨v, rfl⟩ : ∃ v, t = v + 2 := ⟨t - 2, by omega⟩
  have hlast := h.last
  have hpulse := h.pulse
  rw [writeLastD_succ] at hlast
  rw [writeEdgeD_succ] at hpulse
  -- `u` is where the level that is up in cycles `v`, `v + 1`, `v + 2` began
  obtain ⟨u, huv, hr, hall⟩ := exists_rises hlast
  refine ⟨bootCycles - 2, by omega, hall _ ?_ (by omega)⟩
  by_contra hlate
  have hne : u ≠ v := by
    rintro rfl
    rw [hr] at hpulse
    simp at hpulse
  have hidle := idle_before (s := s) (i := i) (t := u + 2) (by omega) fun x hx => hnone x (by omega)
  have hcap : captured s i (u + 2) = some (inputJob (i u)) := by
    rw [captured_eq_some, offer_eq, if_pos hr]
    exact ⟨hidle, rfl⟩
  rw [hnone _ (by omega)] at hcap
  simp at hcap

/-- **A run deadlocks iff the master writes while the LCD reset is still counting.** -/
theorem no_deadlock_iff (hm : Master s i) :
    (∀ t, ¬ Deadlocked s i t) ↔
      ∀ t, (cycle s i t).statePresD = .stateLcdReset → 0 < (cycle s i t).idleCountPresD.toNat →
        write i t = false := by
  have h2 : 2 < bootCycles := by unfold bootCycles; omega
  constructor
  · intro h t hs hc
    by_contra hw
    rw [Bool.not_eq_false] at hw
    obtain ⟨h0, he⟩ := lcdReset_count hs
    exact h _ (deadlocked_of_early hm h0 (by omega) hw)
  · intro h t hd
    obtain ⟨u, hu, hw⟩ := early_of_deadlocked hd
    obtain ⟨hs, hc⟩ := boot_state (s := s) (i := i) (t := u) (by omega) (by omega)
    rw [h u hs (by omega)] at hw
    simp at hw

/-- A master that wants to write a command from cycle `1` on. -/
def earlyWrite (t : ℕ) : Inputs :=
  if t = 0 then quietPort else writePort regWriteCmdAddr 0x002C#16

/-- **It obeys the handshake and waits forever.** -/
theorem early_write_deadlocks :
    Master fresh earlyWrite ∧ ∀ n, Deadlocked fresh earlyWrite (bootCycles + 1 + n) := by
  have hport : ∀ t, earlyWrite (t + 1) = writePort regWriteCmdAddr 0x002C#16 := by
    intro t
    exact if_neg (by omega)
  have hm : Master fresh earlyWrite := by
    intro t hw _
    cases t with
    | zero => simp [write, earlyWrite, quietPort] at hw
    | succ t =>
      unfold write
      simp only [hport, and_true]
      rfl
  refine ⟨hm, fun n => ?_⟩
  induction n with
  | zero =>
    refine deadlocked_of_early (t := 1) hm (by omega) (by unfold bootCycles; omega) ?_
    unfold write
    rw [hport 0]
    rfl
  | succ n ih => exact deadlocked_succ hm ih

/-- A write raised after the reset does not deadlock. -/
theorem one_command_no_deadlock : ¬ ∃ t, Deadlocked fresh oneCommand t := by
  rintro ⟨t, hd⟩
  refine (no_deadlock_iff (master_heldWrite rfl)).mpr (fun u hs _ => ?_) t hd
  have hle := (lcdReset_count hs).2
  show (oneCommand u).writeSi = false
  rw [oneCommand, heldWrite_boot (by omega)]
  rfl

end LcdInterface.LcdDriver

import LcdInterface.LcdDriver.Bus
import Mathlib.Data.Nat.Count

/-!
# Pulse and payload of a write

`edgeDetect` derives `Write_Edge_D` through a flip-flop of its own, `syncData` shifts the payload
through the `_P_` and `_PP_` copies. The state machine reads the `_P_` copies when it sees the
pulse, and `burstStream` reads the `_PP_` copies.

* `pulses_aligned`: there is one pulse for each rising edge of `Write_SI`, two cycles late; the
  `_P_` copies then hold the payload of the write's first cycle, and the `_PP_` copies one cycle
  later.
-/

namespace LcdInterface.LcdDriver

open Clocked
open Slave (Inputs)

section Runs

variable (s : Signals) (i : ℕ → Inputs)

/-- `Write_Edge_D`. -/
def pulse (t : ℕ) : Bool := (cycle s i t).writeEdgeD

/-- The `_P_` copies are those of port `x`. -/
structure CopyOf (s : Signals) (x : Inputs) : Prop where
  address : s.addressPD = x.addressDi
  writeData : s.writeDataPD = x.writeDataDi
  byteEnable : s.byteEnablePD = x.byteEnableDi
  beginBurstTransfer : s.beginBurstTransferPS = x.beginBurstTransferSi
  burstCount : s.burstCountPD = x.burstCountDi

/-- What the state machine relies on. -/
structure PulsesAligned : Prop where
  iff_rises : ∀ t, pulse s i t = true ↔ ∃ u, t = u + 2 ∧ rises (write i) u = true
  single : ∀ t, pulse s i t = true → pulse s i (t + 1) = false
  /-- As many pulses as rising edges. -/
  count : ∀ t, Nat.count (pulse s i · = true) (t + 2) = Nat.count (rises (write i) · = true) t
  payload : ∀ u, pulse s i (u + 2) = true → CopyOf (cycle s i (u + 2)) (i u)
  next : ∀ u, pulse s i (u + 2) = true →
    (cycle s i (u + 3)).writePpS = true ∧ (cycle s i (u + 3)).writeDataPpD = (i u).writeDataDi

variable {s i}

theorem copyOf_cycle (u : ℕ) : CopyOf (cycle s i (u + 2)) (i u) := by
  refine ⟨?_, ?_, ?_, ?_, ?_⟩
  · rw [cycle_front, Slave.run_addressPD]; rfl
  · rw [cycle_front, Slave.run_writeDataPD]; rfl
  · rw [cycle_front, Slave.run_byteEnablePD]; rfl
  · rw [cycle_front, Slave.run_beginBurstTransferPS]; rfl
  · rw [cycle_front, Slave.run_burstCountPD]; rfl

theorem writePpS_succ (u : ℕ) : (cycle s i (u + 3)).writePpS = write i u := by
  rw [cycle_front, Slave.run_writePpS]
  rfl

theorem writeDataPpD_succ (u : ℕ) :
    (cycle s i (u + 3)).writeDataPpD = (i u).writeDataDi := by
  rw [cycle_front, Slave.run_writeDataPpD]
  rfl

theorem pulse_eq (t : ℕ) : pulse s i t = delay false (delay false (rises (write i))) t :=
  writeEdgeD_eq t

theorem pulse_succ (t : ℕ) : pulse s i (t + 2) = rises (write i) t := writeEdgeD_succ t

theorem pulse_iff {t : ℕ} :
    pulse s i t = true ↔ ∃ u, t = u + 2 ∧ rises (write i) u = true := by
  constructor
  · intro h
    rcases t with _ | _ | u
    · rw [pulse_eq] at h; simp at h
    · rw [pulse_eq] at h; simp at h
    · exact ⟨u, rfl, (pulse_succ u).symm.trans h⟩
  · rintro ⟨u, rfl, hu⟩
    exact (pulse_succ u).trans hu

/-- **Pulse and payload are aligned**, for every waveform of `Write_SI`. -/
theorem pulses_aligned (s : Signals) (i : ℕ → Inputs) : PulsesAligned s i := by
  refine ⟨fun _ => pulse_iff, fun t ht => ?_, fun t => ?_, fun u _ => copyOf_cycle u,
    fun u hu => ?_⟩
  · obtain ⟨u, rfl, hu⟩ := pulse_iff.mp ht
    rw [show u + 2 + 1 = u + 1 + 2 by omega, pulse_succ]
    exact rises_succ_of_high (rises_iff.mp hu).1
  · have hshift : ∀ u, pulse s i (2 + u) = rises (write i) u := by
      intro u
      rw [Nat.add_comm, pulse_succ]
    have hnone : Nat.count (pulse s i · = true) 2 = 0 := by
      refine Nat.count_of_forall_not fun u hu => ?_
      rw [pulse_iff]
      rintro ⟨v, hv, -⟩
      omega
    rw [Nat.add_comm t 2, Nat.count_add, hnone, Nat.zero_add]
    simp only [hshift]
  · rw [pulse_succ, rises_iff] at hu
    exact ⟨(writePpS_succ u).trans hu.1, writeDataPpD_succ u⟩

end Runs

end LcdInterface.LcdDriver

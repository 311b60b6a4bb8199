import LcdInterface.LcdDriver.Burst
import LcdInterface.LcdDriver.System
import LcdInterface.Translator

/-!
# The driver behind the interconnect

The driver on the slave port that the translator makes of the interconnect's requests, as one closed
system from reset. The translator announces a burst with the first write and, if every write is one
word, with each of them; the driver never leaves `StateNextBurstItem` after one of them.

* `first_word_only`: if the first write is to the panel, and does not come in the first cycle after
  the reset, the panel is shown its word at most, whatever the interconnect does later.
* `single_beats_one_word`: if every write is one word, the panel is shown one word at most.
-/

namespace LcdInterface.LcdDriver

open Clocked Clocked.Server Clocked.Handshake
open Slave (Inputs)
open Translator (Uav Agent SingleBeats begins_first begins_rises)

/-! ## The closed system -/

structure Behind where
  translator : Translator.Regs
  driver : Signals

/-- One edge of both. -/
def Behind.tick (c : Behind) (x : Uav) : Behind :=
  { translator := Translator.clock c.translator x c.driver.waitReqSo
    driver := edge c.driver (Translator.port c.translator x) }

section Runs

variable (s : Signals) (u : ℕ → Uav)

/-- Translator and driver in cycle `t` after reset. -/
def behind (t : ℕ) : Behind := run Behind.tick ⟨Translator.resetRegs, reset s⟩ u t

/-- The driver's slave port. -/
def behindPort (t : ℕ) : Inputs := Translator.port (behind s u t).translator (u t)

/-- The slave agent obeys the handshake. -/
def BusAgent : Prop := Agent u (waitReq s (behindPort s u))

variable {s u} {g t : ℕ}

theorem behind_driver (t : ℕ) : (behind s u t).driver = cycle s (behindPort s u) t := by
  induction t with
  | zero => rfl
  | succ t ih =>
    rw [cycle_succ, ← ih]
    rfl

theorem behind_translator (t : ℕ) :
    (behind s u t).translator = Translator.regs u (waitReq s (behindPort s u)) t := by
  induction t with
  | zero => rfl
  | succ t ih =>
    have hwait : waitReq s (behindPort s u) t = (behind s u t).driver.waitReqSo := by
      rw [behind_driver]
      rfl
    rw [Translator.regs_succ, ← ih, hwait]
    rfl

/-- `BeginBurstTransfer_SI`. -/
theorem beginBurst_behind (t : ℕ) : (behindPort s u t).beginBurstTransferSi =
    Translator.begins u (waitReq s (behindPort s u)) t := by
  unfold behindPort
  rw [behind_translator]
  rfl

theorem write_behind : write (behindPort s u) = Translator.writes u := rfl

/-- The master that the driver sees obeys the handshake. -/
theorem master_behind (h : BusAgent s u) : Master s (behindPort s u) := by
  intro t hw hwait
  have hreq : (u t).requests = true := by
    unfold Uav.requests
    have hw : (u t).uavWrite = true := hw
    rw [hw]
    rfl
  have hsame := (h.held t hreq hwait).2
  refine ⟨?_, ?_⟩
  · rw [write_behind] at hw ⊢
    unfold Translator.writes at hw ⊢
    rw [hsame]
    exact hw
  · show payload (Translator.port _ (u (t + 1))) = payload (Translator.port _ (u t))
    rw [hsame]
    rfl

/-! ## One word -/

/-- After the capture of a burst to the panel nothing is captured. -/
theorem captured_after_endless {i : ℕ → Inputs} {j : Job} (h : captured s i t = some j)
    (hd : j.duration = ⊤) {v : ℕ} (hv : t < v) : captured s i v = none := by
  obtain ⟨k, rfl⟩ := Nat.exists_eq_add_of_lt hv
  have hbusy : phaseAt s i (t + k + 1) = .busy j (k + 1) :=
    busy_of_captured h (Nat.succ_pos k) (by rw [hd]; exact WithTop.coe_lt_top _)
  refine Option.eq_none_iff_forall_ne_some.mpr fun j' hj' => ?_
  rw [(captured_eq_some.mp hj').1] at hbusy
  cases hbusy

/-- With both byte enables the panel is shown the data as they are. -/
theorem toPanel_full {address data : BitVec 16} {burst : BitVec picsizeBin} (h : IsTx address) :
    (⟨address, data, BitVec.allOnes 2, burst⟩ : Job).toPanel =
      some (data, decide (address = regWriteDataAddr)) := by
  have hmask : byteMask (BitVec.allOnes 2) = BitVec.allOnes 16 := by decide
  rw [Job.toPanel, if_pos h, Job.word, hmask, BitVec.and_allOnes]

/-- The first write, as the driver captures it. -/
theorem inputJob_first (h : BusAgent s u) (hw : (u g).uavWrite = true)
    (hfirst : ∀ v, v < g → (u v).uavWrite = false) : inputJob (behindPort s u g) =
      ⟨(u g).uavAddress.extractLsb' 1 16, (u g).uavWritedata, BitVec.allOnes 2,
        (u g).uavBurstcount.extractLsb' 1 17⟩ := by
  refine inputJob_burst ?_
  rw [beginBurst_behind]
  exact begins_first h hw hfirst

/-- The first write is captured at most, if that is to the panel and announces a word. -/
theorem captured_first_only (h : BusAgent s u) (h0 : 0 < g) (hw : (u g).uavWrite = true)
    (hfirst : ∀ v, v < g → (u v).uavWrite = false)
    (haddr : IsTx ((u g).uavAddress.extractLsb' 1 16))
    (hcount : (u g).uavBurstcount.extractLsb' 1 17 ≠ 0) (t : ℕ) :
    log (captured s (behindPort s u)) t <+: [inputJob (behindPort s u g)] := by
  by_cases hlate : bootCycles ≤ g + 1
  · have hcap := captured_of_first_write (s := s) (i := behindPort s u) hlate hw hfirst
    have hend : (inputJob (behindPort s u g)).duration = ⊤ := by
      rw [inputJob_first h hw hfirst]
      exact duration_eq_top.mpr ⟨haddr, hcount⟩
    have hlog : log (captured s (behindPort s u)) (t + (g + 3)) =
        [inputJob (behindPort s u g)] := by
      refine log_eq_singleton hcap (fun v hv => ?_) (by omega)
      rcases Nat.lt_or_gt_of_ne hv with hlt | hgt
      · exact captured_of_no_write hfirst hlt
      · exact captured_after_endless hcap hend hgt
    rw [← hlog, log_add]
    exact List.prefix_append _ _
  · have hnone := captured_deadlocked (master_behind h)
      (deadlocked_of_early (master_behind h) h0 (by omega) hw)
    rw [log_eq_nil fun v _ => hnone v]
    exact List.nil_prefix

/-- **The panel is shown the word of the first write at most**, if that is to the panel, announces a
word, and does not come in cycle `0`: there the driver is in `StateReset`, where `WaitReq_SO` is
`'0'`, and the write is accepted and lost. -/
theorem first_word_only (h : BusAgent s u) (h0 : 0 < g) (hw : (u g).uavWrite = true)
    (hfirst : ∀ v, v < g → (u v).uavWrite = false)
    (haddr : IsTx ((u g).uavAddress.extractLsb' 1 16))
    (hcount : (u g).uavBurstcount.extractLsb' 1 17 ≠ 0) (t : ℕ) :
    words s (behindPort s u) t <+:
      [((u g).uavWritedata, decide ((u g).uavAddress.extractLsb' 1 16 = regWriteDataAddr))] := by
  have hpre := (captured_first_only h h0 hw hfirst haddr hcount t).filterMap Job.toPanel
  rw [inputJob_first h hw hfirst, List.filterMap_cons_some (toPanel_full haddr)] at hpre
  exact (words_of_captured t).trans hpre

/-- **One word at most**, if every write is one word. -/
theorem single_beats_one_word (h : BusAgent s u) (hs : SingleBeats u) (t : ℕ) :
    (words s (behindPort s u) t).length ≤ 1 := by
  have hend : ∀ v j, captured s (behindPort s u) v = some j → IsTx j.address → j.duration = ⊤ := by
    intro v j hj htx
    obtain ⟨w, -, hr, rfl⟩ := rises_of_captured hj
    refine duration_eq_top.mpr ⟨htx, ?_⟩
    have hbegin : (behindPort s u w).beginBurstTransferSi = true := by
      rw [beginBurst_behind]
      exact begins_rises h hs hr
    have hcount : (u w).uavBurstcount = Translator.symbolsPerWord := hs w (rises_iff.mp hr).1
    rw [inputJob_burst hbegin]
    show (u w).uavBurstcount.extractLsb' 1 17 ≠ 0
    rw [hcount]
    decide
  refine Nat.le_trans (words_of_captured t).length_le ?_
  rw [log_filterMap]
  refine length_log_le_one_iff.mpr (fun v w hvw hv => ?_) t
  obtain ⟨x, hx⟩ := Option.ne_none_iff_exists'.mp hv
  obtain ⟨j, hj, hpanel⟩ := Option.bind_eq_some_iff.mp hx
  have htx : IsTx j.address := by
    by_contra hne
    rw [Job.toPanel, if_neg hne] at hpanel
    cases hpanel
  rw [captured_after_endless hj (hend v j hj htx) hvw]
  rfl

end Runs

/-- A word store to `address`, one word long. -/
def storeOf (address : BitVec 32) (data : BitVec 16) : Uav :=
  { uavAddress := address, uavBurstcount := Translator.symbolsPerWord, uavRead := false,
    uavWrite := true, uavByteenable := 0b11#2, uavWritedata := data }

/-- After the LCD reset the same store again and again. -/
def sameStore (address : BitVec 32) (data : BitVec 16) (t : ℕ) : Uav :=
  if t ≤ bootCycles then { storeOf address data with uavWrite := false } else storeOf address data

theorem sameStore_quiet {address : BitVec 32} {data : BitVec 16} {t : ℕ} (h : t ≤ bootCycles) :
    (sameStore address data t).requests = false := by
  unfold sameStore
  rw [if_pos h]
  rfl

theorem sameStore_before {address : BitVec 32} {data : BitVec 16} {t : ℕ} (h : t ≤ bootCycles) :
    (sameStore address data t).uavWrite = false := by
  have hquiet : (sameStore address data t).requests = false := sameStore_quiet h
  rw [Uav.requests, Bool.or_eq_false_iff] at hquiet
  exact hquiet.1

theorem sameStore_late {address : BitVec 32} {data : BitVec 16} {t : ℕ} (h : bootCycles < t) :
    sameStore address data t = storeOf address data := if_neg (Nat.not_le_of_lt h)

theorem sameStore_agent (s : Signals) (address : BitVec 32) (data : BitVec 16) :
    BusAgent s (sameStore address data) := by
  have hlate : ∀ t, (sameStore address data t).requests = true → bootCycles < t := by
    intro t hreq
    by_contra hle
    rw [sameStore_quiet (Nat.le_of_not_lt hle)] at hreq
    cases hreq
  refine ⟨fun t hreq _ => ?_, fun t h => ?_⟩
  · have hsame : sameStore address data (t + 1) = sameStore address data t := by
      rw [sameStore_late (hlate t hreq), sameStore_late (Nat.lt_succ_of_lt (hlate t hreq))]
    exact ⟨(congrArg Uav.requests hsame).trans hreq, hsame⟩
  · have hreq : (sameStore address data t).requests = true := by
      rw [Uav.requests, h.1]
      rfl
    rw [sameStore_late (hlate t hreq)] at h
    cases h.2

/-- `Display Off` again and again, to `LCD_BASE + 4`. -/
theorem sameStore_first :
    words fresh (behindPort fresh (sameStore 0x2020004#32 0x0028#16)) (bootCycles + 1000) <+:
      [(0x0028#16, true)] := by
  have hg : sameStore 0x2020004#32 0x0028#16 (bootCycles + 1) = storeOf 0x2020004#32 0x0028#16 :=
    sameStore_late (Nat.lt_succ_self _)
  have h := first_word_only (sameStore_agent fresh _ _) (Nat.succ_pos _) (by rw [hg]; rfl)
    (fun v hv => sameStore_before (Nat.le_of_lt_succ hv)) (by rw [hg]; exact Or.inl (by decide))
    (by rw [hg]; decide) (bootCycles + 1000)
  rw [hg] at h
  exact h

theorem sameStore_one_word :
    (words fresh (behindPort fresh (sameStore 0x2020004#32 0x0028#16)) (bootCycles + 1000)).length ≤
      1 := by
  refine single_beats_one_word (sameStore_agent fresh _ _) (fun t _ => ?_) _
  unfold sameStore
  split <;> rfl

end LcdInterface.LcdDriver

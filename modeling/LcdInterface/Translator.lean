import LcdInterface.Clocked.Handshake
import LcdInterface.Slave

/-!
# The slave translator (`altera_merlin_slave_translator.sv`)

The last piece of the interconnect in front of the slave ports of `LCD` and `DMA`, with the
parameters `systemFile_mm_interconnect_0.v` gives it there (16-bit words, `USE_WAITREQUEST`, word
addresses): addresses and burst counts are halved, the strobes and `waitrequest` are passed on, and
`av_beginbursttransfer` is made from the strobes. The read path and the signals that are not
connected are left out.

* `begins_eq`: if every write is one word, `av_beginbursttransfer` is `'1'` in the first cycle of
  each transfer, so no transfer looks like a single access.
* `begins_first`: it is `'1'` in the first cycle of the first write, whatever its length.
-/

namespace LcdInterface.Translator

open Clocked Clocked.Handshake

/-- The inputs, less `av_waitrequest`. -/
structure Uav where
  uavAddress : BitVec 32
  uavBurstcount : BitVec 18
  uavRead : Bool
  uavWrite : Bool
  uavByteenable : BitVec 2
  uavWritedata : BitVec 16
  deriving DecidableEq, Repr

structure Regs where
  waitrequestResetOverride : Bool
  endBegintransfer : Bool
  endBeginbursttransfer : Bool
  inTransfer : Bool
  deriving DecidableEq, Repr

def symbolsPerWord : BitVec 18 := 2

def Uav.requests (x : Uav) : Bool := x.uavWrite || x.uavRead

def avBegintransfer (r : Regs) (x : Uav) : Bool := (x.uavWrite || x.uavRead) && !r.endBegintransfer

def avBeginbursttransfer (r : Regs) (x : Uav) : Bool :=
  if x.uavRead then avBegintransfer r x
  else avBegintransfer r x && !r.endBeginbursttransfer && !r.inTransfer

/-- The slave port. -/
def port (r : Regs) (x : Uav) : Slave.Inputs :=
  { addressDi := x.uavAddress.extractLsb' 1 16
    writeSi := x.uavWrite
    writeDataDi := x.uavWritedata
    readSi := x.uavRead
    byteEnableDi := x.uavByteenable
    beginBurstTransferSi := avBeginbursttransfer r x
    burstCountDi := x.uavBurstcount.extractLsb' 1 17 }

def resetRegs : Regs :=
  { waitrequestResetOverride := true, endBegintransfer := false, endBeginbursttransfer := false,
    inTransfer := false }

/-- `uav_waitrequest` is `av_waitrequest`. -/
def clock (r : Regs) (x : Uav) (waitrequest : Bool) : Regs :=
  { waitrequestResetOverride := false
    endBegintransfer :=
      if avBegintransfer r x = true ∧ waitrequest = true ∧ r.waitrequestResetOverride = false then
        true
      else if waitrequest then r.endBegintransfer
      else false
    endBeginbursttransfer := x.uavWrite && x.uavBurstcount != symbolsPerWord
    inTransfer :=
      if x.uavWrite = true ∧ x.uavBurstcount = symbolsPerWord then false
      else if x.uavWrite then true
      else r.inTransfer }

section Runs

variable (u : ℕ → Uav) (w : ℕ → Bool)

/-- The registers in cycle `t` after reset, when the slave answers with `w`. -/
def regs (t : ℕ) : Regs := run (fun r p => clock r p.1 p.2) resetRegs (fun t => (u t, w t)) t

/-- `av_beginbursttransfer`. -/
def begins (t : ℕ) : Bool := avBeginbursttransfer (regs u w t) (u t)

/-- `uav_write`. -/
def writes (t : ℕ) : Bool := (u t).uavWrite

/-- What the slave agent in front of the translator promises. -/
structure Agent : Prop where
  /-- A request that has to wait is repeated. -/
  held : Holds (fun t => (u t).requests) w u
  exclusive : ∀ t, ¬ ((u t).uavWrite = true ∧ (u t).uavRead = true)

variable {u w} {t : ℕ}

theorem regs_succ (t : ℕ) : regs u w (t + 1) = clock (regs u w t) (u t) (w t) := rfl

/-- `end_begintransfer` marks a request that has waited … -/
theorem heldOver_of_end (h : Holds (fun t => (u t).requests) w u) :
    (regs u w t).endBegintransfer = true → heldOver (fun t => (u t).requests) w t = true := by
  induction t with
  | zero => exact fun he => absurd he Bool.false_ne_true
  | succ t ih =>
    intro he
    rw [regs_succ, clock] at he
    rw [heldOver_succ]
    by_cases hset : avBegintransfer (regs u w t) (u t) = true ∧ w t = true ∧
        (regs u w t).waitrequestResetOverride = false
    · rw [avBegintransfer, Bool.and_eq_true] at hset
      exact ⟨hset.1.1, hset.2.1⟩
    · rw [if_neg hset] at he
      cases hw : w t with
      | false =>
        rw [hw] at he
        exact absurd he Bool.false_ne_true
      | true =>
        rw [hw] at he
        -- the mark was there in the cycle before, so was the request
        have hprev := ih he
        cases t with
        | zero => exact absurd he Bool.false_ne_true
        | succ t =>
          rw [heldOver_succ] at hprev
          exact ⟨(h t hprev.1 hprev.2).1, rfl⟩

/-- … from cycle `2` on: in cycle `0` it is not set. -/
theorem end_of_heldOver (h : heldOver (fun t => (u t).requests) w (t + 2) = true) :
    (regs u w (t + 2)).endBegintransfer = true := by
  rw [heldOver_succ] at h
  obtain ⟨hreq, hw⟩ := h
  rw [regs_succ, clock]
  have hover : (regs u w (t + 1)).waitrequestResetOverride = false := rfl
  cases he : (regs u w (t + 1)).endBegintransfer with
  | true => simp [hw]
  | false =>
    have hbegin : avBegintransfer (regs u w (t + 1)) (u (t + 1)) = true := by
      rw [avBegintransfer, he, Bool.not_false, Bool.and_true]
      exact hreq
    rw [if_pos ⟨hbegin, hw, hover⟩]

/-- A write that was not there in the cycle before has not waited. -/
theorem end_eq_false (h : Agent u w) (ht : writes u t = true)
    (hnew : delay false (writes u) t = false) :
    (regs u w t).endBegintransfer = false := by
  by_contra he
  rw [Bool.not_eq_false] at he
  have hheld := heldOver_of_end h.held he
  cases t with
  | zero => exact absurd hheld Bool.false_ne_true
  | succ t =>
    rw [heldOver_succ] at hheld
    have hsame := (h.held t hheld.1 hheld.2).2
    rw [delay_succ, writes, ← hsame] at hnew
    rw [writes, hnew] at ht
    cases ht

theorem begins_write (h : Agent u w) (ht : writes u t = true) :
    begins u w t = (!(regs u w t).endBegintransfer && !(regs u w t).endBeginbursttransfer &&
      !(regs u w t).inTransfer) := by
  have hread : (u t).uavRead = false := by
    rw [← Bool.not_eq_true]
    exact fun hr => h.exclusive t ⟨ht, hr⟩
  have hwrite : (u t).uavWrite = true := ht
  unfold begins avBeginbursttransfer avBegintransfer
  rw [hread, hwrite]
  simp

/-! ## Single words -/

/-- Every write is a burst of one word. -/
def SingleBeats (u : ℕ → Uav) : Prop :=
  ∀ t, (u t).uavWrite = true → (u t).uavBurstcount = symbolsPerWord

theorem idle_of_singleBeats (h : SingleBeats u) (t : ℕ) :
    (regs u w t).endBeginbursttransfer = false ∧ (regs u w t).inTransfer = false := by
  induction t with
  | zero => exact ⟨rfl, rfl⟩
  | succ t ih =>
    rw [regs_succ, clock]
    cases hw : (u t).uavWrite with
    | false => simp [ih.2]
    | true => simp [h t hw]

/-- **`av_beginbursttransfer` marks the first cycle of each transfer.** -/
theorem begins_eq (h : Agent u w) (hs : SingleBeats u) (t : ℕ) :
    begins u w (t + 2) =
      ((u (t + 2)).requests && !heldOver (fun t => (u t).requests) w (t + 2)) := by
  obtain ⟨hburst, hin⟩ := idle_of_singleBeats (w := w) hs (t + 2)
  have hend : (regs u w (t + 2)).endBegintransfer =
      heldOver (fun t => (u t).requests) w (t + 2) := by
    rw [Bool.eq_iff_iff]
    exact ⟨heldOver_of_end h.held, end_of_heldOver⟩
  unfold begins avBeginbursttransfer avBegintransfer
  rw [hburst, hin, hend]
  simp [Uav.requests]

/-- One store after the other to `LCD_BASE + 4`. -/
def stores : ℕ → Uav := fun _ =>
  { uavAddress := 0x2020004#32, uavBurstcount := symbolsPerWord, uavRead := false, uavWrite := true,
    uavByteenable := 0b11#2, uavWritedata := 0x0028#16 }

/-- With two wait states each store begins a burst of its own, and the cycle after that does not. -/
theorem begins_stores : begins stores (fun t => decide (t % 3 ≠ 2)) 300 = true ∧
    begins stores (fun t => decide (t % 3 ≠ 2)) 301 = false := by
  have hagent : Agent stores fun t => decide (t % 3 ≠ 2) :=
    ⟨fun _ hreq _ => ⟨hreq, rfl⟩, fun _ h => absurd h.2 Bool.false_ne_true⟩
  have hsingle : SingleBeats stores := fun _ _ => rfl
  exact ⟨(begins_eq hagent hsingle 298).trans (by decide),
    (begins_eq hagent hsingle 299).trans (by decide)⟩

/-- Each write that rises begins a burst. -/
theorem begins_rises (h : Agent u w) (hs : SingleBeats u) (ht : rises (writes u) t = true) :
    begins u w t = true := by
  obtain ⟨hw, hnew⟩ := rises_iff.mp ht
  obtain ⟨hburst, hin⟩ := idle_of_singleBeats (w := w) hs t
  rw [begins_write h hw, end_eq_false h hw hnew, hburst, hin]
  rfl

/-! ## The first write -/

/-- **So does the first write of all.** -/
theorem begins_first (h : Agent u w) (ht : writes u t = true)
    (hfirst : ∀ v, v < t → writes u v = false) :
    begins u w t = true := by
  have hidle : (regs u w t).endBeginbursttransfer = false ∧ (regs u w t).inTransfer = false := by
    clear ht
    induction t with
    | zero => exact ⟨rfl, rfl⟩
    | succ t ih =>
      have hw : (u t).uavWrite = false := hfirst t (Nat.lt_succ_self t)
      have hin := (ih fun v hv => hfirst v (Nat.lt_succ_of_lt hv)).2
      rw [regs_succ, clock, hw, hin]
      exact ⟨rfl, rfl⟩
  have hnew : delay false (writes u) t = false := by
    cases t with
    | zero => rfl
    | succ t => exact hfirst t (Nat.lt_succ_self t)
  rw [begins_write h ht, end_eq_false h ht hnew, hidle.1, hidle.2]
  rfl

end Runs

end LcdInterface.Translator

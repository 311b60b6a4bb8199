import LcdInterface.Clocked.Handshake
import LcdInterface.Dma.Edge

/-!
# The DMA's master port

The machine looks at `Master_WaitReq_S`, which is `Master_WaitReq_SI` one cycle late: `StateTx` is
left when it is `'0'`, `StateRequestRx` when it is `'1'`.

* `handshake_iff`: the port obeys the handshake iff waitrequest never changes into a cycle of
  `StateTx`, and no word arrives in `StateRx` while waitrequest is up. `write_accepted_twice` is a
  run that breaks it.
* `exactly_once_iff`: every word read is written exactly once iff the slave keeps waitrequest up
  while it owes a word, and returns each word in the last cycle of `StateRequestRx`.
  `words_read_lost` is a slave without wait states: all its words are lost.
-/

namespace LcdInterface.Dma

open Clocked Clocked.Handshake

/-! ## The port along a run -/

section Runs

variable (d : Signals) (i : ℕ → Inputs)

/-- `Master_WaitReq_SI`. -/
def masterWait (t : ℕ) : Bool := (i t).masterWaitReqSi

def masterRead (t : ℕ) : Bool := (cycle d i t).masterReadSo

def masterWrite (t : ℕ) : Bool := (cycle d i t).masterWriteSo

def masterAddress (t : ℕ) : BitVec 32 := (cycle d i t).masterAddressDo

/-- Address and data of a write. -/
def masterBeat (t : ℕ) : BitVec 32 × BitVec 16 :=
  ((cycle d i t).masterAddressDo, (cycle d i t).masterWriteDataDo)

variable {d i}

theorem masterWaitReqS_eq (t : ℕ) :
    (cycle d i t).masterWaitReqS = delay false (masterWait i) t := by
  cases t <;> rfl

theorem masterRead_iff (t : ℕ) :
    masterRead d i t = true ↔ state d i t = .stateRequestRx ∨ state d i t = .stateRx :=
  read_iff (live_cycle t)

theorem masterWrite_iff (t : ℕ) : masterWrite d i t = true ↔ state d i t = .stateTx :=
  write_iff (live_cycle t)

theorem masterWrite_eq_false (t : ℕ) : masterWrite d i t = false ↔ state d i t ≠ .stateTx := by
  rw [← Bool.not_eq_true, masterWrite_iff]

theorem masterAddress_read {t : ℕ} (h : state d i t = .stateRequestRx ∨ state d i t = .stateRx) :
    masterAddress d i t = (cycle d i t).regSrcPresD := by
  have hp := congrArg MasterPort.address (masterPort_eq (live_cycle (d := d) (i := i) t))
  unfold state at h
  rcases h with h | h
  · rw [h] at hp
    exact hp
  · rw [h] at hp
    exact hp

theorem masterBeat_write {t : ℕ} (h : state d i t = .stateTx) :
    masterBeat d i t = ((cycle d i t).regDestPresD, (cycle d i t).regDataPresD) := by
  have hp := masterPort_eq (live_cycle (d := d) (i := i) t)
  unfold state at h
  rw [h] at hp
  exact Prod.ext (congrArg MasterPort.address hp) (congrArg MasterPort.writeData hp)

/-! ### The transfer states along a run -/

theorem state_requestRx {t : ℕ} (h : state d i t = .stateRequestRx) :
    state d i (t + 1) =
      if (cycle d i t).masterWaitReqS then .stateRx else .stateRequestRx :=
  (edge_requestRx h).1

theorem state_rx {t : ℕ} (h : state d i t = .stateRx) :
    state d i (t + 1) =
      if (cycle d i t).masterReadDataValidS then .stateTx else .stateRequestRx :=
  (edge_rx h).1

theorem state_tx {t : ℕ} (h : state d i t = .stateTx) :
    state d i (t + 1) = if (cycle d i t).masterWaitReqS then .stateTx else .stateIdle :=
  (edge_tx h).1

theorem state_tx_iff {t : ℕ} (h : state d i t = .stateTx) :
    state d i (t + 1) = .stateTx ↔ (cycle d i t).masterWaitReqS = true := by
  rw [state_tx h]
  split <;> simp_all

/-- `RegSrc` does not change while the DMA reads. -/
theorem regSrc_kept {t : ℕ} (h : state d i t = .stateRequestRx ∨ state d i t = .stateRx) :
    (cycle d i (t + 1)).regSrcPresD = (cycle d i t).regSrcPresD := by
  rcases h with h | h
  · exact congrArg Addressable.src (edge_requestRx (x := i t) h).2
  · exact congrArg Addressable.src (edge_rx (x := i t) h).2

/-- Nor do `RegDest` and `RegData` while it writes. -/
theorem masterBeat_kept {t : ℕ} (h : state d i t = .stateTx) (hn : state d i (t + 1) = .stateTx) :
    masterBeat d i (t + 1) = masterBeat d i t := by
  have ha := (edge_tx (x := i t) h).2
  rw [masterBeat_write h, masterBeat_write hn]
  exact Prod.ext (congrArg Addressable.dest ha) (congrArg Addressable.data ha)

end Runs

/-! ## The handshake -/

section Handshake

variable (d : Signals) (i : ℕ → Inputs)

/-- The cycles `u + 1, …, v` are one stay in `StateTx`. -/
structure TxPhase (u v : ℕ) : Prop where
  before : state d i u ≠ .stateTx
  lt : u < v
  during : ∀ n, u < n → n ≤ v → state d i n = .stateTx
  after : state d i (v + 1) ≠ .stateTx

/-- The write accepted in cycle `t`. -/
def acceptedWrite : ℕ → Option (BitVec 32 × BitVec 16) :=
  accepted (masterWrite d i) (masterWait i) (masterBeat d i)

/-- The Avalon rules for a master. -/
structure HandshakeOk : Prop where
  /-- A read that has to wait is repeated. -/
  readHeld : Holds (masterRead d i) (masterWait i) (masterAddress d i)
  /-- So is a write. -/
  writeHeld : Holds (masterWrite d i) (masterWait i) (masterBeat d i)
  /-- An accepted write is not presented again. -/
  notAgain : ∀ t, masterWrite d i t = true → masterWait i t = false →
    masterWrite d i (t + 1) = false
  /-- Each stay in `StateTx` is accepted once. -/
  once : ∀ u v, TxPhase d i u v →
    (log (fun n => acceptedWrite d i (u + 1 + n)) (v - u)).length = 1

variable {d i}

/-- If waitrequest is steady, a stay in `StateTx` ends with the cycle that accepts it. -/
theorem TxPhase.accepted_once {u v : ℕ} (h : TxPhase d i u v)
    (hs : ∀ t, state d i t = .stateTx → (cycle d i t).masterWaitReqS = masterWait i t) :
    (log (fun n => acceptedWrite d i (u + 1 + n)) (v - u)).length = 1 := by
  obtain ⟨n, rfl⟩ : ∃ n, v = u + 1 + n := ⟨v - (u + 1), by have := h.lt; omega⟩
  have hwait : ∀ m, m < n → acceptedWrite d i (u + 1 + m) = none := by
    intro m hm
    have htx := h.during (u + 1 + m) (by omega) (by omega)
    have hnext := h.during (u + 1 + m + 1) (by omega) (by omega)
    exact accepted_of_wait ((hs _ htx).symm.trans ((state_tx_iff htx).mp hnext))
  have htx := h.during (u + 1 + n) (by omega) (by omega)
  have hlast : masterWait i (u + 1 + n) = false := by
    rw [← hs _ htx, ← Bool.not_eq_true, ← state_tx_iff htx]
    exact h.after
  have hacc : acceptedWrite d i (u + 1 + n) = some (masterBeat d i (u + 1 + n)) :=
    accepted_eq_some.mpr ⟨(masterWrite_iff _).mpr htx, hlast, rfl⟩
  rw [show u + 1 + n - u = n + 1 by omega,
    log_succ_some (e := fun n => acceptedWrite d i (u + 1 + n)) hacc, log_eq_nil hwait]
  rfl

/-- **The port obeys the handshake iff** in no cycle of `StateTx` waitrequest differs from the cycle
before, and in no cycle of `StateRx` a word has arrived while waitrequest is up. -/
theorem handshake_iff (d : Signals) (i : ℕ → Inputs) :
    HandshakeOk d i ↔ ∀ t,
      (state d i t = .stateTx → (cycle d i t).masterWaitReqS = masterWait i t) ∧
        (state d i t = .stateRx →
          ¬ ((cycle d i t).masterReadDataValidS = true ∧ masterWait i t = true)) := by
  constructor
  · intro h t
    constructor
    · intro htx
      have hw := (masterWrite_iff t).mpr htx
      cases hwait : masterWait i t with
      | true => exact (state_tx_iff htx).mp ((masterWrite_iff _).mp (h.writeHeld t hw hwait).1)
      | false =>
        have hnext := (masterWrite_eq_false _).mp (h.notAgain t hw hwait)
        rwa [Ne, state_tx_iff htx, Bool.not_eq_true] at hnext
    · rintro hrx ⟨hv, hwait⟩
      have hread := (h.readHeld t ((masterRead_iff t).mpr (Or.inr hrx)) hwait).1
      rw [masterRead_iff, state_rx hrx, if_pos hv] at hread
      simp at hread
  · intro h
    have hsteady := fun t => (h t).1
    refine ⟨?_, ?_, ?_, fun u v hp => hp.accepted_once hsteady⟩
    · intro t hread hwait
      have hst := (masterRead_iff t).mp hread
      have hnext : state d i (t + 1) = .stateRequestRx ∨ state d i (t + 1) = .stateRx := by
        rcases hst with hq | hq
        · rw [state_requestRx hq]
          split <;> simp
        · have hv : (cycle d i t).masterReadDataValidS = false := by
            rw [← Bool.not_eq_true]
            exact fun hv => (h t).2 hq ⟨hv, hwait⟩
          rw [state_rx hq, hv]
          exact Or.inl rfl
      refine ⟨(masterRead_iff _).mpr hnext, ?_⟩
      rw [masterAddress_read hnext, masterAddress_read hst, regSrc_kept hst]
    · intro t hw hwait
      have htx := (masterWrite_iff t).mp hw
      have hnext := (state_tx_iff htx).mpr ((hsteady t htx).trans hwait)
      exact ⟨(masterWrite_iff _).mpr hnext, masterBeat_kept htx hnext⟩
    · intro t hw hwait
      have htx := (masterWrite_iff t).mp hw
      rw [masterWrite_eq_false, Ne, state_tx_iff htx, hsteady t htx, hwait]
      simp

/-- A read strobe at the control register, `RegCtrlGo` on the data lines: what starts a transfer. -/
def goPort : Inputs :=
  { quietPort with addressDi := regCtrlAddr, writeDataDi := regCtrlGo, readSi := true }

/-- A transfer is started in cycle `0`; from then on the slave answers with `wait` and `valid`. -/
def transfer (wait valid : ℕ → Bool) (t : ℕ) : Inputs :=
  if t = 0 then goPort
  else
    { quietPort with
      masterWaitReqSi := wait t, masterReadDataValidSi := valid t, masterReadDataDi := 0x1234#16 }

def slowSlave : ℕ → Inputs := transfer (fun t => decide (6 ≤ t ∧ t ≤ 8)) fun t => decide (t = 7)

/-- **A write accepted in cycle `9` is accepted again in cycle `10`.** -/
theorem write_accepted_twice : ¬ HandshakeOk fresh slowSlave := by
  intro h
  have hw : masterWrite fresh slowSlave 9 = true := by decide
  have hagain := h.notAgain 9 hw (by decide)
  revert hagain
  decide

end Handshake

/-! ## Words read and words written -/

section Words

variable (d : Signals) (i : ℕ → Inputs)

/-- The read accepted in cycle `t`. -/
def acceptedRead : ℕ → Option (BitVec 32) :=
  accepted (masterRead d i) (masterWait i) (masterAddress d i)

/-- The word returned in cycle `t`. -/
def returned (t : ℕ) : Option (BitVec 16) :=
  if (i t).masterReadDataValidSi then some (i t).masterReadDataDi else none

/-- The accepted reads that are unanswered in cycle `t`. -/
def pending : ℕ → ℕ := outstanding (acceptedRead d i) (returned i)

/-- The word carried by the stay in `StateTx` that begins after cycle `t`. -/
def carried (t : ℕ) : Option (BitVec 16) :=
  if state d i t ≠ .stateTx ∧ state d i (t + 1) = .stateTx then
    some (cycle d i (t + 1)).masterWriteDataDo
  else none

/-- The word in `syncData`, on its way to `RegData`. -/
def inSync (t : ℕ) : Option (BitVec 16) :=
  if (cycle d i t).masterReadDataValidS then some (cycle d i t).masterReadDataD else none

/-- Each word read is written once, up to the one in `syncData`. -/
def ExactlyOnce : Prop :=
  ∀ t, pending d i t ≤ 1 ∧ log (returned i) t = log (carried d i) t ++ (inSync d i t).toList

/-- The slave answers accepted reads only, each once, one cycle later or more, and all of them. -/
structure Answers : Prop where
  causal : ∀ t, (log (returned i) (t + 1)).length ≤ (log (acceptedRead d i) t).length
  all : ∀ t, ∃ u, (log (acceptedRead d i) t).length ≤ (log (returned i) u).length

variable {d i}

theorem inSync_succ (t : ℕ) : inSync d i (t + 1) = returned i t := rfl

theorem log_inSync (t : ℕ) : log (inSync d i) (t + 1) = log (returned i) t := by
  rw [Nat.add_comm]
  refine log_shift (fun u hu => ?_) fun u _ => ?_
  · obtain rfl : u = 0 := by omega
    rfl
  · rw [Nat.add_comm, inSync_succ]

/-- **The words carried are the ones that are in `syncData` during `StateRx`.** -/
theorem carried_eq (t : ℕ) :
    carried d i t = when (fun t => state d i t = .stateRx) (inSync d i) t := by
  unfold carried when
  by_cases hrx : state d i t = .stateRx
  · rw [if_pos hrx]
    unfold inSync
    cases hv : (cycle d i t).masterReadDataValidS with
    | false =>
      have hnext : state d i (t + 1) = .stateRequestRx := by
        rw [state_rx hrx, hv]
        rfl
      simp [hnext]
    | true =>
      have hnext : state d i (t + 1) = .stateTx := by
        rw [state_rx hrx, hv]
        rfl
      have hword : (cycle d i (t + 1)).masterWriteDataDo = (cycle d i t).masterReadDataD := by
        have hbeat := congrArg Prod.snd (masterBeat_write hnext)
        have hdata := congrArg Addressable.data (edge_rx (x := i t) hrx).2
        rw [hv] at hdata
        exact hbeat.trans hdata
      rw [if_pos ⟨by rw [hrx]; simp, hnext⟩, hword]
      rfl
  · rw [if_neg hrx, if_neg]
    rintro ⟨hne, htx⟩
    exact hrx (rx_of_edge (live_cycle t) hne htx)

/-- **Nothing is dropped iff every word in `syncData` is there during `StateRx`.** -/
theorem returned_eq_iff :
    (∀ t, log (returned i) t = log (carried d i) t ++ (inSync d i t).toList) ↔
      ∀ t, inSync d i t ≠ none → state d i t = .stateRx := by
  have hlog : ∀ t, log (returned i) t = log (inSync d i) t ++ (inSync d i t).toList := by
    intro t
    rw [← log_inSync (d := d), log_succ]
  have hcarried : ∀ t, log (carried d i) t =
      log (when (fun t => state d i t = .stateRx) (inSync d i)) t := by
    intro t
    exact log_congr fun u _ => carried_eq u
  simp only [hlog, hcarried, List.append_left_inj]
  constructor
  · intro h t
    exact (log_when_eq_iff (t + 1)).mp (h (t + 1)).symm t (Nat.lt_succ_self t)
  · intro h t
    exact ((log_when_eq_iff t).mpr fun u _ => h u).symm

/-- In terms of the cycle in which the word is returned. -/
theorem inSync_rx_iff :
    (∀ t, inSync d i t ≠ none → state d i t = .stateRx) ↔
      ∀ t, (i t).masterReadDataValidSi = true →
        state d i t = .stateRequestRx ∧ (cycle d i t).masterWaitReqS = true := by
  constructor
  · intro h t hv
    refine requestRx_of_edge (live_cycle t) (h (t + 1) ?_)
    rw [inSync_succ, returned, if_pos hv]
    simp
  · intro h t hne
    cases t with
    | zero => exact absurd rfl hne
    | succ t =>
      have hv : (i t).masterReadDataValidSi = true := by
        by_contra hv
        exact hne (if_neg hv)
      obtain ⟨hq, hw⟩ := h t hv
      rw [state_requestRx hq, if_pos hw]

/-- **Every word read is written exactly once iff** the slave keeps waitrequest up while it owes a
word that the DMA asks for, and returns each word in a cycle of `StateRequestRx` after one with
waitrequest up. -/
theorem exactly_once_iff (d : Signals) (i : ℕ → Inputs) :
    ExactlyOnce d i ↔ ∀ t,
      (pending d i t ≠ 0 → (i t).masterReadDataValidSi = false →
        state d i t = .stateRequestRx ∨ state d i t = .stateRx → masterWait i t = true) ∧
      ((i t).masterReadDataValidSi = true →
        state d i t = .stateRequestRx ∧ (cycle d i t).masterWaitReqS = true) := by
  have haccept : ∀ t, acceptedRead d i t = none ↔
      (state d i t = .stateRequestRx ∨ state d i t = .stateRx → masterWait i t = true) := by
    intro t
    unfold acceptedRead
    rw [accepted_eq_none, masterRead_iff]
  have hreturned : ∀ t, returned i t = none ↔ (i t).masterReadDataValidSi = false := by
    intro t
    unfold returned
    cases (i t).masterReadDataValidSi <;> simp
  unfold ExactlyOnce pending
  rw [forall_and, outstanding_le_one_iff, returned_eq_iff, inSync_rx_iff, ← forall_and]
  simp only [haccept, hreturned]

/-- A slave without wait states that answers every read one cycle later. -/
def fastSlave : ℕ → Inputs := transfer (fun _ => false) fun t => decide (6 ≤ t)

/-- The DMA reads on and on. -/
theorem state_fastSlave (n : ℕ) : state fresh fastSlave (5 + n) = .stateRequestRx := by
  induction n with
  | zero => decide
  | succ n ih =>
    have hw : (cycle fresh fastSlave (5 + n)).masterWaitReqS = false := by
      rw [masterWaitReqS_eq, show 5 + n = 4 + n + 1 by omega, delay_succ]
      unfold masterWait fastSlave transfer
      rw [if_neg (by omega)]
    rw [← Nat.add_assoc, state_requestRx ih, hw]
    rfl

/-- **Its words are lost**: none reaches `StateTx`. -/
theorem words_read_lost : Answers fresh fastSlave ∧ ¬ ExactlyOnce fresh fastSlave := by
  have hacc : ∀ n, (log (acceptedRead fresh fastSlave) (5 + n)).length = n := by
    intro n
    induction n with
    | zero => decide
    | succ n ih =>
      have hsome : acceptedRead fresh fastSlave (5 + n) ≠ none := by
        rw [acceptedRead, Ne, accepted_eq_none, masterRead_iff]
        intro h
        have hw := h (Or.inl (state_fastSlave n))
        unfold masterWait fastSlave transfer at hw
        rw [if_neg (by omega)] at hw
        simp at hw
      obtain ⟨a, ha⟩ := Option.ne_none_iff_exists'.mp hsome
      rw [← Nat.add_assoc, length_log_succ, ih, ha]
      rfl
  have hret : ∀ n, (log (returned fastSlave) (6 + n)).length = n := by
    intro n
    induction n with
    | zero => decide
    | succ n ih =>
      have hsome : returned fastSlave (6 + n) = some 0x1234#16 := by
        simp [returned, fastSlave, transfer]
      rw [← Nat.add_assoc, length_log_succ, ih, hsome]
      rfl
  refine ⟨⟨fun t => ?_, fun t => ?_⟩, fun h => ?_⟩
  · by_cases ht : t < 5
    · have hmono := length_log_mono (e := returned fastSlave) (show t + 1 ≤ 6 by omega)
      have hnone := hret 0
      rw [Nat.add_zero] at hnone
      omega
    · obtain ⟨n, rfl⟩ : ∃ n, t = 5 + n := ⟨t - 5, by omega⟩
      rw [show 5 + n + 1 = 6 + n by omega]
      exact Nat.le_of_eq ((hret n).trans (hacc n).symm)
  · have hmono := length_log_mono (e := acceptedRead fresh fastSlave) (show t ≤ 5 + t by omega)
    refine ⟨6 + t, ?_⟩
    rw [hret]
    rwa [hacc] at hmono
  · exact absurd (h 8).2 (by decide)

end Words

end LcdInterface.Dma

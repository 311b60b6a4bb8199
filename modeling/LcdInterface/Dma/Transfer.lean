import LcdInterface.Dma.Master
import LcdInterface.Dma.Registers

/-!
# The DMA's transfers

A transfer is the machine's way from `StateIdle` through `StateRequestRx`, `StateRx` and `StateTx`
back to `StateIdle`.

* `data_path`: it writes the word it has read to the `RegDest` it started with, and no register but
  `RegData` changes before it has ended.
* `length_starts`: each start carries at most one word.
* `Finds.carried_ne_none`, `finds_of_carried`, `Ends.idle`: when it finds its word and when it ends,
  in terms of the bus.
-/

namespace LcdInterface.Dma

open Clocked Clocked.Handshake

section Runs

variable (d : Signals) (i : ℕ → Inputs)

/-! ## From start to end -/

/-- The machine last left `StateIdle` for `StateRequestRx` in cycle `a`, and is not back in
cycle `t`. -/
structure Transfer (a t : ℕ) : Prop where
  idle : state d i a = .stateIdle
  started : state d i (a + 1) = .stateRequestRx
  lt : a < t
  busy : ∀ n, a < n → n ≤ t → state d i n ≠ .stateIdle

/-- The word returned in cycle `q` ended `StateRx` one cycle later, and the machine has been in
`StateTx` since, up to cycle `t`. -/
structure Fetched (q t : ℕ) : Prop where
  valid : (i q).masterReadDataValidSi = true
  rx : state d i (q + 1) = .stateRx
  lt : q + 1 < t
  tx : ∀ n, q + 1 < n → n ≤ t → state d i n = .stateTx

/-- One of the states of a transfer. -/
def InTransfer (t : ℕ) : Prop :=
  state d i t = .stateRequestRx ∨ state d i t = .stateRx ∨ state d i t = .stateTx

variable {d i}

theorem state_succ (t : ℕ) : state d i (t + 1) = successor (cycle d i t).toRegs :=
  edge_successor (live_cycle t)

/-- A transfer is left to `StateIdle` only … -/
theorem InTransfer.succ {t : ℕ} (h : InTransfer d i t) :
    InTransfer d i (t + 1) ∨ state d i (t + 1) = .stateIdle := by
  unfold InTransfer
  rcases h with h | h | h
  · rw [state_requestRx h]
    split <;> simp
  · rw [state_rx h]
    split <;> simp
  · rw [state_tx h]
    split <;> simp

/-- … and entered from there. -/
theorem InTransfer.pred {t : ℕ} (h : InTransfer d i (t + 1)) :
    InTransfer d i t ∨ state d i t = .stateIdle ∧ state d i (t + 1) = .stateRequestRx := by
  unfold InTransfer at h ⊢
  have hs := state_succ (d := d) (i := i) t
  unfold successor at hs
  unfold state at *
  grind

theorem InTransfer.ne_idle {t : ℕ} (h : InTransfer d i t) : state d i t ≠ .stateIdle := by
  rcases h with h | h | h
  · rw [h]
    simp
  · rw [h]
    simp
  · rw [h]
    simp

/-- Every transfer has its start. -/
theorem InTransfer.exists_start {t : ℕ} (h : InTransfer d i t) : ∃ a, Transfer d i a t := by
  have h0 : ¬ InTransfer d i 0 := by
    rintro (h | h | h)
    · cases h
    · cases h
    · cases h
  obtain ⟨a, hat, hout, hall⟩ := exists_before h0 h
  rcases (hall (a + 1) (Nat.lt_succ_self a) hat).pred with hin | ⟨hidle, hstart⟩
  · exact absurd hin hout
  · exact ⟨a, hidle, hstart, hat, fun n h1 h2 => (hall n h1 h2).ne_idle⟩

theorem Transfer.inTransfer {a t : ℕ} (h : Transfer d i a t) {n : ℕ} (han : a < n) (hnt : n ≤ t) :
    InTransfer d i n := by
  induction n with
  | zero => omega
  | succ n ih =>
    rcases Nat.lt_succ_iff_lt_or_eq.mp han with hlt | rfl
    · exact (ih hlt (by omega)).succ.resolve_right (h.busy _ han hnt)
    · exact Or.inl h.started

/-- A stay in `StateTx` begins with a word in `StateRx`. -/
theorem exists_fetched {t : ℕ} (h : state d i t = .stateTx) : ∃ q, Fetched d i q t := by
  have h0 : state d i 0 ≠ .stateTx := by
    intro h
    cases h
  obtain ⟨a, hat, hne, hall⟩ := exists_before (P := fun t => state d i t = .stateTx) h0 h
  have htx := hall (a + 1) (Nat.lt_succ_self a) hat
  have hrx : state d i a = .stateRx := rx_of_edge (live_cycle a) hne htx
  cases a with
  | zero => cases hrx
  | succ q =>
    have hv : (i q).masterReadDataValidSi = true := by
      by_contra hv
      have hs : (cycle d i (q + 1)).masterReadDataValidS = false := Bool.eq_false_iff.mpr hv
      rw [state_rx hrx, hs] at htx
      simp at htx
    exact ⟨q, hv, hrx, hat, hall⟩

/-! ## The data path -/

/-- The registers without `RegData`. -/
def Addressable.setup (a : Addressable) : Addressable := { a with data := 0 }

/-- `RegData` is the only register a transfer assigns. -/
theorem InTransfer.setup_kept {t : ℕ} (h : InTransfer d i t) :
    (addressable (cycle d i (t + 1)).toRegs).setup =
      (addressable (cycle d i t).toRegs).setup := by
  rw [cycle_succ]
  rcases h with h | h | h
  · rw [(edge_requestRx h).2]
  · rw [(edge_rx h).2]
    rfl
  · rw [(edge_tx h).2]

/-- **From the start of a transfer up to the next `StateIdle`.** -/
theorem Transfer.setup_kept {a t : ℕ} (h : Transfer d i a t) {n : ℕ} (han : a ≤ n)
    (hnt : n ≤ t + 1) :
    (addressable (cycle d i n).toRegs).setup = (addressable (cycle d i a).toRegs).setup := by
  induction n with
  | zero =>
    obtain rfl : a = 0 := by omega
    rfl
  | succ n ih =>
    rcases Nat.lt_or_ge a n with hlt | hge
    · rw [(h.inTransfer hlt (by omega)).setup_kept, ih (Nat.le_of_lt hlt) (by omega)]
    rcases Nat.lt_or_ge n a with hlt | hle
    · obtain rfl : a = n + 1 := by omega
      rfl
    obtain rfl : a = n := by omega
    have hidle : (cycle d i a).readEdgeD = false := by
      by_contra he
      have hs := h.started
      have hq := (edge_idle_some (x := i a) h.idle (by simpa using he)).1
      unfold state at hs
      rw [cycle_succ, hq] at hs
      simp at hs
    rw [cycle_succ, (edge_idle_none h.idle hidle).2]

/-- `RegData` keeps the word. -/
theorem Fetched.data {q t : ℕ} (h : Fetched d i q t) :
    (cycle d i t).regDataPresD = (i q).masterReadDataDi := by
  obtain ⟨n, rfl⟩ : ∃ n, t = q + 2 + n := ⟨t - (q + 2), by have := h.lt; omega⟩
  induction n with
  | zero =>
    have hdata := congrArg Addressable.data (edge_rx (x := i (q + 1)) h.rx).2
    have hv : (cycle d i (q + 1)).masterReadDataValidS = true := h.valid
    rw [hv] at hdata
    exact hdata
  | succ n ih =>
    have htx := h.tx (q + 2 + n) (by omega) (by omega)
    have hdata := congrArg Addressable.data (edge_tx (x := i (q + 2 + n)) htx).2
    refine Eq.trans hdata (ih ⟨h.valid, h.rx, by omega, fun m h1 h2 => h.tx m h1 (by omega)⟩)

variable (d i)

/-- What a transfer does to the master port and the registers. -/
structure DataPath : Prop where
  /-- The word of the last `StateRx`, to the `RegDest` of the last start. -/
  write : ∀ t, state d i t = .stateTx → ∃ a q, Transfer d i a t ∧ Fetched d i q t ∧
    masterPort (cycle d i t).toLogic =
      ⟨(cycle d i a).regDestPresD, false, false, true, (i q).masterReadDataDi⟩
  /-- The port is steady while the word is written. -/
  steady : ∀ t, state d i t = .stateTx → state d i (t + 1) = .stateTx →
    masterPort (cycle d i (t + 1)).toLogic = masterPort (cycle d i t).toLogic
  /-- No register but `RegData` changes, up to and with the next `StateIdle`. -/
  kept : ∀ a t, Transfer d i a t → ∀ n, a ≤ n → n ≤ t + 1 →
    (addressable (cycle d i n).toRegs).setup = (addressable (cycle d i a).toRegs).setup
  /-- Every read is one of `RegSrc`. -/
  read : ∀ t, masterRead d i t = true → masterAddress d i t = (cycle d i t).regSrcPresD

/-- **The data path of a transfer**, whatever happens on the slave port. -/
theorem data_path : DataPath d i := by
  have hport : ∀ t, state d i t = .stateTx → masterPort (cycle d i t).toLogic =
      ⟨(cycle d i t).regDestPresD, false, false, true, (cycle d i t).regDataPresD⟩ := by
    intro t htx
    have hp := masterPort_eq (live_cycle (d := d) (i := i) t)
    unfold state at htx
    rw [htx] at hp
    exact hp
  refine ⟨fun t htx => ?_, fun t htx hnext => ?_, fun a t h n => h.setup_kept, fun t h => ?_⟩
  · obtain ⟨a, ha⟩ := InTransfer.exists_start (Or.inr (Or.inr htx))
    obtain ⟨q, hq⟩ := exists_fetched htx
    refine ⟨a, q, ha, hq, ?_⟩
    have hdest := congrArg Addressable.dest (ha.setup_kept (Nat.le_of_lt ha.lt) (Nat.le_succ t))
    rw [hport t htx, hq.data]
    exact congrArg (fun dest => MasterPort.mk dest _ _ _ _) hdest
  · have hkept := (edge_tx (x := i t) htx).2
    rw [hport t htx, hport (t + 1) hnext]
    exact congrArg (fun a => MasterPort.mk a.dest _ _ _ a.data) hkept
  · exact masterAddress_read ((masterRead_iff t).mp h)

/-! ## Starts and words -/

/-- `StateIdle` starts a transfer in cycle `t`. -/
def starts (t : ℕ) : Option Unit :=
  if state d i t = .stateIdle ∧ state d i (t + 1) = .stateRequestRx then some () else none

variable {d i}

/-- A stay in `StateTx` begins iff a word is there in `StateRx`. -/
theorem carried_ne_none {t : ℕ} :
    carried d i t ≠ none ↔
      state d i t = .stateRx ∧ (cycle d i t).masterReadDataValidS = true := by
  rw [carried_eq]
  unfold when inSync
  split_ifs <;> simp_all

theorem length_carried_one (t : ℕ) : (carried d i t).toList.length =
    if state d i t = .stateRx ∧ (cycle d i t).masterReadDataValidS = true then 1 else 0 := by
  by_cases h : state d i t = .stateRx ∧ (cycle d i t).masterReadDataValidS = true
  · obtain ⟨w, hw⟩ := Option.ne_none_iff_exists'.mp (carried_ne_none.mpr h)
    rw [if_pos h, hw]
    rfl
  · have hnone : carried d i t = none := by
      by_contra hne
      exact h (carried_ne_none.mp hne)
    rw [if_neg h, hnone]
    rfl

/-- **Each start makes at most one transfer**: the transfers begun are the starts, less the one that
has no word yet. -/
theorem length_starts (t : ℕ) :
    (log (starts d i) t).length = (log (carried d i) t).length +
      if state d i t = .stateRequestRx ∨ state d i t = .stateRx then 1 else 0 := by
  induction t with
  | zero => rfl
  | succ t ih =>
    have hstart : (starts d i t).toList.length =
        if state d i t = .stateIdle ∧ state d i (t + 1) = .stateRequestRx then 1 else 0 := by
      unfold starts
      split <;> rfl
    rw [length_log_succ, length_log_succ, ih, hstart, length_carried_one]
    have hnext := state_succ (d := d) (i := i) t
    unfold successor at hnext
    unfold state at *
    grind

/-! ## The bus side of a transfer -/

/-- `Master_WaitReq_S`. -/
def waited (i : ℕ → Inputs) : ℕ → Bool := delay false (masterWait i)

/-- `Master_ReadDataValid_S`. -/
def answered (i : ℕ → Inputs) : ℕ → Bool := delay false fun t => (i t).masterReadDataValidSi

/-- Does a read that is requested in cycle `b` sample the port in cycle `b + n`, if it has found no
word before? It does in the cycle after waitrequest, but not twice in a row. -/
def samples (i : ℕ → Inputs) (b : ℕ) : ℕ → Bool
  | 0 => false
  | n + 1 => waited i (b + n) && !samples i b n

/-- A read that is requested in cycle `b` finds its word in cycle `b + n`. -/
structure Finds (i : ℕ → Inputs) (b n : ℕ) : Prop where
  sampled : samples i b n = true
  word : answered i (b + n) = true
  first : ∀ m, m < n → samples i b m = true → answered i (b + m) = false

/-- A write that is presented from cycle `b` on is over after cycle `b + n`. -/
structure Ends (i : ℕ → Inputs) (b n : ℕ) : Prop where
  low : waited i (b + n) = false
  held : ∀ m, m < n → waited i (b + m) = true

variable {b n : ℕ}

theorem masterReadDataValidS_eq (t : ℕ) :
    (cycle d i t).masterReadDataValidS = answered i t := by
  cases t <;> rfl

/-- **While no word is found**, the machine is in `StateRx` in the cycles that sample, and in
`StateRequestRx` in the others. -/
theorem state_read (h : state d i b = .stateRequestRx)
    (hno : ∀ m, m < n → samples i b m = true → answered i (b + m) = false) :
    state d i (b + n) = if samples i b n then .stateRx else .stateRequestRx := by
  induction n with
  | zero => exact h
  | succ n ih =>
    have hprev := ih fun m hm => hno m (by omega)
    rw [← Nat.add_assoc, samples]
    cases hs : samples i b n with
    | true =>
      rw [hs, if_pos rfl] at hprev
      rw [state_rx hprev, masterReadDataValidS_eq, hno n (by omega) hs]
      simp
    | false =>
      rw [hs, if_neg Bool.false_ne_true] at hprev
      rw [state_requestRx hprev, masterWaitReqS_eq]
      unfold waited
      simp

theorem Finds.carried_ne_none (hf : Finds i b n) (h : state d i b = .stateRequestRx) :
    carried d i (b + n) ≠ none := by
  have hrx := state_read h hf.first
  rw [hf.sampled, if_pos rfl] at hrx
  exact Dma.carried_ne_none.mpr ⟨hrx, (masterReadDataValidS_eq _).trans hf.word⟩

/-- The first word carried after a request is the one it finds. -/
theorem finds_of_carried (h : state d i b = .stateRequestRx) (hc : carried d i (b + n) ≠ none)
    (hno : ∀ m, m < n → carried d i (b + m) = none) : Finds i b n := by
  have hfirst : ∀ k, k ≤ n → ∀ m, m < k → samples i b m = true → answered i (b + m) = false := by
    intro k hk
    induction k with
    | zero => omega
    | succ k ih =>
      intro m hm hs
      rcases Nat.lt_succ_iff_lt_or_eq.mp hm with hlt | rfl
      · exact ih (by omega) m hlt hs
      · have hrx := state_read h (ih (by omega))
        rw [hs, if_pos rfl] at hrx
        by_contra hv
        rw [Bool.not_eq_false, ← masterReadDataValidS_eq (d := d)] at hv
        exact Dma.carried_ne_none.mpr ⟨hrx, hv⟩ (hno m (by omega))
  obtain ⟨hrx, hv⟩ := Dma.carried_ne_none.mp hc
  have hstate := state_read h (hfirst n (Nat.le_refl n))
  rw [hrx] at hstate
  refine ⟨?_, (masterReadDataValidS_eq _).symm.trans hv, hfirst n (Nat.le_refl n)⟩
  by_contra hs
  rw [if_neg hs] at hstate
  simp at hstate

/-- The machine stays in `StateTx` as long as it was made to wait. -/
theorem state_write (h : state d i b = .stateTx) (hw : ∀ m, m < n → waited i (b + m) = true) :
    state d i (b + n) = .stateTx := by
  induction n with
  | zero => exact h
  | succ n ih =>
    rw [← Nat.add_assoc, state_tx_iff (ih fun m hm => hw m (by omega)), masterWaitReqS_eq]
    exact hw n (by omega)

theorem Ends.idle (he : Ends i b n) (h : state d i b = .stateTx) :
    state d i (b + n + 1) = .stateIdle := by
  have hw : (cycle d i (b + n)).masterWaitReqS = false := (masterWaitReqS_eq _).trans he.low
  rw [state_tx (state_write h he.held), hw]
  rfl

end Runs

end LcdInterface.Dma

import LcdInterface.Clocked.Requester
import LcdInterface.LcdDriver.Boot

/-!
# The driver and its master

A master that works through a list of writes, each after a rest of some cycles, and the driver, as
one closed system from reset: the master sees `WaitReq_SO`, the driver sees the master's port. So
nothing is assumed of the bus, and the pace of the master decides what the panel is shown.

* `served`: if the first write comes after the LCD reset, every write is accepted, and the captured
  ones are those that `thin` leaves: the first, and then each that comes after a rest of at least
  one cycle and when the driver is through with the last one captured.
* `shown_iff`: the panel is shown all the writes iff they are spaced that way.
* `hangs_iff`: the master never gets past its first write, and the panel is shown nothing, iff that
  write comes in the LCD reset. `half_second_hangs` is a master that waits for half a second. A
  write in the very first cycle does not hang: `StateReset` accepts it, and it is lost.
* `captured_sublist`, `words_sublist`: whenever the first write comes, what is captured and shown is
  some of the writes, in order.
-/

namespace LcdInterface.LcdDriver

open Clocked Clocked.Server Clocked.Handshake Clocked.Requester
open Slave (Inputs)

/-- A write outside a burst. -/
structure Write where
  address : BitVec 16
  data : BitVec 16
  byteEnable : BitVec 2
  deriving DecidableEq, Repr

def Write.port (w : Write) : Inputs :=
  { quietPort with
    addressDi := w.address, writeSi := true, writeDataDi := w.data, byteEnableDi := w.byteEnable }

def Write.job (w : Write) : Job := ⟨w.address, w.data, w.byteEnable, 0⟩

/-- Cycles from the capture of `w` to the next idle one. -/
def Write.busy (w : Write) : ℕ := if IsTx w.address then 10 else 2

/-- The slave port under the master's request. -/
def portOf : Option Write → Inputs
  | none => quietPort
  | some w => w.port

theorem writeSi_portOf (o : Option Write) : (portOf o).writeSi = o.isSome := by
  cases o <;> rfl

theorem inputJob_port (w : Write) : inputJob w.port = w.job := rfl

theorem duration_job (w : Write) : w.job.duration = (w.busy : ℕ∞) := by
  unfold Job.duration Write.busy Write.job
  by_cases ha : IsTx w.address
  · simp only [ha, if_true]
    rfl
  · simp only [ha, if_false]
    rfl

theorem one_lt_busy (w : Write) : 1 < w.busy := by
  unfold Write.busy
  split_ifs
  · omega
  · omega

/-! ## The closed system -/

section System

variable (s : Signals) (l : List (ℕ × Write))

/-- The driver, and the writes that are still to be made, in cycle `t`. -/
def system (t : ℕ) : Signals × List (ℕ × Write) :=
  loop edge (fun s => s.waitReqSo) portOf (reset s) l t

/-- The slave port in the closed system. -/
def systemPort (t : ℕ) : Inputs := portOf (present (system s l t).2)

variable {s l}

/-- The driver runs on that port … -/
theorem system_fst (t : ℕ) : (system s l t).1 = cycle s (systemPort s l) t :=
  loop_fst edge (fun s => s.waitReqSo) portOf (reset s) l t

/-- … and the master under the driver's `WaitReq_SO`. -/
theorem system_snd (t : ℕ) :
    (system s l t).2 = run advance l (waitReq s (systemPort s l)) t := by
  have hwait : waitReq s (systemPort s l) = fun t => (system s l t).1.waitReqSo := by
    funext t
    rw [system_fst]
    rfl
  rw [hwait]
  exact loop_snd edge (fun s => s.waitReqSo) portOf (reset s) l t

theorem write_system (t : ℕ) :
    write (systemPort s l) t = (present (system s l t).2).isSome := writeSi_portOf _

/-- The master obeys the handshake. -/
theorem master_system : Master s (systemPort s l) := by
  intro t hw hwait
  have h : Holds (fun t => (present (system s l t).2).isSome) (waitReq s (systemPort s l))
      (fun t => present (system s l t).2) := by
    simp only [system_snd]
    exact holds
  rw [write_system] at hw
  obtain ⟨hreq, hsame⟩ := h t hw hwait
  refine ⟨by rw [write_system]; exact hreq, ?_⟩
  exact congrArg (fun o => payload (portOf o)) hsame

/-- The driver is offered each write two cycles after it was raised. -/
theorem offer_system (t : ℕ) : offer (cycle s (systemPort s l) (t + 2)) =
    (requested (waitReq s (systemPort s l)) false l t).map Write.job := by
  have hlast : delay false (write (systemPort s l)) t =
      delay false (fun n => (present (system s l n).2).isSome) t := by
    cases t with
    | zero => rfl
    | succ t => exact write_system t
  rw [offer_eq, rises, write_system, hlast, requested]
  simp only [← system_snd]
  cases delay false (fun n => (present (system s l n).2).isSome) t with
  | true => simp
  | false =>
    unfold systemPort
    cases present (system s l t).2 <;> rfl

/-- **At any time and any pace**, what has been captured is some of the writes, in order, … -/
theorem captured_sublist (t : ℕ) :
    (log (captured s (systemPort s l)) (2 + t)).Sublist (l.map fun x => x.2.job) := by
  have hoffer : ∀ u j, captured s (systemPort s l) (2 + u) = some j →
      (requested (waitReq s (systemPort s l)) false l u).map Write.job = some j := by
    intro u j hj
    rw [← offer_system, Nat.add_comm]
    exact (captured_eq_some.mp hj).2
  have hfirst : log (captured s (systemPort s l)) 2 = [] :=
    log_eq_nil fun u hu => captured_boot (by unfold bootCycles; omega)
  have hreq : log (fun u => (requested (waitReq s (systemPort s l)) false l u).map Write.job) t =
      (log (requested (waitReq s (systemPort s l)) false l) t).map Write.job := by
    rw [← List.filterMap_eq_map, log_filterMap]
    simp only [Option.map_eq_bind]
  have hsub := log_sublist hoffer t
  rw [hreq] at hsub
  rw [log_add, hfirst, List.nil_append]
  have hall := hsub.trans ((log_requested_sublist t).map Write.job)
  rwa [List.map_map] at hall

/-- … and so is what has been shown. -/
theorem words_sublist (t : ℕ) :
    (words s (systemPort s l) t).Sublist (l.filterMap fun x => x.2.job.toPanel) := by
  have hpre := (words_mono t 2).trans (words_of_captured (s := s) (i := systemPort s l) (t + 2))
  rw [Nat.add_comm t 2] at hpre
  have hsub := (captured_sublist (s := s) (l := l) t).filterMap Job.toPanel
  rw [List.filterMap_map] at hsub
  exact hpre.sublist.trans hsub

end System

/-! ## The first write of a run -/

section First

variable {s : Signals} {i : ℕ → Inputs} {g t : ℕ}

/-- Nothing is captured before it, … -/
theorem captured_of_no_write (hno : ∀ v, v < g → write i v = false) (h : t < g + 2) :
    captured s i t = none := by
  rcases t with _ | _ | t
  · exact captured_of_offer_none offer_zero
  · exact captured_of_offer_none offer_one
  · refine captured_of_not_rises ?_
    rw [rises, hno t (by omega)]
    rfl

/-- … **and after the LCD reset it is captured**, two cycles after it was raised. -/
theorem captured_of_first_write (hlate : bootCycles ≤ g + 1) (hw : write i g = true)
    (hno : ∀ v, v < g → write i v = false) : captured s i (g + 2) = some (inputJob (i g)) := by
  have hidle : phaseAt s i (g + 2) = .idle :=
    idle_before (by omega) fun u hu => captured_of_no_write hno hu
  have hr : rises (write i) g = true := by
    refine rises_iff.mpr ⟨hw, ?_⟩
    cases g with
    | zero => rfl
    | succ g => exact hno g (Nat.lt_succ_self g)
  rw [captured_eq_some, offer_eq, if_pos hr]
  exact ⟨hidle, rfl⟩

end First

/-! ## A first write that comes early -/

section Early

variable {s : Signals} {g : ℕ} {w : Write} {rest : List (ℕ × Write)}

theorem system_gap : (system s ((g, w) :: rest) g).2 = (0, w) :: rest := by
  rw [system_snd, run_gap]

/-- `StateReset` accepts a write. -/
theorem system_accepted_zero : (system s ((0, w) :: rest) 1).2 = rest := by
  rw [system_snd]
  exact run_accepted (k := 0) (fun n hn => absurd hn (Nat.not_lt_zero n)) rfl

/-- The master waits for the first write to be accepted, and the panel is shown nothing. -/
structure Hangs (s : Signals) (g : ℕ) (w : Write) (rest : List (ℕ × Write)) : Prop where
  stuck : ∀ n, (system s ((g, w) :: rest) (g + n)).2 = (0, w) :: rest
  blank : ∀ t, words s (systemPort s ((g, w) :: rest)) t = []

/-- In a deadlock nothing is captured. -/
theorem captured_deadlocked {i : ℕ → Inputs} (hm : Master s i)
    (h : Deadlocked s i (bootCycles + 1)) (t : ℕ) : captured s i t = none := by
  by_cases hb : t ≤ bootCycles
  · exact captured_boot hb
  · obtain ⟨n, rfl⟩ : ∃ n, t = bootCycles + 1 + n := ⟨t - (bootCycles + 1), by omega⟩
    have hd : Deadlocked s i (bootCycles + 1 + n) := by
      induction n with
      | zero => exact h
      | succ n ih => exact deadlocked_succ hm (ih (by omega))
    refine captured_of_offer_none ?_
    unfold offer
    rw [hd.pulse]
    rfl

theorem hangs_of_early (h0 : 0 < g) (h : g + 1 < bootCycles) : Hangs s g w rest := by
  have hw : write (systemPort s ((g, w) :: rest)) g = true := by
    rw [write_system, system_gap]
    rfl
  have hnone := captured_deadlocked master_system
    (deadlocked_of_early (s := s) master_system h0 (by omega) hw)
  refine ⟨fun n => ?_, fun t => ?_⟩
  · rw [system_snd]
    exact run_held fun m _ => waitReq_before (by omega) fun u _ => hnone u
  · have h := words_of_captured (s := s) (i := systemPort s ((g, w) :: rest)) t
    rw [log_eq_nil fun u _ => hnone u] at h
    exact List.prefix_nil.mp h

end Early

/-! ## A first write that comes late -/

section Late

variable {s : Signals} {g : ℕ} {w : Write} {rest : List (ℕ × Write)}

theorem write_before {t : ℕ} (h : t < g) : write (systemPort s ((g, w) :: rest)) t = false := by
  obtain ⟨k, hk⟩ : ∃ k, g - t = k + 1 := ⟨g - t - 1, by omega⟩
  rw [write_system, system_snd, run_le (Nat.le_of_lt h), hk]
  rfl

theorem captured_before {t : ℕ} (h : t < g + 2) :
    captured s (systemPort s ((g, w) :: rest)) t = none :=
  captured_of_no_write (fun _ hv => write_before hv) h

/-- The first write is captured two cycles after it was raised. -/
theorem captured_first (h : bootCycles ≤ g + 1) :
    captured s (systemPort s ((g, w) :: rest)) (g + 2) = some w.job := by
  have hport : systemPort s ((g, w) :: rest) g = w.port := by
    unfold systemPort
    rw [system_gap]
    rfl
  rw [captured_of_first_write h (congrArg Inputs.writeSi hport) fun _ hv => write_before hv, hport,
    inputJob_port]

/-- It is accepted one cycle later, and from then on nothing has to wait. -/
theorem system_late (h : bootCycles ≤ g + 1) (n : ℕ) :
    (system s ((g, w) :: rest) (g + 4 + n)).2 = unhindered rest n := by
  have h2 : 2 < bootCycles := by unfold bootCycles; omega
  have hwait : ∀ m, m < 3 → waitReq s (systemPort s ((g, w) :: rest)) (g + m) = true := by
    intro m hm
    exact waitReq_before (by omega) fun u hu => captured_before (by omega)
  have hfree : ∀ m, waitReq s (systemPort s ((g, w) :: rest)) (g + 3 + m) = false := by
    intro m
    exact waitReq_after (captured_first h) (by omega)
  rw [system_snd, show g + 4 + n = g + 3 + 1 + n by omega, run_add, run_accepted hwait (hfree 0)]
  unfold unhindered
  congr 1
  funext m
  rw [show g + 3 + 1 + m = g + 3 + (1 + m) by omega, hfree]

theorem write_held (h : bootCycles ≤ g + 1) {n : ℕ} (hn : n ≤ 3) :
    write (systemPort s ((g, w) :: rest)) (g + n) = true := by
  have h2 : 2 < bootCycles := by unfold bootCycles; omega
  rw [write_system, system_snd, run_held fun m hm => ?_]
  · rfl
  · exact waitReq_before (by omega) fun u hu => captured_before (by omega)

/-- The driver is offered the other writes by their edges. -/
theorem offer_late (h : bootCycles ≤ g + 1) (n : ℕ) :
    offer (cycle s (systemPort s ((g, w) :: rest)) (g + 6 + n)) =
      (edges rest n).map Write.job := by
  have hreq : ∀ m, write (systemPort s ((g, w) :: rest)) (g + 4 + m) =
      (present (unhindered rest m)).isSome := by
    intro m
    rw [write_system, system_late h]
  have hlast : delay false (write (systemPort s ((g, w) :: rest))) (g + 4 + n) =
      delay true (fun n => (present (unhindered rest n)).isSome) n := by
    cases n with
    | zero => exact write_held h (Nat.le_refl 3)
    | succ n =>
      rw [← Nat.add_assoc, delay_succ, delay_succ, hreq]
  rw [show g + 6 + n = g + 4 + n + 2 by omega, offer_eq, rises, hreq, hlast, edges_eq]
  cases delay true (fun n => (present (unhindered rest n)).isSome) n with
  | true => simp
  | false =>
    unfold systemPort
    rw [system_late h]
    cases present (unhindered rest n) <;> rfl

/-- With the first write the driver is still busy for six cycles, or through already. -/
theorem freeIn_late (h : bootCycles ≤ g + 1) :
    FreeIn Job.duration bootCycles
      (fun t => offer (cycle s (systemPort s ((g, w) :: rest)) t)) (g + 6) (w.busy - 4) := by
  have hfirst : captured s (systemPort s ((g, w) :: rest)) (g + 2) = some w.job := captured_first h
  rw [captured_eq_taken] at hfirst
  have hfree := FreeIn.of_taken hfirst (duration_job w) (one_lt_busy w)
  have hlater := hfree.add (n := 3) fun m hm _ => by
    rw [show g + 2 + 1 + m = g + 1 + m + 2 by omega, offer_eq, if_neg]
    rw [Nat.add_assoc, Nat.add_comm 1 m, ← Nat.add_assoc,
      rises_succ_of_high (write_held h (by omega))]
    simp
  rwa [show w.busy - 1 - 3 = w.busy - 4 by omega] at hlater

/-- **The captures of the closed system.** -/
theorem log_captured_late (h : bootCycles ≤ g + 1) (k : ℕ) :
    log (captured s (systemPort s ((g, w) :: rest))) (g + 6 + (span rest + k)) =
      (w :: thin Write.busy (w.busy - 4) rest).map Write.job := by
  have hfirst : log (captured s (systemPort s ((g, w) :: rest))) (g + 6) = [w.job] := by
    rw [show g + 6 = g + 2 + 1 + 3 by omega, log_add_none fun n hn => ?_,
      log_succ_some (captured_first h), log_eq_nil fun u hu => captured_before hu,
      List.nil_append]
    rw [show g + 2 + 1 + n = g + n + 1 + 2 by omega]
    exact captured_of_not_rises (rises_succ_of_high (write_held h (by omega)))
  have hoffer : ∀ n, offer (cycle s (systemPort s ((g, w) :: rest)) (g + 6 + n)) = _ := offer_late h
  have hrest := log_taken duration_job one_lt_busy hoffer (freeIn_late h) k
  rw [log_add, hfirst, List.map_cons, ← hrest]
  simp only [← captured_eq_taken, List.singleton_append]

/-- The words once all the writes are made. -/
theorem words_late (h : bootCycles ≤ g + 1) {t : ℕ} (ht : g + 10 + span rest ≤ t) :
    words s (systemPort s ((g, w) :: rest)) t =
      (w :: thin Write.busy (w.busy - 4) rest).filterMap fun w => w.job.toPanel := by
  obtain ⟨k, rfl⟩ := Nat.exists_eq_add_of_le ht
  rw [show g + 10 + span rest + k = 4 + (g + 6 + (span rest + k)) by omega, words_eq,
    log_captured_late h, List.filterMap_map]
  rfl

end Late

/-! ## What becomes of the writes -/

section Results

variable {s : Signals} {g : ℕ} {w : Write} {rest : List (ℕ × Write)}

/-- The master gets through, and the writes that `thin` leaves are captured and shown. -/
structure Served (s : Signals) (g : ℕ) (w : Write) (rest : List (ℕ × Write)) : Prop where
  /-- All the writes are accepted. -/
  accepted : ∀ t, g + 4 + span rest ≤ t → (system s ((g, w) :: rest) t).2 = []
  /-- Two cycles later the last one is captured or lost … -/
  captured : ∀ t, g + 6 + span rest ≤ t → log (captured s (systemPort s ((g, w) :: rest))) t =
    (w :: thin Write.busy (w.busy - 4) rest).map Write.job
  /-- … and four more cycles later it is on the panel's bus. -/
  words : ∀ t, g + 10 + span rest ≤ t → words s (systemPort s ((g, w) :: rest)) t =
    (w :: thin Write.busy (w.busy - 4) rest).filterMap fun w => w.job.toPanel

/-- **If the first write comes after the LCD reset**, this is the whole run. -/
theorem served (s : Signals) (h : bootCycles ≤ g + 1) (w : Write) (rest : List (ℕ × Write)) :
    Served s g w rest := by
  refine ⟨fun t ht => ?_, fun t ht => ?_, fun t ht => words_late h ht⟩
  · obtain ⟨k, rfl⟩ := Nat.exists_eq_add_of_le ht
    rw [Nat.add_assoc (g + 4), system_late h, unhindered_span]
  · obtain ⟨k, rfl⟩ := Nat.exists_eq_add_of_le ht
    rw [Nat.add_assoc (g + 6)]
    exact log_captured_late h k

/-- A word, a second one in the third cycle after it was accepted, and a third one ten cycles
later. -/
def threeWords : List (ℕ × Write) :=
  [(500000001, ⟨regWriteDataAddr, 0x1111#16, 0b11#2⟩), (2, ⟨regWriteDataAddr, 0x2222#16, 0b11#2⟩),
    (9, ⟨regWriteDataAddr, 0x3333#16, 0b11#2⟩)]

/-- **The second word is lost**, and the third one is not. -/
theorem threeWords_served : words fresh (systemPort fresh threeWords) 500000024 =
    [(0x1111#16, true), (0x3333#16, true)] := by
  have h := served fresh (g := 500000001) (by unfold bootCycles; omega)
    ⟨regWriteDataAddr, 0x1111#16, 0b11#2⟩ [(2, ⟨regWriteDataAddr, 0x2222#16, 0b11#2⟩),
      (9, ⟨regWriteDataAddr, 0x3333#16, 0b11#2⟩)]
  refine (h.words 500000024 (by decide)).trans ?_
  decide

/-- **The master hangs iff the first write comes in the LCD reset**, two or more cycles before its
end. In cycle `0` the driver is still in `StateReset`, where `WaitReq_SO` is `'0'`: a write there is
accepted, and lost. -/
theorem hangs_iff (s : Signals) (g : ℕ) (w : Write) (rest : List (ℕ × Write)) :
    Hangs s g w rest ↔ 0 < g ∧ g + 1 < bootCycles := by
  refine ⟨fun h => ⟨Nat.pos_of_ne_zero ?_, ?_⟩, fun h => hangs_of_early h.1 h.2⟩
  · rintro rfl
    have hstuck := h.stuck 1
    have hrest : rest = (0, w) :: rest := (system_accepted_zero (s := s)).symm.trans hstuck
    exact absurd (congrArg List.length hrest) (by simp)
  · by_contra hlate
    have hdone : (system s ((g, w) :: rest) (g + 4 + span rest)).2 = _ :=
      system_late (Nat.le_of_not_lt hlate) (span rest)
    rw [Nat.add_assoc, h.stuck, ← Nat.add_zero (span rest), unhindered_span] at hdone
    cases hdone

/-- `usleep(500E3)` at 50 MHz is not enough. -/
theorem half_second_hangs : Hangs fresh 25000000 ⟨regWriteCmdAddr, 0x0028#16, 0b11#2⟩ [] :=
  (hangs_iff fresh 25000000 _ []).mpr (by unfold bootCycles; omega)

/-- **The panel is shown every write iff** each comes after a rest, and when the driver is through
with the one before it. -/
theorem shown_iff (s : Signals) (h : bootCycles ≤ g + 1)
    (htx : ∀ x ∈ (g, w) :: rest, IsTx x.2.address) {t : ℕ} (ht : g + 10 + span rest ≤ t) :
    words s (systemPort s ((g, w) :: rest)) t =
      ((g, w) :: rest).map (fun x => x.2.job.word) ↔ Spaced Write.busy 6 rest := by
  have hbusy : w.busy - 4 = 6 := by
    have hw := htx (g, w) List.mem_cons_self
    rw [Write.busy, if_pos hw]
  have hsub := thin_sublist Write.busy 6 rest
  have hwords : ∀ l : List Write, (∀ x ∈ l, IsTx x.address) →
      l.filterMap (fun w => w.job.toPanel) = l.map fun w => w.job.word := by
    intro l hl
    rw [← List.filterMap_eq_map]
    exact List.filterMap_congr fun x hx => if_pos (hl x hx)
  have hall : ∀ x ∈ w :: thin Write.busy 6 rest, IsTx x.address := by
    intro x hx
    rcases List.mem_cons.mp hx with rfl | hx
    · exact htx (g, x) List.mem_cons_self
    · obtain ⟨y, hy, rfl⟩ := List.mem_map.mp (hsub.subset hx)
      exact htx y (List.mem_cons_of_mem _ hy)
  rw [words_late h ht, hbusy, hwords _ hall, ← thin_eq_iff]
  constructor
  · intro he
    have hlen := congrArg List.length he
    simp only [List.map_cons, List.length_cons, List.length_map] at hlen
    exact hsub.eq_of_length (by rw [List.length_map]; omega)
  · intro he
    rw [he, List.map_cons, List.map_cons, List.map_map]
    rfl

theorem threeWords_not_shown : words fresh (systemPort fresh threeWords) 500000024 ≠
    threeWords.map fun x => x.2.job.word := by
  intro h
  have hs := (shown_iff fresh (by unfold bootCycles; omega) (by decide) (by decide)).mp h
  exact absurd hs.1.2 (by decide)

end Results

end LcdInterface.LcdDriver

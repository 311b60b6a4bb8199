import Mathlib.Data.BitVec
import Mathlib.Data.Nat.Basic

/-!
# The address map (`systemFile_mm_interconnect_0_router….sv`)

The requests of the three masters are packets. The router behind a master compares the upper bits of
the address with the start of each slave and sets the channel, a later match after an earlier one;
the demultiplexer then sends the packet to every output whose bit is set in the channel.

* `follows_map`: each packet goes to one slave, the one of `systemFile.qsys` that the lower 26 bits
  of the address belong to. If there is none the packet goes to the SDRAM.
* `one_map`: a master reaches what the data master of the CPU reaches at the address, or the SDRAM
  if it is not connected to that.
* `destId_iff`: the destination ids tell the slaves apart.
* `dma_reached`: what that means for the DMA.
-/

namespace LcdInterface.AddressMap

/-! ## The routers -/

/-- `log2ceil`; `i` has 66 bits. -/
def log2ceil (val : ℕ) : ℕ := loop 66 1 0
where
  loop : ℕ → ℕ → ℕ → ℕ
    | 0, _, l => l
    | n + 1, i, l => if i < val then loop n (i <<< 1) (l + 1) else l

/-- `( start .. stop )`, and what is set if the address is in there. -/
structure Span where
  start : ℕ
  stop : ℕ
  channel : BitVec 11
  destId : BitVec 4
  /-- `&& read_transaction`. -/
  readOnly : Bool := false
  deriving DecidableEq, Repr

structure Router where
  addrRange : ℕ
  defaultChannel : ℕ
  defaultDestId : BitVec 4
  spans : List Span

/-- `PAD…`. -/
def Span.pad (s : Span) : ℕ := log2ceil (s.stop - s.start)

/-- `RANGE_ADDR_WIDTH`. -/
def Router.width (r : Router) : ℕ := log2ceil r.addrRange

/-- `{address[RG:PAD], {PAD{1'b0}}} == start`. -/
def Span.hit (s : Span) (width : ℕ) (address : BitVec 32) (read : Bool) : Bool :=
  (address.toNat % 2 ^ width) >>> s.pad <<< s.pad == s.start && (!s.readOnly || read)

/-- `src_channel` and the destination id in `src_data`. -/
structure Route where
  channel : BitVec 11
  destId : BitVec 4
  deriving DecidableEq, Repr

def Span.route (s : Span) : Route := ⟨s.channel, s.destId⟩

def Router.default (r : Router) : Route := ⟨1#11 <<< r.defaultChannel, r.defaultDestId⟩

def Router.route (r : Router) (address : BitVec 32) (read : Bool) : Route :=
  r.spans.foldl (fun p s => if s.hit r.width address read then s.route else p) r.default

/-- `systemFile_mm_interconnect_0_router`. -/
def router : Router :=
  { addrRange := 0x2040000, defaultChannel := 1, defaultDestId := 3#4
    spans :=
      [{ start := 0x1000000, stop := 0x2000000, channel := 0b10#11, destId := 3#4 },
        { start := 0x2020000, stop := 0x2040000, channel := 0b01#11, destId := 2#4 }] }

/-- `systemFile_mm_interconnect_0_router_001`. -/
def router001 : Router :=
  { addrRange := 0x20430d8, defaultChannel := 1, defaultDestId := 3#4
    spans :=
      [{ start := 0x1000000, stop := 0x2000000, channel := 0b00000000010#11, destId := 3#4 },
        { start := 0x2000000, stop := 0x2020000, channel := 0b00000001000#11, destId := 1#4 },
        { start := 0x2020000, stop := 0x2040000, channel := 0b00000000001#11, destId := 2#4 },
        { start := 0x2040000, stop := 0x2041000, channel := 0b10000000000#11, destId := 4#4 },
        { start := 0x2042800, stop := 0x2043000, channel := 0b00001000000#11, destId := 0#4 },
        { start := 0x2043000, stop := 0x2043080, channel := 0b00000100000#11, destId := 8#4 },
        { start := 0x2043080, stop := 0x20430a0, channel := 0b01000000000#11, destId := 10#4 },
        { start := 0x20430a0, stop := 0x20430b0, channel := 0b00100000000#11, destId := 6#4 },
        { start := 0x20430b0, stop := 0x20430c0, channel := 0b00010000000#11, destId := 5#4 },
        { start := 0x20430c8, stop := 0x20430d0, channel := 0b00000010000#11, destId := 9#4,
          readOnly := true },
        { start := 0x20430d0, stop := 0x20430d8, channel := 0b00000000100#11, destId := 7#4 }] }

/-- `systemFile_mm_interconnect_0_router_002`. -/
def router002 : Router :=
  { addrRange := 0x20430d8, defaultChannel := 0, defaultDestId := 3#4
    spans :=
      [{ start := 0x1000000, stop := 0x2000000, channel := 0b001#11, destId := 3#4 },
        { start := 0x2042800, stop := 0x2043000, channel := 0b100#11, destId := 0#4 },
        { start := 0x20430d0, stop := 0x20430d8, channel := 0b010#11, destId := 7#4 }] }

/-! ## What they lead to -/

inductive Master where
  | dmaAvalonMaster
  | cpuDataMaster
  | cpuInstructionMaster
  deriving DecidableEq, Repr

inductive Slave where
  | lcdAvalonSlave
  | sdramCtrlS1
  | jtagUartAvalonJtagSlave
  | dmaAvalonSlave
  | sysidControlSlave
  | performanceCounter0ControlSlave
  | cpuDebugMemSlave
  | altpll0PllSlave
  | altpllSignalTapPllSlave
  | timer0S1
  | tcimS2
  deriving DecidableEq, Repr

def Master.router : Master → Router
  | .dmaAvalonMaster => AddressMap.router
  | .cpuDataMaster => router001
  | .cpuInstructionMaster => router002

/-- What the outputs of `cmd_demux`, `cmd_demux_001` and `cmd_demux_002` lead to. -/
def Master.demux : Master → List Slave
  | .dmaAvalonMaster => [.lcdAvalonSlave, .sdramCtrlS1]
  | .cpuDataMaster =>
    [.lcdAvalonSlave, .sdramCtrlS1, .jtagUartAvalonJtagSlave, .dmaAvalonSlave, .sysidControlSlave,
      .performanceCounter0ControlSlave, .cpuDebugMemSlave, .altpll0PllSlave,
      .altpllSignalTapPllSlave, .timer0S1, .tcimS2]
  | .cpuInstructionMaster => [.sdramCtrlS1, .jtagUartAvalonJtagSlave, .cpuDebugMemSlave]

/-- The outputs on which a packet is valid. -/
def Master.outputs (m : Master) (channel : BitVec 11) : List Slave :=
  (m.demux.zipIdx.filter fun p => channel.getLsbD p.2).map Prod.fst

/-- The slaves that a packet of `m` goes to. -/
def Master.reached (m : Master) (address : BitVec 32) (read : Bool) : List Slave :=
  m.outputs (m.router.route address read).channel

/-! ## The map -/

/-- The addresses of a slave in `systemFile.qsys`. -/
def Slave.addresses : Slave → ℕ × ℕ
  | .sdramCtrlS1 => (0x1000000, 0x2000000)
  | .dmaAvalonSlave => (0x2000000, 0x2020000)
  | .lcdAvalonSlave => (0x2020000, 0x2040000)
  | .tcimS2 => (0x2040000, 0x2041000)
  | .cpuDebugMemSlave => (0x2042800, 0x2043000)
  | .performanceCounter0ControlSlave => (0x2043000, 0x2043080)
  | .timer0S1 => (0x2043080, 0x20430a0)
  | .altpllSignalTapPllSlave => (0x20430a0, 0x20430b0)
  | .altpll0PllSlave => (0x20430b0, 0x20430c0)
  | .sysidControlSlave => (0x20430c8, 0x20430d0)
  | .jtagUartAvalonJtagSlave => (0x20430d0, 0x20430d8)

/-- The address belongs to `s`, which only can be read if it is the system id. -/
structure Slave.Owns (s : Slave) (address : BitVec 32) (read : Bool) : Prop where
  lower : s.addresses.1 ≤ address.toNat % 2 ^ 26
  upper : address.toNat % 2 ^ 26 < s.addresses.2
  read : s = .sysidControlSlave → read = true

/-- The destination id of the packets to `s`. -/
def Slave.id : Slave → BitVec 4
  | .cpuDebugMemSlave => 0#4
  | .dmaAvalonSlave => 1#4
  | .lcdAvalonSlave => 2#4
  | .sdramCtrlS1 => 3#4
  | .tcimS2 => 4#4
  | .altpll0PllSlave => 5#4
  | .altpllSignalTapPllSlave => 6#4
  | .jtagUartAvalonJtagSlave => 7#4
  | .performanceCounter0ControlSlave => 8#4
  | .sysidControlSlave => 9#4
  | .timer0S1 => 10#4

/-- The span is the one of `s`. -/
def Span.IsOf (p : Span) (m : Master) (s : Slave) : Prop :=
  (p.start, p.stop) = s.addresses ∧ p.readOnly = decide (s = .sysidControlSlave) ∧
    m.outputs p.channel = [s] ∧ p.destId = s.id

instance (p : Span) (m : Master) (s : Slave) : Decidable (p.IsOf m s) :=
  inferInstanceAs (Decidable (_ ∧ _))

/-- The spans of a master are those of the slaves it is connected to … -/
theorem exists_slave (m : Master) : ∀ p ∈ m.router.spans, ∃ s ∈ m.demux, p.IsOf m s := by
  cases m <;> decide

theorem exists_span (m : Master) : ∀ s ∈ m.demux, ∃ p ∈ m.router.spans, p.IsOf m s := by
  cases m <;> decide

/-- … their lengths are powers of two, and they start at multiples of them … -/
theorem aligned (m : Master) : ∀ p ∈ m.router.spans,
    p.stop = p.start + 2 ^ p.pad ∧ 2 ^ p.pad ∣ p.start := by
  cases m <;> decide

/-- … and no two slaves have an address in common. -/
theorem disjoint : ∀ s ∈ Master.cpuDataMaster.demux, ∀ s' ∈ Master.cpuDataMaster.demux, s ≠ s' →
    s.addresses.2 ≤ s'.addresses.1 ∨ s'.addresses.2 ≤ s.addresses.1 := by decide

theorem connected (s : Slave) : s ∈ Master.cpuDataMaster.demux := by cases s <;> decide

theorem route_eq (m : Master) : ∀ p ∈ m.router.spans, ∀ q ∈ m.router.spans,
    p.start = q.start → p.route = q.route := by
  cases m <;> decide

theorem width_eq (m : Master) : m.router.width = 26 := by cases m <;> decide

theorem default_eq (m : Master) : m.outputs m.router.default.channel = [.sdramCtrlS1] ∧
    m.router.default.destId = Slave.sdramCtrlS1.id := by
  cases m <;> decide

variable {m : Master} {s s' : Slave} {address : BitVec 32} {read : Bool}

theorem Slave.Owns.unique (h : s.Owns address read) (h' : s'.Owns address read) : s = s' := by
  by_contra hne
  have hlower := h.lower
  have hupper := h.upper
  have hlower' := h'.lower
  have hupper' := h'.upper
  rcases disjoint s (connected s) s' (connected s') hne with hle | hle <;> omega

/-- A block of `2 ^ k` addresses. -/
theorem shift_eq_iff {n k start : ℕ} (h : 2 ^ k ∣ start) :
    n >>> k <<< k = start ↔ start ≤ n ∧ n < start + 2 ^ k := by
  obtain ⟨q, rfl⟩ := h
  have hpos : 0 < 2 ^ k := Nat.two_pow_pos k
  rw [Nat.shiftRight_eq_div_pow, Nat.shiftLeft_eq, Nat.mul_comm, Nat.mul_right_inj hpos.ne']
  constructor
  · rintro rfl
    exact ⟨Nat.mul_div_le n _, Nat.lt_mul_div_succ n hpos⟩
  · rintro ⟨hle, hlt⟩
    exact Nat.div_eq_of_lt_le (by rwa [Nat.mul_comm]) (by rwa [Nat.mul_comm, Nat.mul_succ])

/-- **A span matches the addresses of its slave.** -/
theorem hit_iff {p : Span} (hp : p ∈ m.router.spans) (h : p.IsOf m s) :
    p.hit m.router.width address read = true ↔ s.Owns address read := by
  obtain ⟨hstop, hdvd⟩ := aligned m p hp
  obtain ⟨haddr, honly, -, -⟩ := h
  obtain ⟨hlow, hhigh⟩ := Prod.mk.inj haddr
  unfold Span.hit
  rw [width_eq, Bool.and_eq_true, beq_iff_eq, shift_eq_iff hdvd, ← hstop, hlow, hhigh, honly]
  constructor
  · rintro ⟨⟨hle, hlt⟩, hread⟩
    refine ⟨hle, hlt, ?_⟩
    rintro rfl
    simpa using hread
  · intro h
    refine ⟨⟨h.lower, h.upper⟩, ?_⟩
    by_cases hs : s = .sysidControlSlave
    · rw [h.read hs, Bool.or_true]
    · rw [decide_eq_false hs]
      rfl

/-! ### A fold that keeps the last match -/

section Fold

variable {α β : Type*} {l : List α} {p : α → Bool} {f : α → β} {x : α}

theorem foldl_eq_self (h : ∀ y ∈ l, p y = false) (b : β) :
    l.foldl (fun b y => if p y then f y else b) b = b := by
  induction l with
  | nil => rfl
  | cons y l ih =>
    rw [List.foldl_cons, h y List.mem_cons_self]
    exact ih fun z hz => h z (List.mem_cons_of_mem y hz)

/-- If all the matches agree it is any of them. -/
theorem foldl_eq_of_mem (hx : x ∈ l) (hp : p x = true) (h : ∀ y ∈ l, p y = true → f y = f x)
    (b : β) : l.foldl (fun b y => if p y then f y else b) b = f x := by
  induction l using List.reverseRecOn with
  | nil => cases hx
  | append_singleton l y ih =>
    rw [List.foldl_concat]
    cases hy : p y with
    | true =>
      rw [if_pos rfl]
      exact h y (by simp) hy
    | false =>
      rw [if_neg Bool.false_ne_true]
      refine ih ?_ fun z hz => h z (List.mem_append_left [y] hz)
      rcases List.mem_append.mp hx with hmem | hmem
      · exact hmem
      · rw [List.mem_singleton.mp hmem, hy] at hp
        cases hp

end Fold

/-! ### One slave for each packet -/

/-- The packet goes to `s`, and is marked so. -/
def Master.Sends (m : Master) (address : BitVec 32) (read : Bool) (s : Slave) : Prop :=
  m.reached address read = [s] ∧ (m.router.route address read).destId = s.id

theorem sends_of_owns (hs : s ∈ m.demux) (h : s.Owns address read) :
    m.Sends address read s := by
  obtain ⟨p, hp, hof⟩ := exists_span m s hs
  have hroute : m.router.route address read = p.route := by
    refine foldl_eq_of_mem hp ((hit_iff hp hof).mpr h) (fun q hq hhit => ?_) _
    obtain ⟨s', -, hof'⟩ := exists_slave m q hq
    obtain rfl := ((hit_iff hq hof').mp hhit).unique h
    have haddr : (q.start, q.stop) = (p.start, p.stop) := hof'.1.trans hof.1.symm
    exact route_eq m q hq p hp (Prod.mk.inj haddr).1
  unfold Master.Sends Master.reached
  rw [hroute]
  exact hof.2.2

theorem sends_of_not_owns (h : ∀ s ∈ m.demux, ¬ s.Owns address read) :
    m.Sends address read .sdramCtrlS1 := by
  have hroute : m.router.route address read = m.router.default := by
    refine foldl_eq_self (fun p hp => ?_) _
    obtain ⟨s, hs, hof⟩ := exists_slave m p hp
    rw [← Bool.not_eq_true, hit_iff hp hof]
    exact h s hs
  unfold Master.Sends Master.reached
  rw [hroute]
  exact default_eq m

/-- Where the packets of `m` to an address go. -/
structure FollowsMap (m : Master) (address : BitVec 32) (read : Bool) : Prop where
  /-- To the slave that the address belongs to, … -/
  mapped : ∀ s ∈ m.demux, s.Owns address read → m.reached address read = [s]
  /-- … or to the SDRAM. -/
  other : (∀ s ∈ m.demux, ¬ s.Owns address read) → m.reached address read = [.sdramCtrlS1]

/-- **The routers follow the map**, for every address. -/
theorem follows_map (m : Master) (address : BitVec 32) (read : Bool) :
    FollowsMap m address read :=
  ⟨fun _ hs h => (sends_of_owns hs h).1, fun h => (sends_of_not_owns h).1⟩

theorem exists_sends (m : Master) (address : BitVec 32) (read : Bool) :
    ∃ s, m.Sends address read s := by
  by_cases h : ∃ s ∈ m.demux, s.Owns address read
  · obtain ⟨s, hs, ho⟩ := h
    exact ⟨s, sends_of_owns hs ho⟩
  · exact ⟨.sdramCtrlS1, sends_of_not_owns fun s hs ho => h ⟨s, hs, ho⟩⟩

/-- **All masters have one map**: each reaches what the CPU reaches, if it is connected to it. -/
theorem one_map (m : Master) (address : BitVec 32) (read : Bool) :
    ∃ s, Master.cpuDataMaster.reached address read = [s] ∧
      m.reached address read = [if s ∈ m.demux then s else .sdramCtrlS1] := by
  by_cases h : ∃ s : Slave, s.Owns address read
  · obtain ⟨s, ho⟩ := h
    refine ⟨s, (sends_of_owns (connected s) ho).1, ?_⟩
    by_cases hs : s ∈ m.demux
    · rw [if_pos hs]
      exact (sends_of_owns hs ho).1
    · rw [if_neg hs]
      refine (sends_of_not_owns fun s' hs' ho' => ?_).1
      rw [ho'.unique ho] at hs'
      exact hs hs'
  · have hnone : ∀ s : Slave, ¬ s.Owns address read := fun s ho => h ⟨s, ho⟩
    refine ⟨.sdramCtrlS1, (sends_of_not_owns fun s _ => hnone s).1, ?_⟩
    rw [if_pos (by cases m <;> decide)]
    exact (sends_of_not_owns fun s _ => hnone s).1

theorem Slave.id_inj : ∀ s ∈ Master.cpuDataMaster.demux, ∀ s' ∈ Master.cpuDataMaster.demux,
    s.id = s'.id → s = s' := by decide

/-- **Two packets have the same destination id iff they go to the same slave.** -/
theorem destId_iff {m' : Master} {address' : BitVec 32} {read' : Bool} :
    (m.router.route address read).destId = (m'.router.route address' read').destId ↔
      m.reached address read = m'.reached address' read' := by
  obtain ⟨s, hs, hid⟩ := exists_sends m address read
  obtain ⟨s', hs', hid'⟩ := exists_sends m' address' read'
  rw [hs, hs', hid, hid', List.singleton_inj]
  constructor
  · exact Slave.id_inj s (connected s) s' (connected s')
  · rintro rfl
    rfl

/-- **The DMA reaches the LCD and the SDRAM**, the latter even at the addresses of its registers. -/
theorem dma_reached (address : BitVec 32) (read : Bool) :
    Master.dmaAvalonMaster.reached address read =
      [if 0x2020000 ≤ address.toNat % 2 ^ 26 ∧ address.toNat % 2 ^ 26 < 0x2040000 then
        .lcdAvalonSlave else .sdramCtrlS1] := by
  split
  · rename_i h
    have ho : Slave.lcdAvalonSlave.Owns address read := ⟨h.1, h.2, fun hs => by cases hs⟩
    exact (sends_of_owns (by decide) ho).1
  · rename_i h
    by_cases hs : Slave.sdramCtrlS1.Owns address read
    · exact (sends_of_owns (by decide) hs).1
    · refine (sends_of_not_owns fun s hs' ho => ?_).1
      rcases List.mem_pair.mp hs' with rfl | rfl
      · exact h ⟨ho.lower, ho.upper⟩
      · exact hs ho

/-- `av_address` of `sdram_ctrl_s1_translator`: the word in the SDRAM. -/
def sdramWord (address : BitVec 32) : BitVec 23 := address.extractLsb' 1 23

end LcdInterface.AddressMap

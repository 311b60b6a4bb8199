import LcdInterface.LcdDriver.Bus

/-!
# The software's panel calls (`main.c`)

`LCD_Write_Command` and `LCD_Write_Data` store a halfword at byte offset `0x0004` and `0x0000` from
`LCD_BASE`; the slave port is word addressed (`addressUnits WORDS`, 16 bits), so the stores arrive
at word addresses `0x0002` and `0x0000`. These are `RegWriteDataAddr` and `RegDataAddr`: the offsets
of `main.c` are the driver's word addresses less two, not twice them, as its `DMA_REG_*` offsets are
of the DMA's.

* `words_of_calls`: the panel is shown every command as data, and no data.
* `calls_received_iff`: it receives the calls as they were made iff there were none.
-/

namespace LcdInterface.Software

open Clocked LcdDriver
open Slave (Inputs)

/-! ## The calls -/

def lcdBase : BitVec 32 := 0x2020000#32

def lcdRegWritedata : BitVec 32 := 0x0000#32

def lcdRegWritecmd : BitVec 32 := 0x0004#32

/-- A halfword store of the CPU. -/
structure Store where
  address : BitVec 32
  halfword : BitVec 16
  deriving DecidableEq, Repr

/-- `IOWR_16DIRECT`. -/
def iowr16Direct (base offset data : BitVec 32) : Store :=
  { address := base + offset, halfword := data.setWidth 16 }

def lcdWriteCommand (command : BitVec 32) : Store := iowr16Direct lcdBase lcdRegWritecmd command

def lcdWriteData (data : BitVec 32) : Store := iowr16Direct lcdBase lcdRegWritedata data

/-- A call of `LCD_Write_Command` or `LCD_Write_Data`. -/
inductive Call where
  | command (command : BitVec 32)
  | data (data : BitVec 32)
  deriving DecidableEq, Repr

def Call.store : Call → Store
  | .command c => lcdWriteCommand c
  | .data d => lcdWriteData d

/-- Byte offset over two. -/
def Store.wordAddress (st : Store) : BitVec 16 := ((st.address - lcdBase) / 2#32).setWidth 16

/-- The slave port while the interconnect carries the store: both byte enables, no burst. -/
def Store.port (st : Store) : Inputs := writePort st.wordAddress st.halfword

/-- What the panel is to receive for a call. -/
def Call.expected : Call → Word
  | .command c => (c.setWidth 16, false)
  | .data d => (d.setWidth 16, true)

/-- What it does receive. -/
def Call.shown : Call → Option Word
  | .command c => some (c.setWidth 16, true)
  | .data _ => none

theorem port_command (c : BitVec 32) :
    (Call.command c).store.port = writePort regWriteDataAddr (c.setWidth 16) := by
  have hw : (Call.command c).store.wordAddress = regWriteDataAddr := by
    show ((lcdBase + lcdRegWritecmd - lcdBase) / 2#32).setWidth 16 = _
    decide
  rw [Store.port, hw]
  rfl

theorem port_data (d : BitVec 32) :
    (Call.data d).store.port = writePort regDataAddr (d.setWidth 16) := by
  have hw : (Call.data d).store.wordAddress = regDataAddr := by
    show ((lcdBase + lcdRegWritedata - lcdBase) / 2#32).setWidth 16 = _
    decide
  rw [Store.port, hw]
  rfl

theorem toPanel_port (c : Call) : (inputJob c.store.port).toPanel = c.shown := by
  have hmask : ∀ d : BitVec 16, d &&& byteMask 0b11#2 = d := by
    intro d
    rw [show byteMask 0b11#2 = BitVec.allOnes 16 by decide, BitVec.and_allOnes]
  cases c with
  | command c =>
    have ha : IsTx regWriteDataAddr := Or.inl rfl
    rw [port_command, inputJob_single rfl]
    refine (if_pos ha).trans ?_
    show some (c.setWidth 16 &&& byteMask 0b11#2, true) = _
    rw [hmask]
    rfl
  | data d =>
    have ha : ¬ IsTx regDataAddr := by decide
    rw [port_data, inputJob_single rfl]
    exact if_neg ha

/-! ## A run of calls -/

variable {s : Signals} {i : ℕ → Inputs}

/-- The pulses of `Write_SI`, each with the port in its first cycle. -/
def pulse (i : ℕ → Inputs) (t : ℕ) : Option Inputs :=
  if rises (write i) t then some (i t) else none

/-- By cycle `t` the calls have been made, each while the driver was idle, and the last is done. -/
structure Issues (s : Signals) (i : ℕ → Inputs) (calls : List Call) (t : ℕ) : Prop where
  single : ∀ u, (i u).beginBurstTransferSi = false
  pulses : log (pulse i) t = calls.map fun c => c.store.port
  /-- Idle with no other write in the pipeline. -/
  whenIdle : ∀ u, u < t → rises (write i) u = true →
    (cycle s i u).statePresD = .stateIdle ∧ (cycle s i u).writeS = false ∧
      (cycle s i u).writeEdgeD = false
  quiet : Quiet s i t

/-- A pulse that finds the driver idle is captured. -/
theorem captured_pulse {t : ℕ}
    (h : rises (write i) t = true → (cycle s i t).statePresD = .stateIdle ∧
      (cycle s i t).writeS = false ∧ (cycle s i t).writeEdgeD = false) :
    captured s i (2 + t) = (pulse i t).map inputJob := by
  rw [Nat.add_comm]
  unfold pulse
  cases hr : rises (write i) t with
  | true =>
    obtain ⟨hidle, hs, he⟩ := h hr
    rw [capture_of_idle ((idle_iff t).mp hidle) hs he (rises_iff.mp hr).1]
    rfl
  | false => exact captured_of_not_rises hr

/-- **The panel is shown every command, as data, and no data.** -/
theorem words_of_calls {calls : List Call} {t : ℕ} (h : Issues s i calls t) :
    words s i t = calls.filterMap Call.shown := by
  have hlog : log (captured s i) t = (calls.map fun c => c.store.port).map inputJob := by
    rw [← log_captured_quiet h.quiet, Nat.add_comm, ← h.pulses, ← List.filterMap_eq_map,
      log_filterMap]
    refine log_shift (fun u hu => ?_) fun u hu => ?_
    · refine captured_boot ?_
      unfold bootCycles
      omega
    · rw [captured_pulse (h.whenIdle u hu)]
      cases pulse i u <;> rfl
  rw [words_idle h.quiet.idle, hlog, List.map_map, List.filterMap_map]
  congr 1
  funext c
  exact toPanel_port c

/-- The interconnect carries one call after the LCD reset. -/
def oneCall (c : Call) : ℕ → Inputs := heldWrite c.store.port []

theorem issues_command (c : BitVec 32) :
    Issues s (oneCall (.command c)) [.command c] (bootCycles + 13) := by
  have hport : oneCall (.command c) (bootCycles + 1) = (Call.command c).store.port :=
    heldWrite_add (by omega)
  have hrise : ∀ u, rises (write (oneCall (.command c))) u = true ↔ u = bootCycles + 1 :=
    rises_heldWrite rfl
  refine ⟨heldWrite_single rfl (by simp), ?_, ?_, ?_⟩
  · refine log_eq_singleton (u := bootCycles + 1) ?_ (fun v hv => ?_) (by omega)
    · unfold pulse
      rw [if_pos ((hrise _).mpr rfl), hport]
    · exact if_neg (mt (hrise v).mp hv)
  · intro u _ hr
    obtain rfl := (hrise u).mp hr
    exact ⟨(idle_iff _).mpr phaseAt_ready, empty_boot fun t ht => write_heldWrite_boot ht⟩
  · refine quiet_heldWrite rfl rfl ?_ (by simp)
    rw [port_command]
    exact Or.inl rfl

/-- **The panel receives the calls as they were made iff there were none.** -/
theorem calls_received_iff {calls : List Call} {t : ℕ} (h : Issues s i calls t) :
    words s i t = calls.map Call.expected ↔ calls = [] := by
  rw [words_of_calls h]
  cases calls with
  | nil => simp
  | cons c calls =>
    simp only [reduceCtorEq, iff_false, List.map_cons]
    cases c with
    | command c =>
      -- the first word has the wrong `DC_NSO`
      intro he
      simp [Call.shown, Call.expected] at he
    | data d =>
      -- one word is missing
      intro he
      have hlen := congrArg List.length he
      have hle := List.length_filterMap_le Call.shown calls
      have hd : (Call.data d).shown = none := rfl
      rw [List.filterMap_cons_none hd, List.length_cons, List.length_map] at hlen
      omega

/-- Display on: the panel takes the command for data. -/
theorem display_on_as_data :
    Issues fresh (oneCall (.command 0x0029#32)) [.command 0x0029#32] (bootCycles + 13) ∧
      words fresh (oneCall (.command 0x0029#32)) (bootCycles + 13) ≠
        [Call.command 0x0029#32].map Call.expected := by
  have h := issues_command (s := fresh) 0x0029#32
  refine ⟨h, ?_⟩
  rw [words_of_calls h]
  decide

/-- Memory write. -/
theorem memory_write_not_received :
    words fresh (oneCall (.command 0x002C#32)) (bootCycles + 13) ≠
      [Call.command 0x002C#32].map Call.expected := by
  intro he
  have hnil := (calls_received_iff (issues_command (s := fresh) 0x002C#32)).mp he
  simp at hnil

end LcdInterface.Software

import LcdInterface.AddressMap
import LcdInterface.LcdDriver.Interconnect
import LcdInterface.Software

/-!
# The program on the driver (`main.c`)

`main` sets the panel up (`init_LCD`) and then shows three pictures for ever. Its calls are made by
a CPU of unknown speed, so a run of the program is a list of its calls with any rests between them,
on the closed system of CPU and driver; `k` is the number of rounds made so far.

* `calls_shown`: the words the panel is shown for any calls at any pace.
* `pixel_call`: the pixels of a picture are written row by row.
* `main_run`: the panel is shown nothing but commands of the program, all of them as data, and at a
  slow pace all of them. The pictures make no difference.
* `main_one_word`: that was with single writes on the slave port. Behind the translator of the
  interconnect, which begins a burst with the first store, the panel is shown one word at most, if
  the first store does not come in the very cycle after the reset.
-/

namespace LcdInterface.Software

open Clocked Clocked.Requester LcdDriver
open AddressMap (Master connected sends_of_owns)
open Translator (Uav)

/-! ## The program -/

/-- `picture_width_…`, `picture_height_…` and `picture_array_…`. -/
structure Picture where
  width : ℕ
  height : ℕ
  array : ℕ → ℕ → BitVec 16

/-- `init_LCD`, less its `usleep`. -/
def initLcd : List Call :=
  [.command 0x0028#32, .command 0x0011#32, .data 0x0000#32,
    .command 0x00CB#32, .data 0x0039#32, .data 0x002C#32, .data 0x0000#32, .data 0x0034#32,
    .data 0x0002#32,
    .command 0x00CF#32, .data 0x0000#32, .data 0x0081#32, .data 0x0030#32,
    .command 0x00E8#32, .data 0x0085#32, .data 0x0001#32, .data 0x0079#32,
    .command 0x00EA#32, .data 0x0000#32, .data 0x0000#32, .data 0x0064#32, .data 0x0003#32,
    .data 0x0012#32, .data 0x0081#32,
    .command 0x00F7#32, .data 0x0020#32,
    .command 0x00C0#32, .data 0x0026#32, .data 0x0004#32,
    .command 0x00C1#32, .data 0x0011#32,
    .command 0x00C5#32, .data 0x0035#32, .data 0x003E#32,
    .command 0x00C7#32, .data 0x00BE#32,
    .command 0x00B1#32, .data 0x0000#32, .data 0x0010#32,
    .command 0x003A#32, .data 0x0055#32,
    .command 0x00B6#32, .data 0x000A#32, .data 0x00A2#32,
    .command 0x00F2#32, .data 0x0002#32,
    .command 0x0026#32, .data 0x0001#32,
    .command 0x0036#32, .data 0x0000#32,
    .command 0x002A#32, .data 0x0000#32, .data 0x0000#32, .data 0x0000#32, .data 0x00EF#32,
    .command 0x002B#32, .data 0x0000#32, .data 0x0000#32, .data 0x0001#32, .data 0x003F#32,
    .command 0x0029#32]

/-- The inner loop. -/
def Picture.row (p : Picture) (i : ℕ) : List Call :=
  (List.range p.width).map fun j => .data ((p.array i j).setWidth 32)

/-- The outer loop. -/
def Picture.pixels (p : Picture) : List Call := (List.range p.height).flatMap p.row

/-- Memory write, and the pixels. -/
def Picture.draw (p : Picture) : List Call := .command 0x002C#32 :: p.pixels

/-- The body of `while (true)`. -/
def animation (p₁ p₂ p₃ : Picture) : List Call := p₁.draw ++ p₂.draw ++ p₃.draw

/-- `main`, with the loop run `k` times. -/
def mainCalls (p₁ p₂ p₃ : Picture) (k : ℕ) : List Call :=
  initLcd ++ (List.replicate k (animation p₁ p₂ p₃)).flatten

/-! ### Rows and columns -/

theorem length_row (p : Picture) (i : ℕ) : (p.row i).length = p.width := by
  rw [Picture.row, List.length_map, List.length_range]

theorem length_rows (p : Picture) (n : ℕ) :
    ((List.range n).flatMap p.row).length = n * p.width := by
  induction n with
  | zero => simp
  | succ n ih =>
    rw [List.range_succ, List.flatMap_append, List.length_append, ih, List.flatMap_singleton,
      length_row, Nat.succ_mul]

/-- **Pixel `(i, j)` is call `1 + i * width + j` of its picture**, and there are no other calls. -/
theorem pixel_call (p : Picture) : p.draw.length = 1 + p.height * p.width ∧
    ∀ i j, i < p.height → j < p.width →
      p.draw[1 + (i * p.width + j)]? = some (.data ((p.array i j).setWidth 32)) := by
  refine ⟨by rw [Picture.draw, List.length_cons, Picture.pixels, length_rows, Nat.add_comm], ?_⟩
  intro i j hi hj
  rw [Picture.draw, Nat.add_comm 1, List.getElem?_cons_succ, Picture.pixels]
  -- induction on the number of rows
  generalize p.height = n at hi
  induction n with
  | zero => omega
  | succ n ih =>
    rw [List.range_succ, List.flatMap_append, List.flatMap_singleton]
    rcases Nat.lt_succ_iff_lt_or_eq.mp hi with hlt | rfl
    · have hle : (i + 1) * p.width ≤ n * p.width := Nat.mul_le_mul_right _ hlt
      rw [Nat.succ_mul] at hle
      rw [List.getElem?_append_left, ih hlt]
      rw [length_rows]
      omega
    · rw [List.getElem?_append_right, length_rows, Nat.add_sub_cancel_left, Picture.row,
        List.getElem?_map, List.getElem?_range hj]
      · rfl
      · rw [length_rows]
        exact Nat.le_add_right _ _

/-! ## Calls at any pace -/

/-- The write a call makes on the slave port. -/
def Call.write (c : Call) : Write := ⟨c.store.wordAddress, c.store.halfword, 0b11#2⟩

/-- Cycles the driver takes for a call. -/
def Call.busy (c : Call) : ℕ := c.write.busy

/-- The writes of a list of calls. -/
def writes (l : List (ℕ × Call)) : List (ℕ × Write) := l.map (Prod.map id Call.write)

theorem write_toPanel (c : Call) : c.write.job.toPanel = c.shown := toPanel_port c

theorem busy_le (c : Call) : c.busy ≤ 10 := by
  unfold Call.busy Write.busy
  split_ifs
  · exact Nat.le_refl 10
  · omega

variable {s : Signals} {g : ℕ} {c : Call} {rest : List (ℕ × Call)}

/-- The calls that reach the driver when it is idle. -/
def heard (c : Call) (rest : List (ℕ × Call)) : List Call := c :: thin Call.busy (c.busy - 4) rest

/-- **What the panel is shown** once all the calls are made. -/
theorem calls_shown (h : bootCycles ≤ g + 1) {t : ℕ} (ht : g + 10 + span rest ≤ t) :
    words s (systemPort s (writes ((g, c) :: rest))) t = (heard c rest).filterMap Call.shown := by
  have hspan : span (writes rest) = span rest := span_map _ rest
  have hs : words s (systemPort s ((g, c.write) :: writes rest)) t = _ := words_late h (by omega)
  refine hs.trans ?_
  unfold writes heard
  rw [thin_map, ← List.map_cons, List.filterMap_map]
  exact List.filterMap_congr fun x _ => write_toPanel x

/-- At a slow pace every call is heard. -/
theorem heard_of_slow (h : ∀ x ∈ rest, 9 ≤ x.1) :
    heard c rest = ((g, c) :: rest).map Prod.snd := by
  have hc := busy_le c
  unfold heard
  rw [(thin_eq_iff _ _ rest).mpr (spaced_of_le (m := 9) (by omega) busy_le (by omega) h)]
  rfl

/-- **At any time and any pace**, what has been shown is some of what the calls stand for. -/
theorem shown_sublist (l : List (ℕ × Call)) (t : ℕ) :
    (words s (systemPort s (writes l)) t).Sublist ((l.map Prod.snd).filterMap Call.shown) := by
  have h := words_sublist (s := s) (l := writes l) t
  unfold writes at h ⊢
  rw [List.filterMap_map] at h
  have hshown : (l.map Prod.snd).filterMap Call.shown =
      l.filterMap fun x => x.2.write.job.toPanel := by
    rw [List.filterMap_map]
    exact List.filterMap_congr fun x _ => (write_toPanel x.2).symm
  rw [hshown]
  exact h

/-! ## The program's run -/

def Call.command? : Call → Option (BitVec 32)
  | .command c => some c
  | .data _ => none

/-- A command, as the panel is shown it. -/
def asData (c : BitVec 32) : Word := (c.setWidth 16, true)

theorem shown_eq (c : Call) : c.shown = c.command?.map asData := by
  cases c <;> rfl

/-- The commands of `main`. -/
def mainCommands (k : ℕ) : List (BitVec 32) :=
  initLcd.filterMap Call.command? ++ List.replicate (3 * k) 0x002C#32

theorem commands_draw (p : Picture) : p.draw.filterMap Call.command? = [0x002C#32] := by
  have hpixels : p.pixels.filterMap Call.command? = [] := by
    rw [List.filterMap_eq_nil_iff]
    intro c hc
    obtain ⟨i, -, hrow⟩ := List.mem_flatMap.mp hc
    obtain ⟨j, -, rfl⟩ := List.mem_map.mp hrow
    rfl
  rw [Picture.draw, List.filterMap_cons_some (f := Call.command?) rfl, hpixels]

theorem commands_main (p₁ p₂ p₃ : Picture) (k : ℕ) :
    (mainCalls p₁ p₂ p₃ k).filterMap Call.command? = mainCommands k := by
  unfold mainCalls mainCommands
  rw [List.filterMap_append]
  congr 1
  induction k with
  | zero => rfl
  | succ k ih =>
    rw [List.replicate_succ, List.flatten_cons, List.filterMap_append, ih, animation,
      List.filterMap_append, List.filterMap_append, commands_draw, commands_draw, commands_draw,
      show 3 * (k + 1) = 3 + 3 * k by omega, List.replicate_add]
    rfl

theorem shown_main (p₁ p₂ p₃ : Picture) (k : ℕ) :
    (mainCalls p₁ p₂ p₃ k).filterMap Call.shown = (mainCommands k).map asData := by
  rw [← commands_main p₁ p₂ p₃, ← List.filterMap_eq_map, List.filterMap_filterMap]
  refine List.filterMap_congr fun c _ => ?_
  rw [shown_eq]
  cases c <;> rfl

/-- What a run of the program shows, whose calls are `c` after a rest of `g` cycles and then
`rest`. -/
structure MainRun (s : Signals) (g : ℕ) (c : Call) (rest : List (ℕ × Call)) (k : ℕ) : Prop where
  /-- At any time the panel has been shown some of the commands, as data. -/
  sublist : ∀ t, (words s (systemPort s (writes ((g, c) :: rest))) t).Sublist
    ((mainCommands k).map asData)
  /-- At a slow pace, from after the LCD reset on, it is all of them in the end. -/
  all : bootCycles ≤ g + 1 → (∀ x ∈ rest, 9 ≤ x.1) → ∀ t, g + 10 + span rest ≤ t →
    words s (systemPort s (writes ((g, c) :: rest))) t = (mainCommands k).map asData

/-- **Whatever the pictures**, the panel is shown the commands as data and no pixel. -/
theorem main_run (s : Signals) {p₁ p₂ p₃ : Picture} {k : ℕ}
    (hcalls : ((g, c) :: rest).map Prod.snd = mainCalls p₁ p₂ p₃ k) : MainRun s g c rest k := by
  refine ⟨fun t => ?_, fun hlate hslow t ht => ?_⟩
  · have h := shown_sublist (s := s) ((g, c) :: rest) t
    rwa [hcalls, shown_main] at h
  · rw [calls_shown hlate ht, heard_of_slow (g := g) hslow, hcalls, shown_main]

/-- Three white pictures, drawn once. -/
def whiteRest : List (ℕ × Call) :=
  let white : Picture := ⟨240, 320, fun _ _ => 0xFFFF#16⟩
  (mainCalls white white white 1).tail.map fun c => (9, c)

/-- Ten seconds after the reset, with nine cycles between the calls. -/
theorem white_shown : words fresh
    (systemPort fresh (writes ((500000001, .command 0x0028#32) :: whiteRest)))
    (500000001 + 10 + span whiteRest) = (mainCommands 1).map asData := by
  let white : Picture := ⟨240, 320, fun _ _ => 0xFFFF#16⟩
  have hcalls : ((500000001, Call.command 0x0028#32) :: whiteRest).map Prod.snd =
      mainCalls white white white 1 := by
    unfold whiteRest
    rw [List.map_cons, List.map_map]
    exact congrArg _ (List.map_id _)
  refine (main_run fresh hcalls).all (by unfold bootCycles; omega) ?_ _ (Nat.le_refl _)
  intro x hx
  obtain ⟨c, -, rfl⟩ := List.mem_map.mp hx
  exact Nat.le_refl 9

/-! ## On the interconnect -/

/-- The translator halves a byte address of `LCD` as the slave port's word address has it. -/
theorem wordAddress_eq (st : Store) : st.wordAddress = st.address.extractLsb' 1 16 := by
  unfold Store.wordAddress
  refine BitVec.eq_of_toNat_eq ?_
  have hlt := st.address.isLt
  simp only [BitVec.toNat_setWidth, BitVec.toNat_udiv, BitVec.toNat_sub, BitVec.extractLsb'_toNat,
    lcdBase, BitVec.toNat_ofNat, Nat.shiftRight_eq_div_pow, Nat.reducePow, Nat.reduceMod,
    Nat.reduceSub]
  omega

/-- **Every call reaches `LCD`**, and no other slave. -/
theorem reached_call (c : Call) :
    Master.cpuDataMaster.reached c.store.address false = [.lcdAvalonSlave] := by
  refine (sends_of_owns (connected .lcdAvalonSlave) ?_).1
  have haddr : c.store.address = 0x2020004#32 ∨ c.store.address = 0x2020000#32 := by
    cases c with
    | command c => exact Or.inl rfl
    | data d => exact Or.inr rfl
  rcases haddr with haddr | haddr
  · rw [haddr]
    exact ⟨by decide, by decide, fun hs => by cases hs⟩
  · rw [haddr]
    exact ⟨by decide, by decide, fun hs => by cases hs⟩

/-- The request carries the store, as one word or more. -/
structure CarriesStore (x : Uav) (st : Store) : Prop where
  write : x.uavWrite = true
  address : x.uavAddress = st.address
  data : x.uavWritedata = st.halfword
  count : x.uavBurstcount.extractLsb' 1 17 ≠ 0

/-- **The panel is shown one word of `main` at most**, however the stores after the first one reach
the translator. The first one does not come in cycle `0`, when `WaitReq_SO` is `'0'` and the store
would be accepted and lost; `main` sleeps for half a second before it. -/
theorem main_one_word {u : ℕ → Uav} (h : BusAgent s u) (h0 : 0 < g)
    (hstore : CarriesStore (u g) (Call.command 0x0028#32).store)
    (hfirst : ∀ v, v < g → (u v).uavWrite = false) (t : ℕ) :
    words s (behindPort s u) t <+: [asData 0x0028#32] := by
  have haddr : (u g).uavAddress.extractLsb' 1 16 = regWriteDataAddr := by
    rw [hstore.address, ← wordAddress_eq]
    decide
  have hcap := captured_first_only h h0 hstore.write hfirst (by rw [haddr]; exact Or.inl rfl)
    hstore.count t
  have hword := (words_of_captured t).trans (hcap.filterMap Job.toPanel)
  rw [inputJob_first h hstore.write hfirst, haddr, hstore.data,
    List.filterMap_cons_some (toPanel_full (Or.inl rfl))] at hword
  exact hword

/-- The first call of `main`. -/
example (p₁ p₂ p₃ : Picture) (k : ℕ) :
    (mainCalls p₁ p₂ p₃ k).head? = some (.command 0x0028#32) := rfl

/-- The first store of `main`, again and again. -/
theorem display_off_only : words fresh (behindPort fresh (sameStore 0x2020004#32 0x0028#16))
    (bootCycles + 1000) <+: [asData 0x0028#32] := by
  have hg : sameStore 0x2020004#32 0x0028#16 (bootCycles + 1) = storeOf 0x2020004#32 0x0028#16 :=
    sameStore_late (Nat.lt_succ_self _)
  have hstore : CarriesStore (sameStore 0x2020004#32 0x0028#16 (bootCycles + 1))
      (Call.command 0x0028#32).store := by
    rw [hg]
    exact ⟨rfl, by decide, by decide, by decide⟩
  exact main_one_word (sameStore_agent fresh _ _) (Nat.succ_pos _) hstore
    (fun v hv => sameStore_before (Nat.le_of_lt_succ hv)) _

end LcdInterface.Software

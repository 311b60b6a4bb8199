import LcdInterface.Dma.Registers

/-!
# The DMA's register file

What `StateEvalData` does to the registers, on its own: from any contents and for any captured
pairs of address and data. The halves of a 32-bit register are merged by mask, shift and or, and
`main.c` takes an address apart by mask and shift.

* `edge_evalPair`: `evalPair` is the update an edge makes in `StateEvalData`.
* `update_law`: each register half holds the data of the last pair for it, and everything else is
  unchanged; an address written as `uSrcMsw` and `uSrcLsw` comes back.
-/

namespace LcdInterface.Dma

/-! ## Halves of an address -/

/-- `uSrcLsw` of `main.c`. -/
def uSrcLsw (src : BitVec 32) : BitVec 16 := (src &&& 0x0000FFFF#32).setWidth 16

/-- `uSrcMsw` of `main.c`. -/
def uSrcMsw (src : BitVec 32) : BitVec 16 := ((src &&& 0xFFFF0000#32) >>> 16).setWidth 16

theorem uSrcLsw_eq (src : BitVec 32) : uSrcLsw src = src.extractLsb' 0 16 := by
  refine BitVec.eq_of_getLsbD_eq fun j hj => ?_
  simp only [uSrcLsw, BitVec.getLsbD_setWidth, BitVec.getLsbD_and, maskLSW j (by omega),
    BitVec.getLsbD_extractLsb', hj, decide_true, Nat.zero_add, Bool.true_and, Bool.and_true]

theorem uSrcMsw_eq (src : BitVec 32) : uSrcMsw src = src.extractLsb' 16 16 := by
  ext j hj
  simp [uSrcMsw, maskMSW (16 + j) (by omega)]

/-- A 32-bit register is its two halves. -/
theorem eq_of_halves {x y : BitVec 32} (hhigh : x.extractLsb' 16 16 = y.extractLsb' 16 16)
    (hlow : x.extractLsb' 0 16 = y.extractLsb' 0 16) : x = y := by
  have happend : ∀ z : BitVec 32, z.extractLsb' 16 16 ++ z.extractLsb' 0 16 = z :=
    fun _ => BitVec.extractLsb'_append_extractLsb'
  rw [← happend x, ← happend y, hhigh, hlow]

/-! ## Cells -/

/-- The addresses of the cells: every 16-bit register but `RegError`, and the halves. -/
def cellAddresses : List (BitVec 16) := regDataAddr :: setupAddresses

/-- The 16 bits at such an address. -/
def Addressable.cell (a : Addressable) (k : BitVec 16) : BitVec 16 :=
  if k = regDataAddr then a.data else a.at k

theorem Addressable.cell_of_setup (a : Addressable) {k : BitVec 16} (hk : k ∈ setupAddresses) :
    a.cell k = a.at k := by
  refine if_neg ?_
  rintro rfl
  exact absurd hk (by decide)

theorem Addressable.store_data (a : Addressable) (address data : BitVec 16) :
    (a.store address data).data = if address = regDataAddr then data else a.data := by
  by_cases h : address = regDataAddr
  · rw [if_pos h, h]
    rfl
  · rw [if_neg h]
    unfold Addressable.store
    split_ifs <;> rfl

theorem Addressable.store_error (a : Addressable) (address data : BitVec 16) :
    (a.store address data).error = a.error := by
  unfold Addressable.store
  split_ifs <;> rfl

/-- **A store changes its own cell only.** -/
theorem Addressable.store_cell (a : Addressable) (address data : BitVec 16) {k : BitVec 16}
    (hk : k ∈ cellAddresses) :
    (a.store address data).cell k = if address = k then data else a.cell k := by
  rcases List.mem_cons.mp hk with rfl | hk
  · exact a.store_data address data
  · rw [cell_of_setup _ hk, cell_of_setup _ hk, store_at _ _ _ hk]

/-- The registers are their cells and `RegError`. -/
theorem Addressable.ext_cell {a b : Addressable} (herror : a.error = b.error)
    (hcell : ∀ k ∈ cellAddresses, a.cell k = b.cell k) : a = b := by
  have hstate : a.state = b.state := hcell regStateAddr (by decide)
  have hctrl : a.ctrl = b.ctrl := hcell regCtrlAddr (by decide)
  have hdata : a.data = b.data := hcell regDataAddr (by decide)
  have hsrc : a.src = b.src :=
    eq_of_halves (hcell regSrcMSWAddr (by decide)) (hcell regSrcLSWAddr (by decide))
  have hdest : a.dest = b.dest :=
    eq_of_halves (hcell regDestMSWAddr (by decide)) (hcell regDestLSWAddr (by decide))
  cases a
  cases b
  simp_all only

theorem Addressable.store_comm (a : Addressable) {w w' : BitVec 16 × BitVec 16}
    (h : w.1 ≠ w'.1) :
    (a.store w.1 w.2).store w'.1 w'.2 = (a.store w'.1 w'.2).store w.1 w.2 := by
  refine ext_cell (by simp only [store_error]) fun k hk => ?_
  simp only [store_cell _ _ _ hk]
  split_ifs with h1 h2
  · exact absurd (h2.trans h1.symm) h
  · rfl
  · rfl
  · rfl

theorem Addressable.store_store (a : Addressable) (w : BitVec 16 × BitVec 16) :
    (a.store w.1 w.2).store w.1 w.2 = a.store w.1 w.2 := by
  refine ext_cell (by simp only [store_error]) fun k hk => ?_
  simp only [store_cell _ _ _ hk]
  split_ifs <;> rfl

/-! ## The update of `StateEvalData` -/

/-- The registers after `StateEvalData` has evaluated the captured pair `w`, where `l` is what
`logic` drove before. -/
def evalPair (l : Logic) (r : Regs) (w : BitVec 16 × BitVec 16) : Regs :=
  let r := { r with statePresD := .stateEvalData, regAddressPresD := w.1, regRxDataPresD := w.2 }
  { r with toRegUpdate := regUpdate r (logic r l) }

/-- The same for one pair after the other. -/
def evalPairs (l : Logic) (r : Regs) (ws : List (BitVec 16 × BitVec 16)) : Regs :=
  ws.foldl (evalPair l) r

/-- **This is the update an edge makes in `StateEvalData`.** -/
theorem edge_evalPair {d : Signals} {x : Inputs} (h : d.statePresD = .stateEvalData) :
    (edge d x).toRegUpdate =
      (evalPair d.toLogic d.toRegs (d.regAddressPresD, d.regRxDataPresD)).toRegUpdate := by
  have hlogic : logic { d.toRegs with statePresD := .stateEvalData } d.toLogic = d.toLogic := by
    rw [← h]
    exact d.settled
  show regUpdate d.toRegs d.toLogic = regUpdate _ (logic _ d.toLogic)
  rw [hlogic]
  rfl

variable {l : Logic} {r : Regs}

theorem evalPair_addressable (w : BitVec 16 × BitVec 16) :
    addressable (evalPair l r w) = (addressable r).store w.1 w.2 :=
  evalAddress_addressable rfl

theorem evalPairs_addressable (ws : List (BitVec 16 × BitVec 16)) :
    addressable (evalPairs l r ws) = ws.foldl (fun a w => a.store w.1 w.2) (addressable r) := by
  unfold evalPairs
  induction ws generalizing r with
  | nil => rfl
  | cons w ws ih => rw [List.foldl_cons, List.foldl_cons, ih, evalPair_addressable]

/-- The registers without the cells, the captured pair and the state. -/
def others (r : Regs) : Regs :=
  { r with
    statePresD := .stateEvalData, regAddressPresD := 0, regRxDataPresD := 0, regStatePresD := 0,
    regCtrlPresD := 0, regSrcPresD := 0, regDestPresD := 0, regDataPresD := 0 }

theorem others_evalPair (w : BitVec 16 × BitVec 16) : others (evalPair l r w) = others r := by
  unfold evalPair logic
  simp only [branch, logicEvalData]
  rw [evalAddress_eq]
  rfl

theorem others_evalPairs (ws : List (BitVec 16 × BitVec 16)) :
    others (evalPairs l r ws) = others r := by
  unfold evalPairs
  induction ws generalizing r with
  | nil => rfl
  | cons w ws ih => rw [List.foldl_cons, ih, others_evalPair]

/-- **Each cell holds the data of the last pair for it.** -/
theorem evalPairs_cell (ws : List (BitVec 16 × BitVec 16)) {k : BitVec 16}
    (hk : k ∈ cellAddresses) :
    (addressable (evalPairs l r ws)).cell k = lastWrite ((addressable r).cell k) ws k := by
  unfold evalPairs
  induction ws generalizing r with
  | nil => rfl
  | cons w ws ih =>
    rw [List.foldl_cons, ih, evalPair_addressable, Addressable.store_cell _ _ _ hk]
    rfl

/-- Pairs for other addresses leave a cell alone. -/
theorem lastWrite_other {z : BitVec 16} {ws : List (BitVec 16 × BitVec 16)} {k : BitVec 16}
    (h : ∀ w ∈ ws, w.1 ≠ k) : lastWrite z ws k = z := by
  induction ws generalizing z with
  | nil => rfl
  | cons w ws ih =>
    have hw : w.1 ≠ k := h w (List.mem_cons_self ..)
    have hrest := ih (z := z) fun w' hw' => h w' (List.mem_cons_of_mem _ hw')
    unfold lastWrite at hrest ⊢
    rw [List.foldl_cons, if_neg hw, hrest]

theorem lastWrite_last {z : BitVec 16} {ws ws' : List (BitVec 16 × BitVec 16)}
    {w : BitVec 16 × BitVec 16} (h : ∀ w' ∈ ws', w'.1 ≠ w.1) :
    lastWrite z (ws ++ w :: ws') w.1 = w.2 := by
  have hrest := lastWrite_other (z := w.2) h
  unfold lastWrite at hrest ⊢
  rw [List.foldl_append, List.foldl_cons, if_pos rfl, hrest]

/-- **An address written in two halves comes back.** -/
theorem evalPairs_src {src : BitVec 32} {p q : BitVec 16 × BitVec 16}
    {mid post : List (BitVec 16 × BitVec 16)}
    (hpq : p = (regSrcMSWAddr, uSrcMsw src) ∧ q = (regSrcLSWAddr, uSrcLsw src) ∨
      p = (regSrcLSWAddr, uSrcLsw src) ∧ q = (regSrcMSWAddr, uSrcMsw src))
    (hother : ∀ w ∈ mid ++ post, w.1 ≠ regSrcMSWAddr ∧ w.1 ≠ regSrcLSWAddr) :
    (evalPairs l r (p :: mid ++ q :: post)).regSrcPresD = src := by
  have hne : regSrcMSWAddr ≠ regSrcLSWAddr := by decide
  have hmid : ∀ k, k = regSrcMSWAddr ∨ k = regSrcLSWAddr → ∀ w ∈ mid, w.1 ≠ k := by
    rintro k (rfl | rfl) w hw
    · exact (hother w (List.mem_append_left _ hw)).1
    · exact (hother w (List.mem_append_left _ hw)).2
  have hpost : ∀ k, k = regSrcMSWAddr ∨ k = regSrcLSWAddr → ∀ w ∈ post, w.1 ≠ k := by
    rintro k (rfl | rfl) w hw
    · exact (hother w (List.mem_append_right _ hw)).1
    · exact (hother w (List.mem_append_right _ hw)).2
  -- the first of the two pairs is the last one for its half
  have hfirst : ∀ z, p.1 ≠ q.1 → (p.1 = regSrcMSWAddr ∨ p.1 = regSrcLSWAddr) →
      lastWrite z (p :: mid ++ q :: post) p.1 = p.2 := by
    intro z hpq hp
    show lastWrite z ([] ++ p :: (mid ++ q :: post)) p.1 = p.2
    refine lastWrite_last fun w hw => ?_
    rcases List.mem_append.mp hw with hw | hw
    · exact hmid _ hp w hw
    rcases List.mem_cons.mp hw with rfl | hw
    · exact fun h => hpq h.symm
    · exact hpost _ hp w hw
  have hcell : ∀ k ∈ cellAddresses, (addressable (evalPairs l r (p :: mid ++ q :: post))).cell k =
      lastWrite ((addressable r).cell k) (p :: mid ++ q :: post) k :=
    fun k hk => evalPairs_cell _ hk
  refine eq_of_halves ?_ ?_
  · refine (hcell regSrcMSWAddr (by decide)).trans ?_
    rw [← uSrcMsw_eq]
    rcases hpq with ⟨rfl, rfl⟩ | ⟨rfl, rfl⟩
    · exact hfirst _ hne (Or.inl rfl)
    · exact lastWrite_last (hpost _ (Or.inl rfl))
  · refine (hcell regSrcLSWAddr (by decide)).trans ?_
    rw [← uSrcLsw_eq]
    rcases hpq with ⟨rfl, rfl⟩ | ⟨rfl, rfl⟩
    · exact lastWrite_last (hpost _ (Or.inr rfl))
    · exact hfirst _ hne.symm (Or.inr rfl)

/-! ## The law -/

variable (l r) in
/-- The laws of the register file, from any contents. -/
structure UpdateLaw : Prop where
  /-- `RegState`, `RegCtrl`, `RegData` and the halves hold the last pair for them. -/
  cell : ∀ ws, ∀ k ∈ cellAddresses,
    (addressable (evalPairs l r ws)).cell k = lastWrite ((addressable r).cell k) ws k
  error : ∀ ws, (evalPairs l r ws).regErrorPresD = r.regErrorPresD
  others : ∀ ws, Dma.others (evalPairs l r ws) = Dma.others r
  /-- Pairs for different addresses commute. -/
  comm : ∀ ws w w' ws', w.1 ≠ w'.1 →
    addressable (evalPairs l r (ws ++ w :: w' :: ws')) =
      addressable (evalPairs l r (ws ++ w' :: w :: ws'))
  /-- A pair can be repeated. -/
  again : ∀ ws w ws', addressable (evalPairs l r (ws ++ w :: w :: ws')) =
    addressable (evalPairs l r (ws ++ w :: ws'))
  /-- An address in two halves, in either order, with other pairs in between and after. -/
  roundTrip : ∀ src p q mid post,
    p = (regSrcMSWAddr, uSrcMsw src) ∧ q = (regSrcLSWAddr, uSrcLsw src) ∨
      p = (regSrcLSWAddr, uSrcLsw src) ∧ q = (regSrcMSWAddr, uSrcMsw src) →
    (∀ w ∈ mid ++ post, w.1 ≠ regSrcMSWAddr ∧ w.1 ≠ regSrcLSWAddr) →
    (evalPairs l r (p :: mid ++ q :: post)).regSrcPresD = src

theorem update_law (l : Logic) (r : Regs) : UpdateLaw l r := by
  refine ⟨fun ws k hk => evalPairs_cell ws hk, fun ws => ?_, others_evalPairs, ?_, ?_,
    fun src p q mid post => evalPairs_src⟩
  · have hothers : Dma.others (evalPairs l r ws) = Dma.others r := others_evalPairs ws
    have herror := congrArg (fun r : Regs => r.regErrorPresD) hothers
    exact herror
  · intro ws w w' ws' h
    simp only [evalPairs_addressable, List.foldl_append, List.foldl_cons]
    rw [Addressable.store_comm _ h]
  · intro ws w ws'
    simp only [evalPairs_addressable, List.foldl_append, List.foldl_cons]
    rw [Addressable.store_store]

end LcdInterface.Dma

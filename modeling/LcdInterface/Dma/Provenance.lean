import LcdInterface.Dma.System

/-!
# Where the words come from

The DMA and its memory, as in `Dma/System.lean`, but with no assumption on when the CPU changes
`RegSrc`: a word may then arrive that was read from an earlier `RegSrc`.

* `words_from`: what the DMA writes has every property that the words in the cells it reads from
  have, and a cell that is changed was the `RegDest` of some write. So no word is invented
  (`no_word_invented`): what the CPU loads into `RegData` is never written.
* `one_word`: with one pair of addresses the DMA copies one word, however long it runs.
-/

namespace LcdInterface.Dma

open Clocked
open AddressMap (sdramWord)

section Runs

variable {κ : Type*} [DecidableEq κ] (d : Signals) (cell : BitVec 32 → κ) (cells : κ → BitVec 16)
  (e : ℕ → Inputs)

/-- Every transfer reads a word in `R`. -/
def ReadsFrom (R : κ → Prop) : Prop :=
  ∀ t, InTransfer d (systemInputs d cell cells e) t → R (pair d cell cells e t).1

/-- A write to `a` was taken before cycle `t`. -/
def Written (a : κ) (t : ℕ) : Prop :=
  ∃ u, u < t ∧ state d (systemInputs d cell cells e) u = .stateTx ∧ masterWait e u = false ∧
    (pair d cell cells e u).2 = a

/-- The words that can be written have the property `P`. -/
structure Words (R : κ → Prop) (P : BitVec 16 → Prop) (t : ℕ) : Prop where
  source : ∀ a, R a → P (contents d cell cells e t a)
  owed : ∀ w ∈ owed d cell cells e t, P w
  inSync : state d (systemInputs d cell cells e) t = .stateRx →
    ∀ w, inSync d (systemInputs d cell cells e) t = some w → P w
  data : state d (systemInputs d cell cells e) t = .stateTx →
    P (cycle d (systemInputs d cell cells e) t).regDataPresD

/-- What the DMA does to the memory. -/
structure WordsFrom (P : BitVec 16 → Prop) : Prop where
  beat : ∀ t, state d (systemInputs d cell cells e) t = .stateTx →
    P (masterBeat d (systemInputs d cell cells e) t).2
  cell : ∀ t a, contents d cell cells e t a = cells a ∨
    P (contents d cell cells e t a) ∧ Written d cell cells e a t

variable {d cell cells e} {R : κ → Prop} {P : BitVec 16 → Prop} {t : ℕ}

/-- One cycle at one address: nothing, or a write is taken. -/
theorem contents_succ (a : κ) : contents d cell cells e (t + 1) a = contents d cell cells e t a ∨
    (state d (systemInputs d cell cells e) t = .stateTx ∧ masterWait e t = false ∧
      (pair d cell cells e t).2 = a ∧
        contents d cell cells e (t + 1) a =
          (cycle d (systemInputs d cell cells e) t).regDataPresD) := by
  by_cases htx : state d (systemInputs d cell cells e) t = .stateTx
  · cases hw : masterWait e t with
    | true => exact Or.inl (congrFun (contents_wait hw) a)
    | false =>
      rw [contents_tx htx hw]
      by_cases ha : (pair d cell cells e t).2 = a
      · rw [← ha, Function.update_self]
        exact Or.inr ⟨htx, rfl, rfl, rfl⟩
      · exact Or.inl (Function.update_of_ne (Ne.symm ha) _ _)
  · exact Or.inl (congrFun (contents_other htx) a)

theorem words_succ (hR : ReadsFrom d cell cells e R) (h : Words d cell cells e R P t) :
    Words d cell cells e R P (t + 1) := by
  refine ⟨fun a ha => ?_, fun w hw => ?_, fun hrx w hw => ?_, fun htx => ?_⟩
  · rcases contents_succ (d := d) (e := e) (t := t) a with hold | ⟨htx, -, -, hnew⟩
    · rw [hold]
      exact h.source a ha
    · rw [hnew]
      exact h.data htx
  · rcases owed_succ hw with hold | ⟨hin, hnew⟩
    · exact h.owed w hold
    · rw [hnew]
      exact h.source _ (hR t hin)
  · rw [inSync_succ, returned_system] at hw
    exact h.owed w (Memory.mem_of_returns hw)
  · rcases data_tx htx with ⟨hprev, hdata⟩ | ⟨hrx, hin⟩
    · rw [hdata]
      exact h.data hprev
    · exact h.inSync hrx _ hin

theorem words_all (hR : ReadsFrom d cell cells e R) (hP : ∀ a, R a → P (cells a)) (t : ℕ) :
    Words d cell cells e R P t := by
  induction t with
  | zero =>
    refine ⟨hP, fun w hw => ?_, fun h => ?_, fun h => ?_⟩
    · cases hw
    · cases h
    · cases h
  | succ t ih => exact words_succ hR ih

/-- A cell that has changed was `RegDest` in an accepted write. -/
theorem cell_from (h : ∀ t, Words d cell cells e R P t) (t : ℕ) (a : κ) :
    contents d cell cells e t a = cells a ∨
      P (contents d cell cells e t a) ∧ Written d cell cells e a t := by
  induction t with
  | zero => exact Or.inl rfl
  | succ t ih =>
    rcases contents_succ (d := d) (e := e) (t := t) a with hold | ⟨htx, hw, ha, hnew⟩
    · rw [hold]
      exact ih.imp_right fun ⟨hp, u, hut, hu⟩ => ⟨hp, u, Nat.lt_succ_of_lt hut, hu⟩
    · rw [hnew]
      exact Or.inr ⟨(h t).data htx, t, Nat.lt_succ_self t, htx, hw, ha⟩

/-- **What is written comes from the cells that are read**, whenever the CPU changes `RegSrc`. -/
theorem words_from (hR : ReadsFrom d cell cells e R) (hP : ∀ a, R a → P (cells a)) :
    WordsFrom d cell cells e P := by
  have hwords := words_all hR hP
  refine ⟨fun t htx => ?_, cell_from hwords⟩
  rw [masterBeat_write htx]
  exact (hwords t).data htx

/-- No word is invented: each was in the memory before. -/
theorem no_word_invented (t : ℕ) (a : κ) : ∃ b, contents d cell cells e t a = cells b := by
  have hall : ReadsFrom d cell cells e fun _ => True := fun _ _ => trivial
  have h : ∀ t, Words d cell cells e _ (fun w => ∃ b, w = cells b) t :=
    words_all hall fun a _ => ⟨a, rfl⟩
  rcases cell_from h t a with hold | ⟨hp, -⟩
  · exact ⟨a, hold⟩
  · exact hp

/-- With one pair of addresses one cell can change. -/
theorem cell_of_pair {p : κ × κ}
    (h : ∀ t, InTransfer d (systemInputs d cell cells e) t → pair d cell cells e t = p) (t : ℕ)
    (a : κ) : contents d cell cells e t a = cells a ∨
      a = p.2 ∧ contents d cell cells e t a = cells p.1 := by
  have hwords : ∀ t, Words d cell cells e (fun a => a = p.1) (fun w => w = cells p.1) t :=
    words_all (fun t hin => congrArg Prod.fst (h t hin)) fun a ha => congrArg cells ha
  rcases cell_from hwords t a with hold | ⟨hnew, u, -, htx, -, hdest⟩
  · exact Or.inl hold
  · rw [h u (Or.inr (Or.inr htx))] at hdest
    exact Or.inr ⟨hdest.symm, hnew⟩

/-- **With one pair of addresses there is one word to copy**: neither address counts up. -/
theorem one_word {p : κ × κ}
    (h : ∀ t, InTransfer d (systemInputs d cell cells e) t → pair d cell cells e t = p) (t : ℕ) :
    contents d cell cells e t = cells ∨ contents d cell cells e t = copy cells p := by
  have hother : ∀ a, a ≠ p.2 → contents d cell cells e t a = cells a :=
    fun a ha => (cell_of_pair h t a).resolve_right fun hnew => ha hnew.1
  rcases cell_of_pair h t p.2 with hold | ⟨-, hnew⟩
  · left
    funext a
    by_cases ha : a = p.2
    · rw [ha, hold]
    · exact hother a ha
  · right
    funext a
    unfold copy
    by_cases ha : a = p.2
    · rw [ha, hnew, Function.update_self]
    · rw [hother a ha, Function.update_of_ne ha]

end Runs

/-! ## A run -/

theorem pair_copyOnce (n : ℕ) : pair fresh sdramWord numbered copyOnce (n + 4 + 2 + 1) =
    (0#23, 8#23) := by
  induction n with
  | zero => decide
  | succ n ih =>
    have hkept := pair_kept (ne_evalData_copyOnce n)
    rw [ih] at hkept
    rw [show n + 1 + 4 + 2 + 1 = n + 4 + 2 + 1 + 1 by omega]
    exact hkept

theorem pair_transfer (t : ℕ)
    (h : InTransfer fresh (systemInputs fresh sdramWord numbered copyOnce) t) :
    pair fresh sdramWord numbered copyOnce t = (0#23, 8#23) := by
  by_cases ht : t < 7
  · have hall : ∀ t, t < 7 →
        ¬ InTransfer fresh (systemInputs fresh sdramWord numbered copyOnce) t := by
      unfold InTransfer
      decide
    exact absurd h (hall t ht)
  · obtain ⟨n, rfl⟩ : ∃ n, t = n + 4 + 2 + 1 := ⟨t - 7, by omega⟩
    exact pair_copyOnce n

/-- `RegCtrlGo` is never cleared, and a million cycles later one word has been copied, or none. -/
theorem one_word_copied : contents fresh sdramWord numbered copyOnce 1000000 = numbered ∨
    contents fresh sdramWord numbered copyOnce 1000000 = copy numbered (0#23, 8#23) :=
  one_word pair_transfer 1000000

theorem copyOnce_words :
    WordsFrom fresh sdramWord numbered copyOnce fun w => w = numbered 0#23 :=
  words_from (R := fun a => a = 0#23)
    (fun t h => congrArg Prod.fst (pair_transfer t h)) fun _ ha => congrArg numbered ha

end LcdInterface.Dma

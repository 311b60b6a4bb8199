import LcdInterface.Dma.Provenance
import LcdInterface.Dma.RegisterFile

/-!
# One access

The DMA takes a read as an access and never drives `ReadDataValid_SO`, so a CPU that waits for the
word it reads makes one access and no more. That is not enough: the registers are `0` after reset,
`RegCtrl` is loaded by an access of its own, and what it then starts copies address `0` to itself.

* `one_access`: if `Read_SI` is `'1'` in one cycle at most, the memory is never changed.
-/

namespace LcdInterface.Dma

open Clocked
open AddressMap (sdramWord)

section Accesses

variable {d : Signals} {i : ℕ → Inputs} {t : ℕ}

/-- A transfer runs with `RegCtrlGo` set. -/
theorem InTransfer.go (h : InTransfer d i t) :
    (cycle d i t).regCtrlPresD &&& regCtrlGo ≠ 0 := by
  obtain ⟨a, ha⟩ := h.exists_start
  have hkept := congrArg Addressable.ctrl (ha.setup_kept (Nat.le_of_lt ha.lt) (Nat.le_succ t))
  have hctrl : (cycle d i t).regCtrlPresD = (cycle d i a).regCtrlPresD := hkept
  have hs := ha.started
  rw [hctrl]
  cases he : (cycle d i a).readEdgeD with
  | true =>
    have hq : state d i (a + 1) = .stateEvalData := (edge_idle_some (x := i a) ha.idle he).1
    rw [hq] at hs
    cases hs
  | false =>
    have hq : state d i (a + 1) = _ := (edge_idle_none (x := i a) ha.idle he).1
    rw [hq] at hs
    intro hgo
    rw [if_neg fun hne => hne hgo] at hs
    cases hs

/-- A captured access is a read two cycles before. -/
theorem read_of_captured (h : captured d i t ≠ none) : ∃ v, t = v + 2 ∧ (i v).readSi = true := by
  obtain ⟨w, hw⟩ := Option.ne_none_iff_exists'.mp h
  match t with
  | 0 => cases (captured_eq_some.mp hw).1.1
  | 1 => cases (captured_eq_some.mp hw).1.2
  | v + 2 => exact ⟨v, rfl, (captured_succ_eq_some.mp hw).1.2⟩

/-- If `Read_SI` is `'1'` in one cycle at most, one access is captured at most. -/
theorem captured_of_one_read (h : ∀ t u, (i t).readSi = true → (i u).readSi = true → t = u)
    (t : ℕ) : (log (captured d i) t).length ≤ 1 := by
  refine length_log_le_one_iff.mpr (fun u v huv hu => ?_) t
  by_contra hv
  obtain ⟨u', rfl, hu'⟩ := read_of_captured hu
  obtain ⟨v', rfl, hv'⟩ := read_of_captured hv
  rw [h u' v' hu' hv'] at huv
  exact Nat.lt_irrefl _ huv

/-- In a transfer that one access has started both addresses are `0`. -/
theorem addresses_of_one_access (h : (log (captured d i) t).length ≤ 1) (hin : InTransfer d i t) :
    (cycle d i t).regSrcPresD = 0 ∧ (cycle d i t).regDestPresD = 0 := by
  have hne : state d i t ≠ .stateEvalData := by
    intro he
    rcases hin with hq | hq | hq
    · rw [he] at hq
      cases hq
    · rw [he] at hq
      cases hq
    · rw [he] at hq
      cases hq
  have hat : ∀ k ∈ setupAddresses, (addressable (cycle d i t).toRegs).at k =
      lastWrite 0 (log (captured d i) t) k := by
    intro k hk
    rw [← evaluated_at hk, evaluated_of_ne hne]
  -- the access is the one that has loaded `RegCtrlGo`
  obtain ⟨v, hlog⟩ : ∃ v, log (captured d i) t = [(regCtrlAddr, v)] := by
    have hgo := hin.go
    rw [show (cycle d i t).regCtrlPresD = _ from hat regCtrlAddr (by decide)] at hgo
    match hlog : log (captured d i) t with
    | [] =>
      rw [hlog] at hgo
      exact absurd rfl hgo
    | [(k, v)] =>
      rw [hlog] at hgo
      by_cases hk : k = regCtrlAddr
      · exact ⟨v, by rw [hk]⟩
      · have hzero : lastWrite 0 [(k, v)] regCtrlAddr = 0 := if_neg hk
        rw [hzero] at hgo
        exact absurd rfl hgo
    | _ :: _ :: _ =>
      rw [hlog] at h
      simp at h
  have hzero : ∀ k ∈ setupAddresses, k ≠ regCtrlAddr →
      (addressable (cycle d i t).toRegs).at k = 0 := by
    intro k hk hne
    rw [hat k hk, hlog]
    exact if_neg (Ne.symm hne)
  exact ⟨eq_of_halves (hzero regSrcMSWAddr (by decide) (by decide))
      (hzero regSrcLSWAddr (by decide) (by decide)),
    eq_of_halves (hzero regDestMSWAddr (by decide) (by decide))
      (hzero regDestLSWAddr (by decide) (by decide))⟩

end Accesses

section Memory

variable {κ : Type*} [DecidableEq κ] {d : Signals} {cell : BitVec 32 → κ} {cells : κ → BitVec 16}
  {e : ℕ → Inputs}

theorem readSi_system (t : ℕ) : (systemInputs d cell cells e t).readSi = (e t).readSi := by
  unfold systemInputs memInputs
  split <;> rfl

/-- **One access never changes the memory.** -/
theorem one_access (h : ∀ t u, (e t).readSi = true → (e u).readSi = true → t = u) (t : ℕ) :
    contents d cell cells e t = cells := by
  have hone : ∀ t u, (systemInputs d cell cells e t).readSi = true →
      (systemInputs d cell cells e u).readSi = true → t = u := by
    intro t u ht hu
    rw [readSi_system] at ht hu
    exact h t u ht hu
  have hpair : ∀ t, InTransfer d (systemInputs d cell cells e) t →
      pair d cell cells e t = (cell 0, cell 0) := by
    intro t hin
    obtain ⟨hsrc, hdest⟩ := addresses_of_one_access (captured_of_one_read hone t) hin
    unfold pair
    rw [hsrc, hdest]
  funext a
  rcases cell_of_pair hpair t a with hold | ⟨ha, hnew⟩
  · exact hold
  · rw [hnew, ha]

end Memory

/-- The CPU loads `RegCtrlGo`, and the DMA writes word `0` again and again. -/
theorem copied_to_itself : contents fresh sdramWord numbered
    (transfer (fun t => decide (t % 4 = 0)) fun t => decide (t % 4 = 1)) 1000000 = numbered := by
  refine one_access (fun t u ht hu => ?_) 1000000
  have hgo : ∀ t, (transfer (fun t => decide (t % 4 = 0)) (fun t => decide (t % 4 = 1)) t).readSi =
      true → t = 0 := by
    intro t ht
    by_contra hne
    rw [transfer, if_neg hne] at ht
    cases ht
  rw [hgo t ht, hgo u hu]

end LcdInterface.Dma

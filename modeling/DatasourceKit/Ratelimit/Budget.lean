/-
  Accrual — amounts granted over time out of an accruing, capped balance.

  A ledger lists the grants, each with its instant, the latest first.  `Budget` relates
  a ledger to a balance that has accrued at `rate` up to an instant and never exceeds
  `capacity`.

  * `Budget.accrue`, `Budget.grant`: time passes, an amount is granted;
  * `Budget.window`: in every window of time at most the capacity and what accrues in
    it is granted.
-/
import Mathlib.Algebra.Order.Field.Basic
import Mathlib.Tactic.Linarith

namespace Accrual

variable {K : Type} [Field K] [LinearOrder K]

/-- The grants, as pairs of the instant and the amount, the latest first. -/
abbrev Ledger (K : Type) := List (K × K)

/-- The total amount granted from `s` to `t`. -/
def granted (g : Ledger K) (s t : K) : K := ((g.filter fun e => s ≤ e.1 ∧ e.1 ≤ t).map Prod.snd).sum

@[simp] theorem granted_nil (s t : K) : granted ([] : Ledger K) s t = 0 := rfl

theorem granted_cons (e : K × K) (g : Ledger K) (s t : K) :
    granted (e :: g) s t = (if s ≤ e.1 ∧ e.1 ≤ t then e.2 else 0) + granted g s t := by
  by_cases he : s ≤ e.1 ∧ e.1 ≤ t
  · simp [granted, he]
  · simp [granted, he]

/-- Grants up to `t` are all in a window that ends after `t`. -/
theorem granted_of_past {g : Ledger K} {s t u : K} (h : ∀ e ∈ g, e.1 ≤ t) (hu : t ≤ u) :
    granted g s u = granted g s t := by
  induction g with
  | nil => rfl
  | cons e g ih =>
    have he := h e List.mem_cons_self
    rw [granted_cons, granted_cons, ih fun e' he' => h e' (List.mem_cons_of_mem _ he')]
    simp only [he, he.trans hu]

/-- A window that begins after all grants has none. -/
theorem granted_of_before {g : Ledger K} {s t u : K} (h : ∀ e ∈ g, e.1 ≤ t) (hs : t < s) :
    granted g s u = 0 := by
  induction g with
  | nil => rfl
  | cons e g ih =>
    have he : ¬ s ≤ e.1 := not_le.2 ((h e List.mem_cons_self).trans_lt hs)
    rw [granted_cons, ih fun e' he' => h e' (List.mem_cons_of_mem _ he')]
    simp only [he, false_and, if_false, add_zero]

/-- The balance `tokens` has accrued up to `last`, after the grants `g`. -/
structure Budget (rate capacity : K) (g : Ledger K) (tokens last : K) : Prop where
  nonneg : 0 ≤ tokens
  le_capacity : tokens ≤ capacity
  past : ∀ e ∈ g, e.1 ≤ last
  window : ∀ s t, s ≤ t → granted g s t ≤ capacity + rate * (t - s)
  /-- what is left now could still be granted now -/
  saved : ∀ s ≤ last, granted g s last + tokens ≤ capacity + rate * (last - s)

variable [IsStrictOrderedRing K] {rate capacity tokens last now a : K} {g : Ledger K}

/-- A full balance, before any grant. -/
theorem Budget.full (hr : 0 ≤ rate) (hc : 0 ≤ capacity) (last : K) :
    Budget rate capacity [] capacity last := by
  have hpos : ∀ s t : K, s ≤ t → 0 ≤ rate * (t - s) := fun s t h => mul_nonneg hr (sub_nonneg.2 h)
  refine ⟨hc, le_rfl, by simp, fun s t h => ?_, fun s h => ?_⟩
  · rw [granted_nil]
    linarith [hpos s t h]
  · rw [granted_nil]
    linarith [hpos s last h]

/-- Time passes: the balance accrues, up to the capacity. -/
theorem Budget.accrue (h : Budget rate capacity g tokens last) (hr : 0 ≤ rate) (hnow : last ≤ now) :
    Budget rate capacity g (min capacity (tokens + (now - last) * rate)) now := by
  have hgain : 0 ≤ (now - last) * rate := mul_nonneg (sub_nonneg.2 hnow) hr
  refine ⟨le_min (h.nonneg.trans h.le_capacity) (add_nonneg h.nonneg hgain), min_le_left _ _,
    fun e he => (h.past e he).trans hnow, h.window, fun s hs => ?_⟩
  by_cases hsl : s ≤ last
  · have hsaved := h.saved s hsl
    have hmin := min_le_right capacity (tokens + (now - last) * rate)
    rw [granted_of_past h.past hnow]
    linarith
  · have hmin := min_le_left capacity (tokens + (now - last) * rate)
    have hpos : 0 ≤ rate * (now - s) := mul_nonneg hr (sub_nonneg.2 hs)
    rw [granted_of_before h.past (not_le.1 hsl)]
    linarith

/-- An amount within the balance is granted. -/
theorem Budget.grant (h : Budget rate capacity g tokens last) (hr : 0 ≤ rate) (ha : 0 ≤ a)
    (hle : a ≤ tokens) : Budget rate capacity ((last, a) :: g) (tokens - a) last := by
  refine ⟨sub_nonneg.2 hle, (sub_le_self _ ha).trans h.le_capacity, ?_,
    fun s t hst => ?_, fun s hs => ?_⟩
  · simpa using h.past
  · rw [granted_cons]
    dsimp only
    split_ifs with hin
    · -- the window holds the instant of the grant, so it holds the earlier grants from `s` on
      have hsaved := h.saved s hin.1
      have hmore : rate * (last - s) ≤ rate * (t - s) :=
        mul_le_mul_of_nonneg_left (sub_le_sub_right hin.2 s) hr
      rw [granted_of_past h.past hin.2]
      linarith
    · rw [zero_add]
      exact h.window s t hst
  · have hsaved := h.saved s hs
    rw [granted_cons, if_pos ⟨hs, le_rfl⟩]
    linarith

end Accrual

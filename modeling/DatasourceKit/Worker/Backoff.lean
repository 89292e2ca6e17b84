/-
  The delays of a `BackoffPolicy`, where a power of floats can overflow.

  * `BackoffPolicy.capped`: the capped exponential;
  * `delay_capped_iff`: the delays lie between the initial and the maximum one and do not
    decrease, and are those of the capped exponential as long as the power does not overflow, or
    the maximum is reached anyway; `delay_uncapped`: else they are not.
-/
import Mathlib.Algebra.Order.GroupWithZero.Basic
import DatasourceKit.Worker.Host

namespace DatasourceKit

theorem floatPow_eq_some {x p : ℚ} {n : ℕ} :
    floatPow x n = some p ↔ x ^ n < 2 ^ 1024 ∧ p = x ^ n := by
  unfold floatPow
  split_ifs with h
  · simp [not_lt.2 h]
  · simp [not_le.1 h, eq_comm]

theorem floatPow_eq_none {x : ℚ} {n : ℕ} : floatPow x n = none ↔ 2 ^ 1024 ≤ x ^ n := by
  unfold floatPow
  split_ifs with h <;> simp [h]

namespace BackoffPolicy

/-- The capped exponential. -/
def capped (b : BackoffPolicy) (n : ℕ) : ℚ :=
  min (b.initialSeconds * b.multiplier ^ (n - 1)) b.maximumSeconds

variable {ε : Type} {b : BackoffPolicy} {m n : ℕ} {d d' : ℚ}

/-- The delay is that of the capped exponential, or the maximum after an overflow. -/
theorem delay_cases (h : b.delay (ε := ε) n = .ok d) :
    b.multiplier ^ (n - 1) < 2 ^ 1024 ∧ d = b.capped n ∨ 2 ^ 1024 ≤ b.multiplier ^ (n - 1) ∧
    d = b.maximumSeconds := by
  unfold delay at h
  split_ifs at h
  cases hp : floatPow b.multiplier (n - 1) with
  | some p =>
    obtain ⟨hlt, rfl⟩ := floatPow_eq_some.1 hp
    rw [hp] at h
    exact .inl ⟨hlt, (Except.ok.inj h).symm⟩
  | none =>
    rw [hp] at h
    refine .inr ⟨floatPow_eq_none.1 hp, ?_⟩
    rw [← Except.ok.inj h, min_self]

theorem exists_delay (hn : 1 ≤ n) : ∃ d, b.delay (ε := ε) n = .ok d := ⟨_, if_neg (by omega)⟩

theorem initial_le_capped : b.initialSeconds ≤ b.capped n := by
  refine le_min ?_ b.initial_le
  exact le_mul_of_one_le_right b.initial_nonneg (one_le_pow₀ b.one_le_multiplier)

theorem capped_mono (hnm : n ≤ m) : b.capped n ≤ b.capped m := by
  refine min_le_min_right _ (mul_le_mul_of_nonneg_left ?_ b.initial_nonneg)
  exact pow_le_pow_right₀ b.one_le_multiplier (by omega)

theorem delay_bounds (h : b.delay (ε := ε) n = .ok d) :
    b.initialSeconds ≤ d ∧ d ≤ b.maximumSeconds := by
  rcases delay_cases h with ⟨-, rfl⟩ | ⟨-, rfl⟩
  · exact ⟨initial_le_capped, min_le_right ..⟩
  · exact ⟨b.initial_le, le_rfl⟩

theorem delay_mono (hnm : n ≤ m) (h : b.delay (ε := ε) n = .ok d)
    (h' : b.delay (ε := ε) m = .ok d') : d ≤ d' := by
  rcases delay_cases h' with ⟨hlt, rfl⟩ | ⟨-, rfl⟩
  · have hle : b.multiplier ^ (n - 1) ≤ b.multiplier ^ (m - 1) :=
      pow_le_pow_right₀ b.one_le_multiplier (by omega)
    rcases delay_cases h with ⟨-, rfl⟩ | ⟨hover, -⟩
    · exact capped_mono hnm
    · exact absurd (hover.trans hle) (not_le.2 hlt)
  · exact (delay_bounds h).2

/-- **The delays are those of the capped exponential** exactly where the power does not
    overflow or the product reaches the maximum; in any case they lie between the initial and
    the maximum delay, and do not decrease. -/
theorem delay_capped_iff (ε : Type) (b : BackoffPolicy) {n : ℕ} (hn : 1 ≤ n) :
    (b.delay (ε := ε) n = .ok (min (b.initialSeconds * b.multiplier ^ (n - 1)) b.maximumSeconds) ↔
      b.multiplier ^ (n - 1) < 2 ^ 1024 ∨
      b.maximumSeconds ≤ b.initialSeconds * b.multiplier ^ (n - 1)) ∧
    ∃ d, b.delay (ε := ε) n = .ok d ∧ b.initialSeconds ≤ d ∧ d ≤ b.maximumSeconds ∧
      ∀ m d', n ≤ m → b.delay (ε := ε) m = .ok d' → d ≤ d' := by
  obtain ⟨d, hd⟩ := exists_delay (ε := ε) (b := b) hn
  refine ⟨?_, d, hd, (delay_bounds hd).1, (delay_bounds hd).2, fun m d' hnm h =>
    delay_mono hnm hd h⟩
  rw [hd]
  constructor
  · intro h
    obtain rfl : d = b.capped n := Except.ok.inj h
    rcases delay_cases hd with ⟨hlt, -⟩ | ⟨-, hmax⟩
    · exact .inl hlt
    · exact .inr (min_eq_right_iff.1 hmax)
  · intro h
    refine congrArg Except.ok ?_
    rcases delay_cases hd with ⟨-, hcap⟩ | ⟨hover, hmax⟩
    · exact hcap
    · rw [hmax, min_eq_right (h.resolve_left (not_lt.2 hover))]

/-- The default policy, after three failures. -/
theorem delay_default_capped : ∃ b : BackoffPolicy, b.initialSeconds = 1 ∧ b.maximumSeconds = 60 ∧
    b.multiplier = 2 ∧ b.delay (ε := Unit) 3 = .ok 4 := by
  refine ⟨{}, rfl, rfl, rfl, ?_⟩
  have hfour : min ((1 : ℚ) * 2 ^ (3 - 1)) 60 = 4 := by norm_num
  have hlt : (2 : ℚ) ^ (3 - 1) < 2 ^ 1024 := pow_lt_pow_right₀ one_lt_two (by norm_num)
  exact ((delay_capped_iff Unit {} (by decide)).1.2 (.inl hlt)).trans (congrArg Except.ok hfour)

/-- **Without an initial delay the maximum comes after an overflow.** -/
theorem delay_uncapped : ¬ ∀ (b : BackoffPolicy) (n : ℕ), 1 ≤ n →
    b.delay (ε := Unit) n =
    .ok (min (b.initialSeconds * b.multiplier ^ (n - 1)) b.maximumSeconds) := by
  intro h
  have hzero := h { initialSeconds := 0 } 1025 (by decide)
  rw [zero_mul] at hzero
  obtain ⟨hlt, -⟩ | ⟨-, hmax⟩ := delay_cases hzero
  · exact absurd hlt (lt_irrefl _)
  · norm_num at hmax

end BackoffPolicy

end DatasourceKit

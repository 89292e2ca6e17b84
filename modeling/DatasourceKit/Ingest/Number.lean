/-
  Python's floats, with exact rationals for the finite ones.

  * `PyFloat`: the arithmetic and the comparisons that the runtime uses on them;
  * `PyFloat.scale`: the product with an integer, which may be too large for a float.
-/
import Mathlib.Algebra.Order.Ring.Rat
import Mathlib.Algebra.Field.Rat

namespace DatasourceKit

inductive PyFloat where
  | nan
  | posInf
  | negInf
  | fin (q : ℚ)
deriving DecidableEq

namespace PyFloat

/-- `x < y`. -/
def lt : PyFloat → PyFloat → Bool
  | fin x, fin y => decide (x < y)
  | negInf, fin _ | negInf, posInf | fin _, posInf => true
  | _, _ => false

/-- `x <= y`. -/
def le : PyFloat → PyFloat → Bool
  | fin x, fin y => decide (x ≤ y)
  | negInf, fin _ | negInf, posInf | fin _, posInf | negInf, negInf | posInf, posInf => true
  | _, _ => false

/-- `min(x, y)`. -/
def min (x y : PyFloat) : PyFloat := if y.lt x then y else x

def neg : PyFloat → PyFloat
  | nan => nan
  | posInf => negInf
  | negInf => posInf
  | fin x => fin (-x)

def add : PyFloat → PyFloat → PyFloat
  | fin x, fin y => fin (x + y)
  | posInf, fin _ | fin _, posInf | posInf, posInf => posInf
  | negInf, fin _ | fin _, negInf | negInf, negInf => negInf
  | _, _ => nan

def sub (x y : PyFloat) : PyFloat := x.add y.neg

/-- An infinity of the sign of `x`; `nan` for zero. -/
def infinity (x : ℚ) : PyFloat := if 0 < x then posInf else if x < 0 then negInf else nan

/-- `x * y`, without a bound on finite values: where binary64 overflows to an infinity, the exact
    product stays finite. -/
def mul : PyFloat → PyFloat → PyFloat
  | fin x, fin y => fin (x * y)
  | fin x, posInf | posInf, fin x => infinity x
  | fin x, negInf | negInf, fin x => (infinity x).neg
  | posInf, posInf | negInf, negInf => posInf
  | posInf, negInf | negInf, posInf => negInf
  | _, _ => nan

/-- `x / y`, for `y` that is not zero. -/
def div : PyFloat → PyFloat → PyFloat
  | fin x, fin y => fin (x / y)
  | fin _, posInf | fin _, negInf => fin 0
  | posInf, fin y => infinity y
  | negInf, fin y => (infinity y).neg
  | _, _ => nan

/-- The first power of two that is too large for a float. -/
def tooLarge : ℕ := Nat.pow 2 1024

/-- `x * n`; `none` for an `OverflowError`: the integer is too large for a float. -/
def scale (x : PyFloat) (n : ℕ) : Option PyFloat :=
  if tooLarge ≤ n then none else some (x.mul (fin n))

@[simp] theorem lt_fin {x y : ℚ} : (fin x).lt (fin y) = decide (x < y) := rfl
@[simp] theorem le_fin {x y : ℚ} : (fin x).le (fin y) = decide (x ≤ y) := rfl
@[simp] theorem add_fin {x y : ℚ} : (fin x).add (fin y) = fin (x + y) := rfl
@[simp] theorem mul_fin {x y : ℚ} : (fin x).mul (fin y) = fin (x * y) := rfl
@[simp] theorem div_fin {x y : ℚ} : (fin x).div (fin y) = fin (x / y) := rfl

@[simp] theorem sub_fin {x y : ℚ} : (fin x).sub (fin y) = fin (x - y) := by
  simp [sub, neg, sub_eq_add_neg]

@[simp] theorem min_fin {x y : ℚ} : (fin x).min (fin y) = fin (Min.min x y) := by
  rw [min, lt_fin]
  rcases lt_or_ge y x with h | h
  · simp [h, min_eq_right h.le]
  · simp [not_lt.2 h, min_eq_left h]

theorem scale_eq_none {x : PyFloat} {n : ℕ} : x.scale n = none ↔ tooLarge ≤ n := by
  unfold scale
  split_ifs with h <;> simp [h]

theorem scale_of_lt {x : PyFloat} {n : ℕ} (h : n < tooLarge) : x.scale n = some (x.mul (fin n)) :=
  if_neg (not_le.2 h)

/-- A power of two is too large from the exponent 1024 on. -/
theorem tooLarge_le_pow {n : ℕ} : tooLarge ≤ 2 ^ n ↔ 1024 ≤ n :=
  Nat.pow_le_pow_iff_right (by decide)

end PyFloat

end DatasourceKit

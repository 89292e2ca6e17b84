/-
  One caller of a bucket: `acquire_waits_once`.

  * `LoneBucket`: the bucket with the readings of its clock and the sleeps so far; `LoneStep`:
    no other caller in between, and `sleep w` takes at least `w` seconds;
  * `available`: the tokens after the first reading.  A call returns after at most one sleep, of
    the time that the missing tokens take to accrue.
-/
import DatasourceKit.Ratelimit.TokenBucket

namespace DatasourceKit

open Interleave Interleave.Prog

/-- A bucket, the readings of its clock and the sleeps, the last ones first. -/
structure LoneBucket where
  bucket : BucketState
  readings : List ℚ := []
  sleeps : List ℚ := []

/-- What an operation does if there is no other caller. -/
def LoneStep : (o : BucketOp) → LoneBucket → Except ValueError o.Val → LoneBucket → Prop
  | .sleep w, l, r, l' => r = .ok () ∧ ∃ clock, l.bucket.clock + w ≤ clock ∧
      l' = { l with bucket := { l.bucket with clock := clock }, sleeps := w :: l.sleeps }
  | .monotonic, l, r, l' => ∃ now s, l.bucket.op 0 now .monotonic = some (r, s) ∧
      l' = { l with bucket := s, readings := now :: l.readings }
  | o, l, r, l' => ∃ now s, l.bucket.op 0 now o = some (r, s) ∧ l' = { l with bucket := s }

namespace TokenBucket
variable (b : TokenBucket)

/-- The tokens at a reading. -/
def available (s : BucketState) (now : ℚ) : ℚ := min b.capacity (s.tokens + (now - s.last) * b.rate)

/-- The operation can be performed, and there has been at most one sleep. -/
def Ready (o : BucketOp) (l : LoneBucket) : Prop :=
  (∃ r l', LoneStep o l r l') ∧ l.sleeps.length ≤ 1

variable {b} {tokens : ℚ} {l : LoneBucket} {E : ValueError → LoneBucket → Prop}

/-- What accrues while a caller waits is what it lacks. -/
theorem tokens_le_refill {had now later : ℚ} (hcap : tokens ≤ b.capacity)
    (h : now + (tokens - had) / b.rate ≤ later) :
    tokens ≤ min b.capacity (had + (later - now) * b.rate) := by
  have haccrued : (tokens - had) / b.rate * b.rate ≤ (later - now) * b.rate :=
    mul_le_mul_of_nonneg_right (by linarith) b.rate_pos.le
  rw [div_mul_cancel₀ _ b.rate_pos.ne'] at haccrued
  exact le_min hcap (by linarith)

/-- An operation that takes no time. -/
theorem always_lone {o : BucketOp} {Q : o.Val → LoneBucket → Prop} {v : o.Val} {s : BucketState}
    (ho : ∀ r l', LoneStep o l r l' ↔ ∃ now s, l.bucket.op 0 now o = some (r, s) ∧
      l' = { l with bucket := s })
    (hop : ∀ now, l.bucket.op 0 now o = some (.ok v, s)) (hs : l.sleeps.length ≤ 1)
    (hQ : Q v { l with bucket := s }) :
    (perform o).Always LoneStep Ready Q E l := by
  refine always_perform.2 ⟨⟨⟨.ok v, _, (ho _ _).2 ⟨0, s, hop 0, rfl⟩⟩, hs⟩,
    fun v' l' h => ?_, fun e l' h => ?_⟩
  · obtain ⟨now, s', hop', rfl⟩ := (ho _ _).1 h
    cases (hop now).symm.trans hop'
    exact hQ
  · obtain ⟨now, s', hop', -⟩ := (ho _ _).1 h
    cases (hop now).symm.trans hop'

/-- The locked section: it reads the clock and refills; then it grants, or answers how long the
    missing tokens take. -/
theorem always_tryAlone (hl : l.bucket.holder = none) (hs : l.sleeps.length ≤ 1) :
    (b.tryAcquire tokens).Always LoneStep Ready
      (fun w l' => ∃ now, l.bucket.clock ≤ now ∧ l'.readings = now :: l.readings ∧
        l'.sleeps = l.sleeps ∧ l'.bucket.holder = none ∧ l'.bucket.clock = now ∧
        l'.bucket.last = now ∧
        if tokens ≤ b.available l.bucket now then w = none
        else w = some ((tokens - b.available l.bucket now) / b.rate) ∧
        l'.bucket.tokens = b.available l.bucket now)
      E l := by
  refine always_bind.2 (always_lone (fun _ _ => Iff.rfl) (fun _ => if_pos hl) hs ?_)
  refine always_bind.2 (always_perform.2
    ⟨⟨⟨.ok l.bucket.clock, _, _, _, if_pos le_rfl, rfl⟩, hs⟩, ?_, ?_⟩)
  swap
  · rintro e l' ⟨now, s, h, -⟩
    simp [BucketState.op] at h
  rintro now l' ⟨now', s, h, rfl⟩
  simp only [BucketState.op, Option.ite_none_right_eq_some, Option.some.injEq,
    Prod.mk.injEq, Except.ok.injEq] at h
  obtain ⟨hnow, rfl, rfl⟩ := h
  refine always_bind.2 (always_lone (fun _ _ => Iff.rfl) (fun _ => rfl) hs ?_)
  refine always_bind.2 (always_lone (fun _ _ => Iff.rfl) (fun _ => rfl) hs ?_)
  refine always_bind.2 (always_lone (fun _ _ => Iff.rfl) (fun _ => rfl) hs ?_)
  refine always_bind.2 (always_lone (fun _ _ => Iff.rfl) (fun _ => rfl) hs ?_)
  refine always_bind.2 (always_lone (fun _ _ => Iff.rfl) (fun _ => rfl) hs ?_)
  split_ifs with hle
  · refine always_bind.2 (always_lone (fun _ _ => Iff.rfl) (fun _ => rfl) hs ?_)
    refine always_bind.2 (always_lone (fun _ _ => Iff.rfl) (fun _ => rfl) hs ?_)
    exact ⟨now', hnow, rfl, rfl, rfl, rfl, rfl, (if_pos hle).mpr rfl⟩
  · refine always_bind.2 (always_lone (fun _ _ => Iff.rfl) (fun _ => rfl) hs ?_)
    refine always_bind.2 (always_lone (fun _ _ => Iff.rfl) (fun _ => rfl) hs ?_)
    exact ⟨now', hnow, rfl, rfl, rfl, rfl, rfl, (if_neg hle).mpr ⟨rfl, rfl⟩⟩

/-- What a call returns: how long the tokens that were missing at its first reading take, and no
    more. -/
def WaitsOnce (b : TokenBucket) (tokens : ℚ) (s : BucketState) (w : Option ℚ)
    (l : LoneBucket) : Prop :=
  ∃ now, s.clock ≤ now ∧ l.readings.getLast? = some now ∧
    w = some (max 0 ((tokens - b.available s now) / b.rate)) ∧
    l.sleeps = if tokens ≤ b.available s now then [] else [(tokens - b.available s now) / b.rate]

theorem always_acquireAlone (hpos : 0 < tokens) (hcap : tokens ≤ b.capacity) {s : BucketState}
    (hs : s.holder = none) {rounds : ℕ} (hr : 2 ≤ rounds) :
    (b.acquire tokens rounds).Always LoneStep Ready (b.WaitsOnce tokens s)
    (fun _ _ => False) { bucket := s } := by
  obtain ⟨rounds, rfl⟩ := Nat.exists_eq_add_of_le' hr
  rw [acquire, if_neg (not_le.2 hpos), if_neg (not_lt.2 hcap)]
  refine always_bind.2 (always_bind.2
    ((always_tryAlone hs (Nat.zero_le _)).mono (fun _ _ h => h) ?_ fun _ _ h => h))
  rintro w l ⟨now, hnow, hread, hsleep, hfree, hclock, hlast, h⟩
  split_ifs at h with hle
  · obtain rfl := h
    refine ⟨now, hnow, by rw [hread]; rfl, ?_, by rw [hsleep, if_pos hle]⟩
    rw [max_eq_left (div_nonpos_of_nonpos_of_nonneg (by linarith) b.rate_pos.le)]
  obtain ⟨rfl, htokens⟩ := h
  have hwait : 0 < (tokens - b.available s now) / b.rate := div_pos (by linarith) b.rate_pos
  refine always_bind.2 (always_perform.2 ⟨⟨⟨.ok (), _, rfl, _, le_rfl, rfl⟩,
      by rw [hsleep]; exact Nat.zero_le _⟩, ?_, ?_⟩)
  swap
  · rintro e l' ⟨he, -⟩
    cases he
  rintro - l' ⟨-, later, hlater, rfl⟩
  -- the second locked section grants
  have hsecond : ((tokens - b.available s now) / b.rate :: l.sleeps).length ≤ 1 := by simp [hsleep]
  refine always_bind.2 (always_bind.2
    ((always_tryAlone (l := ⟨{ l.bucket with clock := later }, l.readings, _⟩) hfree
    hsecond).mono (fun _ _ h => h) ?_ fun _ _ h => h))
  rintro w l' ⟨now', hnow', hread', hsleep', -, -, -, h⟩
  rw [hclock] at hlater
  have henough : tokens ≤ b.available { l.bucket with clock := later } now' := by
    have hrefill := tokens_le_refill hcap (hlater.trans hnow')
    rw [available, hlast, htokens]
    exact hrefill
  rw [if_pos henough] at h
  subst h
  refine ⟨now, hnow, by rw [hread', hread]; rfl, ?_, ?_⟩
  · rw [zero_add, max_eq_right hwait.le]
  · rw [hsleep', hsleep, if_neg hle]

/-- **A call waits once and no longer than needed**: without other callers it never gets stuck,
    raises nothing, sleeps at most once, and returns what the tokens that were missing at the
    first reading take to accrue. -/
theorem acquire_waits_once (b : TokenBucket) {tokens : ℚ} (hpos : 0 < tokens)
    (hcap : tokens ≤ b.capacity) {s : BucketState}
    (hs : s.holder = none) {rounds : ℕ} (hr : 2 ≤ rounds) {l : LoneBucket}
    {p : BucketProg (Option ℚ)} (h : Steps LoneStep (b.acquire tokens rounds) { bucket := s } l p) :
    (∀ o k, p = .call o k → (∃ r l', LoneStep o l r l') ∧ l.sleeps.length ≤ 1) ∧
    (∀ e, p ≠ .raise e) ∧ ∀ w, p = .ret w → ∃ now, s.clock ≤ now ∧ l.readings.getLast? = some now ∧
        w = some (max 0 ((tokens - b.available s now) / b.rate)) ∧
        l.sleeps = if tokens ≤ b.available s now then
        [] else [(tokens - b.available s now) / b.rate] := by
  have hp := (always_acquireAlone hpos hcap hs hr).steps h
  refine ⟨?_, ?_, ?_⟩
  · rintro o k rfl
    exact hp.1
  · rintro e rfl
    exact hp
  · rintro w rfl
    exact hp

/-- The clock stands still but for sleeps, which take as long as they are asked to. -/
def loneAct : (o : BucketOp) → LoneBucket → Option (Except ValueError o.Val × LoneBucket)
  | .sleep w, l => some (.ok (),
      { l with bucket := { l.bucket with clock := l.bucket.clock + w }, sleeps := w :: l.sleeps })
  | .monotonic, l => (l.bucket.op 0 l.bucket.clock .monotonic).map fun x =>
      (x.1, { l with bucket := x.2, readings := l.bucket.clock :: l.readings })
  | o, l => (l.bucket.op 0 0 o).map fun x => (x.1, { l with bucket := x.2 })

theorem loneAct_spec (o : BucketOp) (l : LoneBucket) (r : Except ValueError o.Val) (l' : LoneBucket)
    (h : loneAct o l = some (r, l')) : LoneStep o l r l' := by
  cases o
  case sleep w =>
    cases h
    exact ⟨rfl, _, le_rfl, rfl⟩
  all_goals
    simp only [loneAct] at h
    obtain ⟨⟨r', s⟩, hop, hl⟩ := Option.map_eq_some_iff.1 h
    cases hl
    exact ⟨_, s, hop, rfl⟩

def unitBucket : TokenBucket := ⟨1, 1, one_pos, one_pos⟩

/-- One token, of an empty bucket that refills at one token a second. -/
def emptyBucket : BucketState := { BucketState.init unitBucket 0 with tokens := 0 }

def returns (w : ℚ) : Except ValueError (Option ℚ) × LoneBucket → Bool
  | (.ok (some v), _) => v == w
  | _ => false

theorem returns_spec {w : ℚ} {x : Except ValueError (Option ℚ) × LoneBucket}
    (h : returns w x = true) :
    x.1 = .ok (some w) := by
  unfold returns at h
  split at h
  · exact congrArg (fun v => Except.ok (some v)) (eq_of_beq h)
  · cases h

/-- The call waits a second. -/
theorem acquire_waits_second : ∃ l, Steps LoneStep (unitBucket.acquire 1 2) { bucket :=
    emptyBucket } l (.ret (some 1)) ∧
    ∃ now, l.readings.getLast? = some now ∧
    some 1 = some (max 0 ((1 - unitBucket.available emptyBucket now) / 1)) := by
  have hrun : (((unitBucket.acquire 1 2).drive loneAct { bucket := emptyBucket }).any (returns 1)) =
      true := by
    decide +kernel
  obtain ⟨⟨r, l⟩, hd, hr⟩ := (Option.any_eq_true _ _).1 hrun
  obtain rfl : r = .ok (some 1) := returns_spec hr
  have hsteps := Steps.of_drive loneAct_spec hd
  obtain ⟨now, -, hread, hw, -⟩ :=
    (acquire_waits_once unitBucket one_pos le_rfl rfl le_rfl hsteps).2.2 _ rfl
  exact ⟨l, hsteps, now, hread, hw⟩

end TokenBucket

end DatasourceKit

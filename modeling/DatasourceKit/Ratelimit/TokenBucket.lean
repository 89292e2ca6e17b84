/-
  `TokenBucket` (`ratelimit.py`): any number of threads draw on one bucket.

  * `TokenBucket.make`, `TokenBucket.acquire`: the source functions, over the lock, the
    clock, the two attributes and the sleep;
  * `TokenBucket.threads`: the threads.  They are scheduled in any order, and the clock
    reads anything that is not before the last reading;
  * `rate_bound`: the tokens stay within the capacity, and so do the amounts granted in
    any window of time, up to what accrues in it.
-/
import Mathlib.Algebra.Order.Ring.Rat
import Mathlib.Algebra.Field.Rat
import DatasourceKit.Interleave.History
import DatasourceKit.Interleave.Pool
import DatasourceKit.Ratelimit.Budget

namespace DatasourceKit

open Interleave Interleave.Prog Interleave.Machine Accrual

/-! ## The source functions -/

structure ValueError where
  msg : String

/-- A bucket; its two attributes that change are in `BucketState`. -/
structure TokenBucket where
  rate : ℚ
  capacity : ℚ
  rate_pos : 0 < rate
  capacity_pos : 0 < capacity

/-- The steps of `acquire`.  `enter` and `exit` are those of `with self._lock`, `take` is
    `self._tokens -= tokens`. -/
inductive BucketOp where
  | enter | exit
  | monotonic
  | getTokens | setTokens (x : ℚ) | take (tokens : ℚ)
  | getLast | setLast (x : ℚ)
  | sleep (seconds : ℚ)

abbrev BucketOp.Val : BucketOp → Type
  | monotonic | getTokens | getLast => ℚ
  | _ => Unit

abbrev BucketProg := Prog BucketOp.Val ValueError

namespace TokenBucket

/-- `__init__`, up to the first reading of the clock. -/
def make (rate capacity ratePerSec burst : Option ℚ) : Except ValueError TokenBucket :=
  match rate <|> ratePerSec, capacity <|> burst with
  | some rate, some capacity =>
    if h : rate ≤ 0 ∨ capacity ≤ 0 then .error ⟨"rate and capacity must be positive"⟩
    else .ok ⟨rate, capacity, lt_of_not_ge fun hr =>
      h (.inl hr), lt_of_not_ge fun hc => h (.inr hc)⟩
  | _, _ => .error ⟨"rate and capacity must be provided"⟩

/-- Every bucket is made of its own rate and capacity. -/
theorem make_self (b : TokenBucket) : make (some b.rate) (some b.capacity) none none = .ok b := by
  have h : ¬ (b.rate ≤ 0 ∨ b.capacity ≤ 0) :=
    not_or.2 ⟨not_le.2 b.rate_pos, not_le.2 b.capacity_pos⟩
  simp [make, h]

variable (b : TokenBucket)

/-- The locked section: `none` if it grants the tokens, else how long to wait. -/
def tryAcquire (tokens : ℚ) : BucketProg (Option ℚ) := do
  perform BucketOp.enter
  let now ← perform BucketOp.monotonic
  let elapsed := now - (← perform BucketOp.getLast)
  perform (BucketOp.setTokens (min b.capacity ((← perform BucketOp.getTokens) + elapsed * b.rate)))
  perform (BucketOp.setLast now)
  if tokens ≤ (← perform BucketOp.getTokens) then
    perform (BucketOp.take tokens)
    perform BucketOp.exit
    return none
  else
    let wait := (tokens - (← perform BucketOp.getTokens)) / b.rate
    perform BucketOp.exit
    return some wait

/-- One round of the `while True`. -/
def round (tokens waited : ℚ) : BucketProg (ℚ ⊕ ℚ) := do
  match ← b.tryAcquire tokens with
  | none => return .inr waited
  | some wait =>
    perform (BucketOp.sleep wait)
    return .inl (waited + wait)

/-- `acquire`, up to `rounds` rounds; `none` if it is still waiting then. -/
def acquire (tokens : ℚ) (rounds : ℕ) : BucketProg (Option ℚ) :=
  if tokens ≤ 0 then raise ⟨"tokens must be positive"⟩
  else if tokens > b.capacity then raise ⟨"tokens cannot exceed capacity"⟩
  else iterate (b.round tokens) rounds 0

end TokenBucket

/-! ## The threads -/

/-- A call of `acquire`. -/
structure Acquire where
  tokens : ℚ
  rounds : ℕ

/-- The lock, the attributes and the last reading of the clock.  No step reads `upTo`, the
    reading up to which the tokens are refilled, `grants`, the amounts taken with the
    readings at which they were, and `paid`, what the call of a thread has taken. -/
structure BucketState where
  holder : Option ℕ
  tokens : ℚ
  last : ℚ
  clock : ℚ
  upTo : ℚ
  grants : Ledger ℚ
  paid : ℕ → List ℚ

namespace BucketState
variable (s : BucketState)

/-- The effect of an operation of thread `i`; `now` is what the clock would read. -/
def op (i : ℕ) (now : ℚ) : (o : BucketOp) → Option (Except ValueError o.Val × BucketState)
  | .enter => if s.holder = none then some (.ok (), { s with holder := some i }) else none
  | .exit => some (.ok (), { s with holder := none })
  | .monotonic => if s.clock ≤ now then some (.ok now, { s with clock := now }) else none
  | .getTokens => some (.ok s.tokens, s)
  | .setTokens x => some (.ok (), { s with tokens := x, upTo := s.clock })
  | .take a => some (.ok (), { s with
      tokens := s.tokens - a, grants := (s.clock, a) :: s.grants
      paid := Function.update s.paid i (a :: s.paid i) })
  | .getLast => some (.ok s.last, s)
  | .setLast x => some (.ok (), { s with last := x })
  | .sleep _ => some (.ok (), s)

/-- A full bucket, made at the reading `now`. -/
def init (b : TokenBucket) (now : ℚ) : BucketState where
  holder := none
  tokens := b.capacity
  last := now
  clock := now
  upTo := now
  grants := []
  paid := fun _ => []

end BucketState

/-- The threads that share a bucket; one that is killed may keep the lock. -/
def TokenBucket.threads (b : TokenBucket) :
    Machine BucketOp.Val ValueError (Option ℚ) BucketState Acquire ℚ where
  code := fun k => b.acquire k.tokens k.rounds
  op := fun i now o s => s.op i now o
  start := fun i _ s => some { s with paid := Function.update s.paid i [] }
  finish := fun _ _ _ s => s
  die := fun _ s => s

/-! ## The view of one thread -/

/-- The attributes, as the holder of the lock sees them. -/
structure Attributes where
  tokens : ℚ
  last : ℚ
  clock : ℚ
  upTo : ℚ

structure BucketView where
  inside : Option Attributes
  paid : List ℚ

def BucketState.view (i : ℕ) (s : BucketState) : BucketView :=
  ⟨if s.holder = some i then some ⟨s.tokens, s.last, s.clock, s.upTo⟩ else none, s.paid i⟩

/-- The step of an operation on the view. -/
def BucketOp.upd : (o : BucketOp) → BucketView → Except ValueError o.Val → BucketView → Prop
  | .enter, l, .ok _, l' => ∃ x, x.last = x.upTo ∧ l' = { l with inside := some x }
  | .exit, l, .ok _, l' => l' = { l with inside := none }
  | .monotonic, l, .ok now, l' =>
    l' = { l with inside := l.inside.map fun x => { x with clock := now } }
  | .getTokens, l, .ok v, l' => l' = l ∧ ∀ x, l.inside = some x → v = x.tokens
  | .setTokens v, l, .ok _, l' =>
    l' = { l with inside := l.inside.map fun x => { x with tokens := v, upTo := x.clock } }
  | .take a, l, .ok _, l' =>
    l' = { l with inside := l.inside.map fun x =>
      { x with tokens := x.tokens - a }, paid := a :: l.paid }
  | .getLast, l, .ok v, l' => l' = l ∧ ∀ x, l.inside = some x → v = x.last
  | .setLast v, l, .ok _, l' => l' = { l with inside := l.inside.map fun x => { x with last := v } }
  | .sleep _, l, .ok _, l' => l' = l
  | _, _, .error _, _ => False

/-- When the code performs an operation. -/
def BucketOp.ok (b : TokenBucket) : BucketOp → BucketView → Prop
  | .monotonic, l => l.inside.isSome
  | .setTokens v, l => ∃ x, l.inside = some x ∧ x.last = x.upTo ∧
      v = min b.capacity (x.tokens + (x.clock - x.last) * b.rate)
  | .setLast v, l => ∃ x, l.inside = some x ∧ x.upTo = x.clock ∧ v = x.clock
  | .take a, l => ∃ x, l.inside = some x ∧ x.upTo = x.clock ∧ 0 < a ∧ a ≤ x.tokens
  | .exit, l => ∃ x, l.inside = some x ∧ x.last = x.upTo
  | _, _ => True

/-- What a call has taken at its end. -/
def Acquire.fin (k : Acquire) : Except ValueError (Option ℚ) → BucketView → Prop
  | .ok (some _), l => l.paid = [k.tokens]
  | _, l => l.paid = []

variable (b : TokenBucket)

/-- Performing an operation of a bucket, in terms of the view. -/
theorem always_bucketOp {o : BucketOp} {l : BucketView} {Q : o.Val → BucketView → Prop}
    {E : ValueError → BucketView → Prop} (hok : o.ok b l)
    (hQ : ∀ v l', o.upd l (.ok v) l' → Q v l') :
    (perform o).Always BucketOp.upd (BucketOp.ok b) Q E l := by
  refine always_perform.2 ⟨hok, hQ, fun e l' h => ?_⟩
  cases o <;> exact h.elim

theorem always_tryAcquire {tokens : ℚ} (hpos : 0 < tokens) {l : BucketView}
    {E : ValueError → BucketView → Prop} :
    (b.tryAcquire tokens).Always BucketOp.upd (BucketOp.ok b)
      (fun w l' => l'.paid = if w = none then tokens :: l.paid else l.paid) E l := by
  refine always_bind.2 (always_bucketOp b trivial ?_)
  rintro _ _ ⟨x, hx, rfl⟩
  refine always_bind.2 (always_bucketOp b rfl ?_)
  rintro now _ rfl
  refine always_bind.2 (always_bucketOp b trivial ?_)
  rintro last _ ⟨rfl, hlast⟩
  refine always_bind.2 (always_bucketOp b trivial ?_)
  rintro had _ ⟨rfl, hhad⟩
  obtain rfl : last = x.last := hlast { x with clock := now } rfl
  obtain rfl : had = x.tokens := hhad { x with clock := now } rfl
  refine always_bind.2 (always_bucketOp b ⟨_, rfl, hx, rfl⟩ ?_)
  rintro _ _ rfl
  refine always_bind.2 (always_bucketOp b ⟨_, rfl, rfl, rfl⟩ ?_)
  rintro _ _ rfl
  refine always_bind.2 (always_bucketOp b trivial ?_)
  rintro left _ ⟨rfl, htok⟩
  split_ifs with hle
  · refine always_bind.2 (always_bucketOp b ⟨_, rfl, rfl, hpos, htok _ rfl ▸ hle⟩ ?_)
    rintro _ _ rfl
    refine always_bind.2 (always_bucketOp b ⟨_, rfl, rfl⟩ ?_)
    rintro _ _ rfl
    exact rfl
  · refine always_bind.2 (always_bucketOp b trivial ?_)
    rintro left' _ ⟨rfl, -⟩
    refine always_bind.2 (always_bucketOp b ⟨_, rfl, rfl⟩ ?_)
    rintro _ _ rfl
    exact rfl

theorem always_acquire (k : Acquire) {l : BucketView} (hl : l.paid = []) :
    (b.acquire k.tokens k.rounds).Always BucketOp.upd (BucketOp.ok b) (fun v => k.fin (.ok v))
      (fun e => k.fin (.error e)) l := by
  unfold TokenBucket.acquire
  split_ifs with hpos hcap
  · exact hl
  · exact hl
  · refine always_iterate (I := fun _ l => l.paid = [])
      (fun waited l hl => ?_) (fun _ _ hl => hl) hl
    refine always_bind.2 (Always.mono (fun _ _ h => h) ?_ (fun _ _ h => h)
      (always_tryAcquire b (not_le.1 hpos)))
    rintro (_ | wait) l' hl'
    · simpa [hl, Acquire.fin] using hl'
    · refine always_bind.2 (always_bucketOp b trivial ?_)
      rintro _ _ rfl
      simpa [hl] using hl'

/-! ## The bound -/

/-- What holds between any two steps. -/
structure BucketInv (s : BucketState) : Prop where
  budget : Budget b.rate b.capacity s.grants s.tokens s.upTo
  upTo_le : s.upTo ≤ s.clock
  settled : s.holder = none → s.last = s.upTo

theorem BucketState.view_of_holder {s : BucketState} {i : ℕ} {x : Attributes}
    (h : (s.view i).inside = some x) :
    s.holder = some i ∧ x = ⟨s.tokens, s.last, s.clock, s.upTo⟩ := by
  simp only [view, Option.ite_none_right_eq_some, Option.some.injEq] at h
  exact ⟨h.1, h.2.symm⟩

/-- Steps of the holder of the lock change no other view. -/
theorem BucketState.view_frame {s s' : BucketState} {i j : ℕ} (hi : s.holder = some i)
    (hi' : s'.holder = some i ∨ s'.holder = none) (hp : s'.paid j = s.paid j) (hj : j ≠ i) :
    s'.view j = s.view j := by
  have h : s.holder ≠ some j := by rw [hi]; exact fun h => hj (Option.some.inj h).symm
  have h' : s'.holder ≠ some j := by
    rcases hi' with hi' | hi' <;> rw [hi']
    · exact fun h => hj (Option.some.inj h).symm
    · exact fun h => by cases h
  simp only [view, hp, if_neg h, if_neg h']

variable {b}

/-- One operation keeps the invariant, moves the view of its thread by `upd`, and no other
    view. -/
theorem BucketInv.op {s s' : BucketState} (h : BucketInv b s) {i : ℕ} {now : ℚ} {o : BucketOp}
    {r : Except ValueError o.Val} (hok : o.ok b (s.view i)) (hop : s.op i now o = some (r, s')) :
    BucketInv b s' ∧ o.upd (s.view i) r (s'.view i) ∧ ∀ j ≠ i, s'.view j = s.view j := by
  cases o with
  | enter =>
    simp only [BucketState.op, Option.ite_none_right_eq_some,
      Option.some.injEq, Prod.mk.injEq] at hop
    obtain ⟨hfree, rfl, rfl⟩ := hop
    refine ⟨⟨h.budget, h.upTo_le, fun hn => by cases hn⟩,
      ⟨⟨s.tokens, s.last, s.clock, s.upTo⟩, h.settled hfree, ?_⟩, fun j hj => ?_⟩
    · simp [BucketState.view]
    · simp [BucketState.view, hfree, Ne.symm hj]
  | exit =>
    simp only [BucketState.op, Option.some.injEq, Prod.mk.injEq] at hop
    obtain ⟨rfl, rfl⟩ := hop
    obtain ⟨x, hx, hlast⟩ := hok
    obtain ⟨hi, rfl⟩ := BucketState.view_of_holder hx
    refine ⟨⟨h.budget, h.upTo_le, fun _ => hlast⟩, ?_, fun j hj =>
      BucketState.view_frame hi (.inr rfl) rfl hj⟩
    simp [BucketOp.upd, BucketState.view]
  | monotonic =>
    simp only [BucketState.op, Option.ite_none_right_eq_some,
      Option.some.injEq, Prod.mk.injEq] at hop
    obtain ⟨hnow, rfl, rfl⟩ := hop
    obtain ⟨x, hx⟩ := Option.isSome_iff_exists.1 hok
    obtain ⟨hi, rfl⟩ := BucketState.view_of_holder hx
    refine ⟨⟨h.budget, h.upTo_le.trans hnow, h.settled⟩, ?_, fun j hj =>
      BucketState.view_frame hi (.inl hi) rfl hj⟩
    simp [BucketOp.upd, BucketState.view, hi]
  | getTokens =>
    simp only [BucketState.op, Option.some.injEq, Prod.mk.injEq] at hop
    obtain ⟨rfl, rfl⟩ := hop
    refine ⟨h, ⟨rfl, fun x hx => ?_⟩, fun _ _ => rfl⟩
    obtain ⟨-, rfl⟩ := BucketState.view_of_holder hx
    rfl
  | getLast =>
    simp only [BucketState.op, Option.some.injEq, Prod.mk.injEq] at hop
    obtain ⟨rfl, rfl⟩ := hop
    refine ⟨h, ⟨rfl, fun x hx => ?_⟩, fun _ _ => rfl⟩
    obtain ⟨-, rfl⟩ := BucketState.view_of_holder hx
    rfl
  | sleep seconds =>
    simp only [BucketState.op, Option.some.injEq, Prod.mk.injEq] at hop
    obtain ⟨rfl, rfl⟩ := hop
    exact ⟨h, rfl, fun _ _ => rfl⟩
  | setTokens v =>
    simp only [BucketState.op, Option.some.injEq, Prod.mk.injEq] at hop
    obtain ⟨rfl, rfl⟩ := hop
    obtain ⟨x, hx, hlast, rfl⟩ := hok
    obtain ⟨hi, rfl⟩ := BucketState.view_of_holder hx
    refine ⟨⟨?_, le_rfl, fun hn => ?_⟩, ?_, fun j hj => BucketState.view_frame hi (.inl hi) rfl hj⟩
    · dsimp only at hlast ⊢
      rw [hlast]
      exact h.budget.accrue b.rate_pos.le h.upTo_le
    · cases hi.symm.trans hn
    · simp [BucketOp.upd, BucketState.view, hi]
  | setLast v =>
    simp only [BucketState.op, Option.some.injEq, Prod.mk.injEq] at hop
    obtain ⟨rfl, rfl⟩ := hop
    obtain ⟨x, hx, hupTo, rfl⟩ := hok
    obtain ⟨hi, rfl⟩ := BucketState.view_of_holder hx
    refine ⟨⟨h.budget, h.upTo_le, fun hn => ?_⟩, ?_, fun j hj =>
      BucketState.view_frame hi (.inl hi) rfl hj⟩
    · cases hi.symm.trans hn
    · simp [BucketOp.upd, BucketState.view, hi]
  | take a =>
    simp only [BucketState.op, Option.some.injEq, Prod.mk.injEq] at hop
    obtain ⟨rfl, rfl⟩ := hop
    obtain ⟨x, hx, hupTo, hpos, hle⟩ := hok
    obtain ⟨hi, rfl⟩ := BucketState.view_of_holder hx
    refine ⟨⟨?_, h.upTo_le, fun hn => ?_⟩, ?_, fun j hj =>
      BucketState.view_frame hi (.inl hi) (Function.update_of_ne hj ..) hj⟩
    · dsimp only at hupTo ⊢
      rw [← hupTo]
      exact h.budget.grant b.rate_pos.le hpos.le hle
    · cases hi.symm.trans hn
    · simp [BucketOp.upd, BucketState.view, hi]

theorem bucket_rely : Rely b.threads (fun _ _ => True) (BucketInv b) BucketState.view BucketOp.upd
    (BucketOp.ok b) Acquire.fin where
  start := by
    intro c i k s _ hI _ hs
    cases hs
    refine ⟨⟨hI.budget, hI.upTo_le, hI.settled⟩, always_acquire b k (Function.update_self ..),
      fun j hj => ?_⟩
    simp only [BucketState.view, Function.update_of_ne hj]
  op := fun c i now k o f r s _ hI _ hok hop => hI.op hok hop
  finish := fun c i k r _ hI _ _ => ⟨hI, fun _ _ => rfl⟩
  die := fun c i _ hI => ⟨hI, fun _ _ => rfl⟩

theorem bucketInv_init (b : TokenBucket) (now : ℚ) : BucketInv b (.init b now) where
  budget := .full b.rate_pos.le b.capacity_pos.le now
  upTo_le := le_rfl
  settled := fun _ => rfl

/-- **The rate bound**: however the threads are scheduled, the stored tokens stay between 0
    and the capacity, in any window of time at most the capacity and what accrues in the
    window is granted, and a call that returns has been granted its amount, once. -/
theorem rate_bound (b : TokenBucket) (now : ℚ)
    {c : Cfg BucketOp.Val ValueError (Option ℚ) BucketState Acquire}
    (h : b.threads.Reach (fun _ _ => True) (idle (.init b now)) c) :
    0 ≤ c.sh.tokens ∧ c.sh.tokens ≤ b.capacity ∧
      (∀ s t, s ≤ t → granted c.sh.grants s t ≤ b.capacity + b.rate * (t - s)) ∧
      ∀ i k waited, c.run i = some (k, .ret (some waited)) → c.sh.paid i = [k.tokens] := by
  obtain ⟨hI, hfits⟩ := bucket_rely.inv (bucketInv_init b now) h
  exact ⟨hI.budget.nonneg, hI.budget.le_capacity, hI.budget.window, fun i k waited hr =>
    hfits i k _ hr⟩

/-- One token a second, and at most two. -/
def slowBucket : TokenBucket := ⟨1, 2, by norm_num, by norm_num⟩

/-- A thread takes both tokens of the bucket at once. -/
theorem rate_bound_drained : ∃ c : Cfg BucketOp.Val ValueError (Option ℚ) BucketState Acquire,
    slowBucket.threads.Reach (fun _ _ => True) (idle (.init slowBucket 0)) c ∧ c.sh.tokens = 0 ∧
      c.sh.paid 0 = [2] ∧ ∀ s t, s ≤ t → granted c.sh.grants s t ≤ 2 + 1 * (t - s) := by
  obtain ⟨c, hc, hb, -⟩ :=
    Reach.exists_of_run slowBucket.threads (idle (.init slowBucket 0)) (fun _ _ => true)
    (.start 0 ⟨2, 1⟩ :: List.replicate 9 (.op 0 3))
    (fun c => c.sh.tokens == 0 && (c.sh.paid 0 == [2])) (fun _ _ _ => trivial) (by decide +kernel)
  simp only [Bool.and_eq_true, beq_iff_eq] at hb
  exact ⟨c, hc, hb.1, hb.2, (rate_bound slowBucket 0 hc).2.2.1⟩

end DatasourceKit

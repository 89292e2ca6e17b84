/-
  `retry` (`retry.py`): calling a function again after an exception.

  * `Arith`: the arithmetic of the delays, exact (`Arith.exact`) or with floats (`Arith.floats`);
  * `delaySeconds`, `retry`: the source functions;
  * `retryRun`: a run against a stream of outcomes; `retry_runs`: what it calls, how long it
    sleeps in between and how it ends;
  * `retry_trace`: over exact arithmetic this is the documented trace; `retry_keeps_iff`: with
    floats the source's own error survives exactly where no delay overflows or is refused;
    `retry_error_lost`: else it does not.
-/
import Mathlib.Data.ENat.Lattice
import Mathlib.Data.Nat.Cast.Order.Basic
import DatasourceKit.Ingest.Number
import DatasourceKit.Interleave.History

namespace DatasourceKit

open Interleave Interleave.Prog

/-! ## The source functions -/

/-- The exceptions of the ingest runtime: those that it raises itself, an interrupt, and the
    others.  A run that still waits for tokens when it is cut off ends with `waiting`. -/
inductive RunExc (ε : Type) where
  | value (msg : String)
  | overflow
  | assertion (msg : String)
  | type (msg : String)
  | key (name : String)
  | profile (msg : String)
  | registry (msg : String)
  | step (msg : String)
  | interrupt
  | waiting
  | consumer (e : ε)

/-- The arithmetic of delays; `scale` is the product with an integer. -/
structure Arith (ε F : Type) where
  scale : F → ℕ → Except (RunExc ε) F
  min : F → F → F

/-- Exact arithmetic. -/
def Arith.exact (ε : Type) : Arith ε ℚ := ⟨fun x n => .ok (x * n), Min.min⟩

/-- Floats. -/
def Arith.floats (ε : Type) : Arith ε PyFloat :=
  ⟨fun x n => (x.scale n).elim (.error .overflow) .ok, PyFloat.min⟩

/-- The arguments of `retry`; `retryOn` are the exceptions that match. -/
structure RetryPolicy (ε F : Type) where
  retries : ℤ
  backoffSeconds : F
  backoff : String := "linear"
  maxBackoffSeconds : Option F := none
  retryOn : RunExc ε → Bool

section
variable {ε F T : Type} {M : Type → Type} [Monad M] [MonadExcept (RunExc ε) M]
  (N : Arith ε F) (p : RetryPolicy ε F)

/-- `_delay_seconds`. -/
def delaySeconds (attempt : ℕ) : Except (RunExc ε) F := do
  let product := if p.backoff = "linear" then N.scale p.backoffSeconds (attempt + 1)
    else N.scale p.backoffSeconds (2 ^ attempt)
  let delay ← product
  match p.maxBackoffSeconds with
  | some cap => return N.min delay cap
  | none => return delay

theorem delaySeconds_eq (attempt : ℕ) : delaySeconds N p attempt =
    (if p.backoff = "linear" then N.scale p.backoffSeconds (attempt + 1) else
        N.scale p.backoffSeconds (2 ^ attempt)).map
      fun d => p.maxBackoffSeconds.elim d (N.min d) := by
  unfold delaySeconds
  dsimp only
  cases if p.backoff = "linear" then N.scale p.backoffSeconds (attempt + 1) else
      N.scale p.backoffSeconds (2 ^ attempt) with
  | error e => rfl
  | ok d => cases p.maxBackoffSeconds <;> rfl

/-- The loop of `retry` from the attempt `i` on; `n` attempts are left. -/
def attemptFrom (sleep : F → M Unit) (fn : M T) : (i n : ℕ) → M T
  | _, 0 => throw (.assertion "unreachable")
  | i, n + 1 =>
    if n = 0 then fn
    else tryCatch fn fun e =>
      if p.retryOn e then do
        sleep (← MonadExcept.ofExcept (delaySeconds N p i))
        attemptFrom sleep fn (i + 1) n
      else throw e

def retry (sleep : F → M Unit) (fn : M T) : M T := attemptFrom N p sleep fn 0 p.retries.toNat

end

/-! ## A run -/

/-- The calls of a run. -/
inductive RetryOp (F : Type) where
  | call
  | sleep (seconds : F)

abbrev RetryOp.Val {F : Type} (T : Type) : RetryOp F → Type
  | call => T
  | sleep _ => Unit

section
variable {ε F T : Type}

abbrev RetryHist (ε F T : Type) := Hist (RetryOp.Val (F := F) T) (RunExc ε)

def RetryOp.isCall : RetryOp F → Bool
  | call => true
  | sleep _ => false

/-- The function has the outcomes `o`, one after the other; `refuses` is the exception with which
    a sleep is refused. -/
def outcomes (o : ℕ → Except (RunExc ε) T) (refuses : F → Option (RunExc ε)) :
    (op : RetryOp F) → RetryHist ε F T → Except (RunExc ε) (op.Val T)
  | .call, t => o (t.countP fun e => e.1.isCall)
  | .sleep seconds, _ => (refuses seconds).elim (.ok ()) .error

/-- The run of `retry` against a stream of outcomes: how it ends, and its calls, the last one
    first. -/
def retryRun (N : Arith ε F) (p : RetryPolicy ε F) (o : ℕ → Except (RunExc ε) T)
    (refuses : F → Option (RunExc ε)) :
    Except (RunExc ε) T × RetryHist ε F T :=
  (retry N p (fun d => perform (RetryOp.sleep d)) (perform RetryOp.call)).exec
    (outcomes o refuses) []

/-- The outcome is an exception that matches. -/
def RetryPolicy.Retries (p : RetryPolicy ε F) (r : Except (RunExc ε) T) : Prop :=
  ∃ e, r = .error e ∧ p.retryOn e = true

/-- `i` calls, each with a sleep after it. -/
def paused (o : ℕ → Except (RunExc ε) T) (delay : ℕ → F) : ℕ → RetryHist ε F T
  | 0 => []
  | i + 1 => ⟨.sleep (delay i), .ok ()⟩ :: ⟨.call, o i⟩ :: paused o delay i

variable {N : Arith ε F} {p : RetryPolicy ε F} {o : ℕ → Except (RunExc ε) T}
  {refuses : F → Option (RunExc ε)} {delay : ℕ → F} {i n : ℕ}

theorem calls_paused : (paused o delay i).countP (fun e => e.1.isCall) = i := by
  induction i with
  | zero => rfl
  | succ i ih =>
    rw [paused, List.countP_cons, List.countP_cons, ih]
    rfl

/-- A call of the function, in a run. -/
theorem exec_call {α : Type}
    {k : Except (RunExc ε) T → Prog (RetryOp.Val (F := F) T) (RunExc ε) α} :
    (Prog.call RetryOp.call k).exec (outcomes o refuses) (paused o delay i) =
      (k (o i)).exec (outcomes o refuses) (⟨.call, o i⟩ :: paused o delay i) := by
  have hcall : outcomes o refuses .call (paused o delay i) = o i := congrArg o calls_paused
  rw [exec, hcall]

/-- A sleep that is not refused, in a run. -/
theorem exec_accepted {α : Type} {d : F} {q : Prog (RetryOp.Val (F := F) T) (RunExc ε) α}
    {t : RetryHist ε F T} (h : refuses d = none) :
    ((perform (RetryOp.sleep d)).bind fun _ => q).exec (outcomes o refuses) t =
    q.exec (outcomes o refuses) (⟨.sleep d, .ok ()⟩ :: t) := by
  have hsleep : outcomes o refuses (.sleep d) t = .ok () := by
    rw [outcomes, h]
    rfl
  simp only [perform, Prog.bind, exec, hsleep]

/-- A sleep that is refused ends the run. -/
theorem exec_refused {α : Type} {d : F} {q : Prog (RetryOp.Val (F := F) T) (RunExc ε) α}
    {t : RetryHist ε F T} {e : RunExc ε} (h : refuses d = some e) :
    ((perform (RetryOp.sleep d)).bind fun _ => q).exec (outcomes o refuses) t =
      (.error e, ⟨.sleep d, .error e⟩ :: t) := by
  have hsleep : outcomes o refuses (.sleep d) t = .error e := by
    rw [outcomes, h]
    rfl
  simp only [perform, Prog.bind, exec, hsleep]

/-- After the attempt `m` there is another one. -/
structure GoesOn (N : Arith ε F) (p : RetryPolicy ε F) (o : ℕ → Except (RunExc ε) T)
    (refuses : F → Option (RunExc ε)) (delay : ℕ → F) (m : ℕ) : Prop where
  retries : p.Retries (o m)
  delays : delaySeconds N p m = .ok (delay m)
  accepted : refuses (delay m) = none

/-- How a run ends whose last possible attempt is `last`: with the outcome of an attempt, or in
    the handler of one, at its delay or at its sleep. -/
inductive RetryEnds (N : Arith ε F) (p : RetryPolicy ε F) (o : ℕ → Except (RunExc ε) T)
    (refuses : F → Option (RunExc ε)) (delay : ℕ → F) (last : ℕ) :
    Except (RunExc ε) T × RetryHist ε F T → Prop
  | done {j} (hprev : ∀ m < j, GoesOn N p o refuses delay m) (hj : j ≤ last)
    (hend : j = last ∨ ¬ p.Retries (o j)) :
      RetryEnds N p o refuses delay last (o j, ⟨.call, o j⟩ :: paused o delay j)
  | overflows {j e} (hprev : ∀ m < j, GoesOn N p o refuses delay m) (hj : j < last)
    (hr : p.Retries (o j)) (he : delaySeconds N p j = .error e) :
      RetryEnds N p o refuses delay last (.error e, ⟨.call, o j⟩ :: paused o delay j)
  | refused {j e} (hprev : ∀ m < j, GoesOn N p o refuses delay m) (hj : j < last)
    (hr : p.Retries (o j)) (he : refuses (delay j) = some e) :
      RetryEnds N p o refuses delay last
        (.error e, ⟨.sleep (delay j), .error e⟩ :: ⟨.call, o j⟩ :: paused o delay j)

/-- The attempts from `i` on. -/
theorem attempts_end (hdelay : ∀ m d, delaySeconds N p m = .ok d → d = delay m)
    (hprev : ∀ m < i, GoesOn N p o refuses delay m) :
    RetryEnds N p o refuses delay (i + n) ((attemptFrom N p (fun d => perform (RetryOp.sleep d))
      (perform (RetryOp.call : RetryOp F)) i (n + 1)).exec (outcomes o refuses)
      (paused o delay i)) := by
  induction n generalizing i with
  | zero =>
    have hlast : (attemptFrom N p (fun d => perform (RetryOp.sleep d))
        (perform (RetryOp.call : RetryOp F)) i 1).exec
        (outcomes o refuses) (paused o delay i) = (o i, ⟨.call, o i⟩ :: paused o delay i) := by
      rw [attemptFrom, if_pos rfl, perform, exec_call]
      cases o i <;> rfl
    rw [hlast]
    exact .done hprev le_rfl (.inl rfl)
  | succ n ih =>
    rw [attemptFrom, if_neg (by omega), tryCatch_eq, perform, handle, exec_call]
    cases hr : o i with
    | ok v =>
      have hend : ¬ p.Retries (o i) := by
        rintro ⟨e, he, -⟩
        rw [hr] at he
        cases he
      have hdone : RetryEnds N p o refuses delay (i + (n + 1)) (o i, _) :=
        .done hprev (by omega) (.inr hend)
      rw [hr] at hdone
      exact hdone
    | error e =>
      simp only [handle]
      split_ifs with he
      · have hretries : p.Retries (o i) := ⟨e, hr, he⟩
        cases hd : delaySeconds N p i with
        | error e' =>
          have hover : RetryEnds N p o refuses delay (i + (n + 1))
              (_, ⟨.call, o i⟩ :: paused o delay i) :=
            .overflows hprev (by omega) hretries hd
          rw [hr] at hover
          exact hover
        | ok d =>
          obtain rfl := hdelay i d hd
          change RetryEnds N p o refuses delay (i + (n + 1))
              (((perform (RetryOp.sleep (delay i))).bind fun _ =>
            attemptFrom N p _ _ (i + 1) (n + 1)).exec (outcomes o refuses) (⟨.call, .error e⟩ ::
            paused o delay i))
          cases hs : refuses (delay i) with
          | some e' =>
            have hrefused : RetryEnds N p o refuses delay (i + (n + 1))
                (_, _ :: ⟨.call, o i⟩ :: paused o delay i) :=
              .refused hprev (by omega) hretries hs
            rw [hr] at hrefused
            rw [exec_refused hs]
            exact hrefused
          | none =>
            have hpaused : paused o delay (i + 1) =
                ⟨.sleep (delay i), .ok ()⟩ :: ⟨.call, .error e⟩ :: paused o delay i := by
              rw [paused, hr]
            rw [exec_accepted hs, ← hpaused, show i + (n + 1) = i + 1 + n by omega]
            refine ih fun m hm => ?_
            rcases Nat.lt_succ_iff_lt_or_eq.1 hm with hm | rfl
            · exact hprev m hm
            · exact ⟨hretries, hd, hs⟩
      · have hend : ¬ p.Retries (o i) := by
          rintro ⟨e', he', hm⟩
          rw [hr] at he'
          cases he'
          exact he hm
        have hdone : RetryEnds N p o refuses delay (i + (n + 1)) (o i, _) :=
          .done hprev (by omega) (.inr hend)
        rw [hr] at hdone
        exact hdone

/-- **What a run does**: it ends at one of the first `retries` attempts, after a sleep after each
    attempt before it. -/
theorem retry_runs (hdelay : ∀ m d, delaySeconds N p m = .ok d → d = delay m) (hn : 1 ≤ p.retries) :
    RetryEnds N p o refuses delay (p.retries.toNat - 1) (retryRun N p o refuses) := by
  have hend : RetryEnds N p o refuses delay (0 + (p.retries.toNat - 1)) _ :=
    attempts_end hdelay fun m hm => by omega
  rw [Nat.zero_add, Nat.sub_add_cancel (by omega)] at hend
  exact hend

end

/-! ## Exact arithmetic -/

section
variable {ε T : Type}

/-- The documented delay after the attempt `i`. -/
def exactDelay (p : RetryPolicy ε ℚ) (i : ℕ) : ℚ :=
  let delay := if p.backoff = "linear" then p.backoffSeconds * (i + 1) else p.backoffSeconds * 2 ^ i
  match p.maxBackoffSeconds with
  | some cap => Min.min delay cap
  | none => delay

theorem delaySeconds_exact (p : RetryPolicy ε ℚ) (i : ℕ) :
    delaySeconds (.exact ε) p i = .ok (exactDelay p i) := by
  rw [delaySeconds_eq, exactDelay]
  split_ifs <;> cases p.maxBackoffSeconds <;> simp [Arith.exact, Except.map]

/-- The position, from 1 on, of the first outcome that is no matching exception. -/
noncomputable def firstFinal {F : Type} (p : RetryPolicy ε F) (o : ℕ → Except (RunExc ε) T) : ℕ∞ :=
  ⨅ (i : ℕ) (_ : ¬ p.Retries (o i)), ((i + 1 : ℕ) : ℕ∞)

/-- How many calls there are. -/
theorem calls_eq_min {F : Type} {p : RetryPolicy ε F} {o : ℕ → Except (RunExc ε) T} {j n : ℕ}
    (hprev : ∀ m < j, p.Retries (o m)) (hj : j < n) (hend : j + 1 = n ∨ ¬ p.Retries (o j)) :
    ((j + 1 : ℕ) : ℕ∞) = min (n : ℕ∞) (firstFinal p o) := by
  have hfinal : ((j + 1 : ℕ) : ℕ∞) ≤ firstFinal p o := by
    refine le_iInf₂ fun i hi => Nat.cast_le.2 (Nat.succ_le_succ ?_)
    by_contra hlt
    exact hi (hprev i (by omega))
  rcases hend with rfl | hno
  · exact (min_eq_left hfinal).symm
  · have heq : firstFinal p o = ((j + 1 : ℕ) : ℕ∞) := le_antisymm (iInf₂_le j hno) hfinal
    rw [heq, min_eq_right (Nat.cast_le.2 hj)]

/-- **The trace of `retry`** over exact arithmetic: `min(retries, n)` calls, where the `n`-th
    outcome is the first that is no matching exception, after every one but the last a sleep of
    the documented length, and the last outcome as the result. -/
theorem retry_trace (p : RetryPolicy ε ℚ) (o : ℕ → Except (RunExc ε) T)
    {refuses : ℚ → Option (RunExc ε)} (hn : 1 ≤ p.retries)
    (hsleep : ∀ i : ℕ, (i : ℤ) + 1 < p.retries → (∀ m ≤ i, p.Retries (o m)) →
      refuses (exactDelay p i) = none) :
    ∃ j : ℕ, ((j + 1 : ℕ) : ℕ∞) = min (p.retries.toNat : ℕ∞) (firstFinal p o) ∧
      retryRun (.exact ε) p o refuses = (o j, ⟨.call, o j⟩ :: paused o (exactDelay p) j) := by
  have hruns : RetryEnds (.exact ε) p o refuses _ _ _ :=
    retry_runs (fun m d hd => Except.ok.inj (hd.symm.trans (delaySeconds_exact p m))) hn
  generalize retryRun (.exact ε) p o refuses = x at hruns
  cases hruns with
  | @done j hprev hj hend =>
    refine ⟨j, calls_eq_min (fun m hm => (hprev m hm).retries) (by omega)
      (hend.imp_left fun h => by omega), rfl⟩
  | overflows hprev hj hr he =>
    rw [delaySeconds_exact] at he
    cases he
  | @refused j e hprev hj hr he =>
    have hretries : ∀ m ≤ j, p.Retries (o m) := fun m hm =>
      (Nat.lt_or_eq_of_le hm).elim (fun hlt => (hprev m hlt).retries) fun heq => heq ▸ hr
    rw [hsleep j (by omega) hretries] at he
    cases he

end

/-- Up to five attempts, and every exception matches. -/
def fivefold : RetryPolicy Unit ℚ := ⟨5, 1, "linear", none, fun _ => true⟩

/-- The third attempt succeeds. -/
def thirdTime (i : ℕ) : Except (RunExc Unit) ℕ := if i < 2 then .error (.consumer ()) else .ok i

theorem retry_trace_third : ∃ j : ℕ, ((j + 1 : ℕ) : ℕ∞) =
    min ((5 : ℤ).toNat : ℕ∞) (firstFinal fivefold thirdTime) ∧
    retryRun (.exact Unit) fivefold thirdTime (fun _ => none) =
    (thirdTime j, ⟨.call, thirdTime j⟩ :: paused thirdTime (exactDelay fivefold) j) :=
  retry_trace fivefold thirdTime (by decide) fun _ _ _ => rfl

/-! ## Floats -/

section
variable {ε T : Type} {p : RetryPolicy ε PyFloat} {e : ℕ → RunExc ε}
  {refuses : PyFloat → Option (RunExc ε)} {m : ℕ}

/-- The exponential delay after the attempt `i`, if it does not overflow. -/
def floatDelay (p : RetryPolicy ε PyFloat) (i : ℕ) : PyFloat :=
  let delay := p.backoffSeconds.mul (.fin ((2 ^ i : ℕ) : ℚ))
  match p.maxBackoffSeconds with
  | some cap => delay.min cap
  | none => delay

/-- A delay overflows from the attempt 1024 on. -/
theorem delaySeconds_floats (hexp : p.backoff ≠ "linear") :
    delaySeconds (.floats ε) p m = if m < 1024 then .ok (floatDelay p m) else .error .overflow := by
  rw [delaySeconds_eq, if_neg hexp, Arith.floats]
  dsimp only
  split_ifs with hm
  · rw [PyFloat.scale_of_lt (not_le.1 fun h => absurd (PyFloat.tooLarge_le_pow.1 h) (by omega)),
      floatDelay]
    cases p.maxBackoffSeconds <;> rfl
  · rw [PyFloat.scale_eq_none.2 (PyFloat.tooLarge_le_pow.2 (by omega))]
    rfl

theorem delaySeconds_floats_error {e : RunExc ε} (h : delaySeconds (.floats ε) p m = .error e) :
    e = .overflow := by
  have hproduct {n : ℕ} {f : PyFloat → PyFloat}
      (h : ((Arith.floats ε).scale p.backoffSeconds n).map f = .error e) :
      e = .overflow := by
    simp only [Arith.floats] at h
    cases hs : p.backoffSeconds.scale n with
    | none =>
      rw [hs] at h
      exact (Except.error.inj h).symm
    | some d =>
      rw [hs] at h
      cases h
  rw [delaySeconds_eq] at h
  split_ifs at h
  · exact hproduct h
  · exact hproduct h

theorem length_paused {F : Type} {o : ℕ → Except (RunExc ε) T} {delay : ℕ → F} {i : ℕ} :
    (paused o delay i).length = 2 * i := by
  induction i with
  | zero => rfl
  | succ i ih =>
    rw [paused, List.length_cons, List.length_cons, ih]
    omega

/-- All attempts are made, and the last exception is raised. -/
def KeepsError (T : Type) (p : RetryPolicy ε PyFloat) (e : ℕ → RunExc ε)
    (refuses : PyFloat → Option (RunExc ε)) : Prop :=
  let o := fun i => (.error (e i) : Except (RunExc ε) T)
  let last := p.retries.toNat - 1
  retryRun (.floats ε) p o refuses = (o last, ⟨.call, o last⟩ :: paused o (floatDelay p) last)

/-- A run against exceptions that all match makes all attempts, or overflows, or is refused a
    sleep. -/
theorem floats_end (hn : 1 ≤ p.retries) (hexp : p.backoff ≠ "linear")
    (he : ∀ i, p.retryOn (e i) = true) :
    (KeepsError T p e refuses ∧ ∀ m < p.retries.toNat - 1, m < 1024 ∧
      refuses (floatDelay p m) = none) ∨
    (1025 < p.retries ∧ (retryRun (T := T) (.floats ε) p (fun i => .error (e i)) refuses).1 =
      .error .overflow ∧ ¬ KeepsError T p e refuses) ∨
    ((∃ m < p.retries.toNat - 1, refuses (floatDelay p m) ≠ none) ∧
      ¬ KeepsError T p e refuses) := by
  have hdelay : ∀ m d, delaySeconds (.floats ε) p m = .ok d → d = floatDelay p m := by
    intro m d hd
    rw [delaySeconds_floats hexp] at hd
    split_ifs at hd
    exact (Except.ok.inj hd).symm
  have hruns : RetryEnds (T := T) (.floats ε) p (fun i => .error (e i)) refuses _ _ _ :=
    retry_runs hdelay hn
  simp only [KeepsError]
  generalize retryRun (T := T) (.floats ε) p (fun i => .error (e i)) refuses = x at hruns ⊢
  cases hruns with
  | @done j hprev hj hend =>
    obtain rfl : j = p.retries.toNat - 1 := hend.resolve_right fun h => h ⟨e j, rfl, he j⟩
    refine .inl ⟨rfl, fun m hm => ⟨?_, (hprev m hm).accepted⟩⟩
    have hd := (hprev m hm).delays
    rw [delaySeconds_floats hexp] at hd
    by_contra hge
    rw [if_neg hge] at hd
    cases hd
  | @overflows j e' hprev hj hr he' =>
    rw [delaySeconds_floats hexp] at he'
    split_ifs at he' with hlt
    cases he'
    refine .inr (.inl ⟨by omega, rfl, fun heq => ?_⟩)
    have hlen := congrArg (fun x => x.2.length) heq
    simp only [List.length_cons, length_paused] at hlen
    omega
  | @refused j e' hprev hj hr he' =>
    refine .inr (.inr ⟨⟨j, hj, by rw [he']; simp⟩, fun heq => ?_⟩)
    have hhead := congrArg (fun x => x.2.head?.map fun e => e.1.isCall) heq
    cases hhead

/-- **The source's error survives** exactly where no delay overflows, which is with at most 1025
    attempts, and none is refused. -/
theorem retry_keeps_iff (T : Type) (hn : 1 ≤ p.retries) (hexp : p.backoff ≠ "linear")
    (he : ∀ i, p.retryOn (e i) = true) :
    (KeepsError T p e refuses ↔ p.retries ≤ 1025 ∧ ∀ m < p.retries.toNat - 1,
      refuses (floatDelay p m) = none) ∧
    ((∀ m < p.retries.toNat - 1, ∃ d, delaySeconds (.floats ε) p m = .ok d) ↔
      p.retries ≤ 1025) := by
  refine ⟨⟨fun hkeeps => ?_, fun ⟨hle, haccepted⟩ => ?_⟩, fun hdelays => ?_, fun hle m hm => ?_⟩
  · rcases floats_end (T := T) hn hexp he with ⟨-, hall⟩ | ⟨-, -, hno⟩ | ⟨-, hno⟩
    · refine ⟨?_, fun m hm => (hall m hm).2⟩
      by_contra hgt
      exact absurd (hall 1024 (by omega)).1 (lt_irrefl _)
    · exact absurd hkeeps hno
    · exact absurd hkeeps hno
  · rcases floats_end (T := T) hn hexp he with ⟨hkeeps, -⟩ | ⟨hgt, -⟩ | ⟨⟨m, hm, hrefused⟩, -⟩
    · exact hkeeps
    · omega
    · exact absurd (haccepted m hm) hrefused
  · by_contra hgt
    obtain ⟨d, hd⟩ := hdelays 1024 (by omega)
    rw [delaySeconds_floats hexp, if_neg (lt_irrefl _)] at hd
    cases hd
  · exact ⟨_, (delaySeconds_floats hexp).trans (if_pos (by omega))⟩

end

/-- So many attempts, with exponential delays from one second on. -/
def doubling (retries : ℤ) : RetryPolicy Unit PyFloat :=
  ⟨retries, .fin 1, "exponential", some (.fin 60), fun _ => true⟩

theorem retry_keeps_three : KeepsError Unit (doubling 3) (fun _ => .consumer ()) (fun _ => none) :=
  (retry_keeps_iff Unit (by decide) (by decide) fun _ => rfl).1.2 ⟨by decide, fun _ _ => rfl⟩

/-- **The source's error can be lost**: the delay after the attempt 1024 overflows. -/
theorem retry_error_lost : ¬ ∀ (p : RetryPolicy Unit PyFloat) (q : ℚ) (e : ℕ → RunExc Unit),
    1 ≤ p.retries → p.backoff = "exponential" → p.backoffSeconds = .fin q → 0 ≤ q →
    (∀ i, p.retryOn (e i) = true) → KeepsError Unit p e (fun _ => none) := by
  intro h
  have hkeeps := h (doubling 1026) 1 (fun _ => .consumer ()) (by decide) rfl rfl zero_le_one
    fun _ => rfl
  rcases floats_end (T := Unit) (p := doubling 1026) (e := fun _ => .consumer ()) (by decide)
    (by decide) fun _ => rfl with ⟨-, hall⟩ | ⟨-, -, hno⟩ | ⟨-, hno⟩
  · exact absurd (hall 1024 (by decide)).1 (lt_irrefl _)
  · exact hno hkeeps
  · exact hno hkeeps

end DatasourceKit

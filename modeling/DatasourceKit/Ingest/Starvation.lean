/-
  Which policies of a profile starve its windows.

  * `Timely`: the clock does not go back, and a sleep that is not refused takes its time;
  * `Level`, `refill_cases`: a bucket with a capacity of at least one keeps a finite level, or it is
    always full; when it is short, its rate is finite, and so is the wait;
  * `policies_starve`: the fetcher of a window is called exactly where there are attempts, the
    capacity is at least one and no sleep for tokens is refused; `no_attempt_accepted`: policies
    without attempts are accepted.
-/
import Mathlib.Tactic.Linarith
import Mathlib.Algebra.Order.Field.Basic
import DatasourceKit.Ingest.Accounting

namespace DatasourceKit

open Interleave Interleave.Prog Interleave.Scope

section
variable {ε Obj : Type} (refuses : PyFloat → Option (RunExc ε)) (origin : ℚ)

/-- The time by the history: the last reading, and the sleeps since. -/
def clock : IngestHist ε Obj → ℚ
  | [] => origin
  | ⟨.monotonic, .ok now⟩ :: _ => now
  | ⟨.sleep (.fin d), .ok _⟩ :: t => clock t + max 0 d
  | _ :: t => clock t

/-- The clock does not go back, a sleep that is not refused takes its time, and no call ends as a
    run that is cut off does. -/
def Timely : (op : IngestOp ε Obj) → Except (RunExc ε) op.Val → IngestHist ε Obj → Prop
  | .monotonic, r, t => ∃ now, r = .ok now ∧ clock origin t ≤ now
  | .sleep d, r, _ => r = (refuses d).elim (.ok ()) .error
  | _, r, _ => r ≠ .error .waiting

/-- `time.sleep` refuses NaN, and it does not end as a run that is cut off does. -/
structure Refusals : Prop where
  nan : refuses .nan ≠ none
  waiting : ∀ d, refuses d ≠ some .waiting

variable {refuses origin} {t : IngestHist ε Obj}

theorem timely_slept {d : PyFloat} : Timely refuses origin (.sleep d) (.ok ()) t ↔
    refuses d = none := by
  show (.ok () : Except (RunExc ε) Unit) = (refuses d).elim (.ok ()) .error ↔ _
  cases refuses d <;> simp

theorem timely_refused {d : PyFloat} {e : RunExc ε} :
    Timely refuses origin (.sleep d) (.error e) t ↔ refuses d = some e := by
  show (.error e : Except (RunExc ε) Unit) = (refuses d).elim (.ok ()) .error ↔ _
  cases refuses d <;> simp [eq_comm]

theorem Timely.raised (hr : Refusals refuses) {op : IngestOp ε Obj} {e : RunExc ε}
    (h : Timely refuses origin op (.error e) t) :
    e ≠ .waiting := by
  rintro rfl
  cases op with
  | monotonic =>
    obtain ⟨now, h, -⟩ := h
    cases h
  | sleep d => exact hr.waiting d (timely_refused.1 h)
  | _ => exact h rfl

/-- Time does not go back. -/
theorem clock_mono {op : IngestOp ε Obj} {r : Except (RunExc ε) op.Val}
    (h : Timely refuses origin op r t) :
    clock origin t ≤ clock origin (⟨op, r⟩ :: t) := by
  cases op with
  | monotonic =>
    obtain ⟨now, rfl, hnow⟩ := h
    exact hnow
  | sleep d =>
    cases r with
    | error e => cases d <;> exact le_rfl
    | ok u =>
      cases d with
      | fin d => exact le_add_of_nonneg_right (le_max_left 0 d)
      | _ => exact le_rfl
  | _ => exact le_rfl

end

/-! ## The level of a bucket -/

/-- The tokens of a bucket: finitely many, and not fewer than none, or as many as its capacity. -/
def Level (b : FloatBucket) (tokens : PyFloat) : Prop :=
  (b.capacity = .posInf ∧ tokens = .posInf) ∨ ∃ c x, b.capacity = .fin c ∧
    tokens = .fin x ∧ 1 ≤ c ∧ 0 ≤ x

namespace FloatBucket
variable {b : FloatBucket} {tokens : PyFloat} {elapsed : ℚ}

theorem rate_cases (b : FloatBucket) : (∃ r, b.rate = .fin r ∧ 0 < r) ∨
    b.rate = .posInf ∨ b.rate = .nan := by
  have hrate := b.rate_ok
  cases hr : b.rate with
  | fin r =>
    rw [hr] at hrate
    exact .inl ⟨r, rfl, not_le.1 (of_decide_eq_false hrate)⟩
  | posInf => exact .inr (.inl rfl)
  | nan => exact .inr (.inr rfl)
  | negInf =>
    rw [hr] at hrate
    cases hrate

theorem le_of_small (b : FloatBucket) (h : b.capacity.lt (.fin 1) = true) :
    PyFloat.le (.fin 1) b.capacity = false := by
  cases hc : b.capacity with
  | fin c =>
    rw [hc] at h
    exact decide_eq_false (not_le.2 (of_decide_eq_true h))
  | posInf =>
    rw [hc] at h
    cases h
  | nan | negInf => rfl

theorem capacity_nan (b : FloatBucket) (hsmall : ¬ b.capacity.lt (.fin 1) = true)
    (hcap : ¬ PyFloat.le (.fin 1) b.capacity = true) : b.capacity = .nan := by
  cases hc : b.capacity with
  | fin c =>
    rw [hc, PyFloat.lt_fin, decide_eq_true_iff] at hsmall
    rw [hc, PyFloat.le_fin, decide_eq_true_iff] at hcap
    exact absurd (not_lt.1 hsmall) hcap
  | posInf =>
    rw [hc] at hcap
    exact absurd rfl hcap
  | negInf =>
    have hok := b.capacity_ok
    rw [hc] at hok
    cases hok
  | nan => rfl

/-- A full bucket. -/
theorem level_capacity (b : FloatBucket) (hcap : PyFloat.le (.fin 1) b.capacity = true) :
    Level b b.capacity := by
  cases hc : b.capacity with
  | fin c =>
    rw [hc, PyFloat.le_fin, decide_eq_true_iff] at hcap
    exact .inr ⟨c, c, hc, rfl, hcap, by linarith⟩
  | posInf => exact .inl ⟨hc, rfl⟩
  | nan | negInf =>
    rw [hc] at hcap
    cases hcap

/-- What is no number below the capacity fills the bucket. -/
theorem min_of_not_lt {x y : PyFloat} (h : y.lt x = false) : x.min y = x := by
  rw [PyFloat.min, h]
  rfl

/-- After a refill there is a token, or the bucket is short of one by finitely much. -/
theorem refill_cases (hlevel : Level b tokens) (helapsed : 0 ≤ elapsed) :
    (PyFloat.le (.fin 1) (b.refill tokens elapsed) = true ∧
      Level b ((b.refill tokens elapsed).sub (.fin 1))) ∨
    ∃ c r x, b.capacity = .fin c ∧ b.rate = .fin r ∧ tokens = .fin x ∧ 1 ≤ c ∧ 0 < r ∧ 0 ≤ x ∧
    x + elapsed * r < 1 ∧ b.refill tokens elapsed = .fin (x + elapsed * r) := by
  -- where the tokens that accrue are no finite number, the bucket is full
  have hfull {c : ℚ} (hcap : b.capacity = .fin c) (hc : 1 ≤ c)
      (hno : (tokens.add ((PyFloat.fin elapsed).mul b.rate)).lt (.fin c) = false) :
      PyFloat.le (.fin 1) (b.refill tokens elapsed) = true ∧
          Level b ((b.refill tokens elapsed).sub (.fin 1)) := by
    rw [refill, hcap, min_of_not_lt hno]
    exact ⟨decide_eq_true hc, .inr ⟨c, c - 1, hcap, PyFloat.sub_fin, hc, by linarith⟩⟩
  rcases hlevel with ⟨hcap, rfl⟩ | ⟨c, x, hcap, rfl, hc, hx⟩
  · have hrefill : b.refill .posInf elapsed = .posInf := by
      rw [refill, hcap]
      refine min_of_not_lt ?_
      cases (PyFloat.fin elapsed).mul b.rate <;> rfl
    rw [hrefill]
    exact .inl ⟨rfl, .inl ⟨hcap, rfl⟩⟩
  rcases b.rate_cases with ⟨r, hr, hpos⟩ | hr | hr
  · have hrefill : b.refill (.fin x) elapsed = .fin (min c (x + elapsed * r)) := by
      rw [refill, hcap, hr, PyFloat.mul_fin, PyFloat.add_fin, PyFloat.min_fin]
    rcases lt_or_ge (x + elapsed * r) 1 with hshort | henough
    · refine .inr ⟨c, r, x, hcap, hr, rfl, hc, hpos, hx, hshort, ?_⟩
      rw [hrefill, min_eq_right (by linarith)]
    · have hone : 1 ≤ min c (x + elapsed * r) := le_min hc henough
      rw [hrefill]
      exact .inl ⟨decide_eq_true hone, .inr ⟨c, _, hcap, PyFloat.sub_fin, hc, by linarith⟩⟩
  · refine .inl (hfull hcap hc ?_)
    rw [hr]
    rcases helapsed.lt_or_eq with hpos | rfl
    · have hinf : (PyFloat.fin elapsed).mul .posInf = .posInf := if_pos hpos
      rw [hinf]
      rfl
    · rfl
  · refine .inl (hfull hcap hc ?_)
    rw [hr]
    rfl

/-- A bucket that is short of a token has one after the wait. -/
theorem refill_waited {c r x waited : ℚ} (hcapacity : b.capacity = .fin c) (hrate : b.rate = .fin r)
    (hc : 1 ≤ c) (hpos : 0 < r) (hx : 0 ≤ x) (hshort : x < 1) (hwaited : (1 - x) / r ≤ waited) :
    PyFloat.le (.fin 1) (b.refill (.fin x) waited) = true ∧
    Level b ((b.refill (.fin x) waited).sub (.fin 1)) := by
  have haccrued : 1 - x ≤ waited * r := (div_le_iff₀ hpos).1 hwaited
  have hpositive : 0 ≤ waited := by
    refine le_trans (div_nonneg ?_ hpos.le) hwaited
    linarith
  rcases refill_cases (.inr ⟨c, x, hcapacity, rfl, hc, hx⟩) hpositive with henough |
      ⟨c', r', x', -, hrate', htokens, -, -, -, hshort', -⟩
  · exact henough
  · obtain rfl : r = r' := PyFloat.fin.inj (hrate.symm.trans hrate')
    obtain rfl : x = x' := PyFloat.fin.inj htokens
    linarith

end FloatBucket

/-! ## The bucket of a run -/

section
variable {ε Obj : Type} {refuses : PyFloat → Option (RunExc ε)} {origin : ℚ} {b : FloatBucket}
  {rounds : ℕ} {v : IngestVars Obj} {t : IngestHist ε Obj} {l : WindowLog ε Obj}
  {L : List (WindowLog ε Obj)}

/-- A bucket with a capacity of at least one grants a token, unless a sleep is refused. -/
def Grants (b : FloatBucket) (refused : Bool) : Prop :=
  PyFloat.le (.fin 1) b.capacity = true ∧ refused = false

/-- What is known of the bucket when the clock is right. -/
def timelySpec (ε Obj : Type) (origin : ℚ) (b : FloatBucket) : ThrottleSpec ε Obj where
  known tokens last t := PyFloat.le (.fin 1) b.capacity = true →
    Level b tokens ∧ last ≤ clock origin t
  granted := Grants b
  denied refused := ¬ Grants b refused
  raised e := e ≠ .waiting

theorem known_mono {tokens : PyFloat} {last : ℚ} {op : IngestOp ε Obj}
    {r : Except (RunExc ε) op.Val} (henv : Timely refuses origin op r t)
    (h : (timelySpec ε Obj origin b).known tokens last t) :
    (timelySpec ε Obj origin b).known tokens last (⟨op, r⟩ :: t) := fun hcap =>
  ⟨(h hcap).1, (h hcap).2.trans (clock_mono henv)⟩

/-- A round of `acquire`, by the reading of its clock: it returns, or it sleeps and goes on. -/
theorem does_round {n : ℕ} {waited : PyFloat}
    {Q : PyFloat → IngestVars Obj → IngestHist ε Obj → Prop}
    {E : RunExc ε → IngestVars Obj → IngestHist ε Obj → Prop}
    (h : ∀ now, clock origin t ≤ now → Timely refuses origin .monotonic (.ok now) t →
      let refilled := b.refill v.tokens (now - v.last)
      let wait := (PyFloat.sub (.fin 1) refilled).div b.rate
      if PyFloat.le (.fin 1) refilled = true then
        Q waited { v with tokens := refilled.sub (.fin 1), last := now }
        (⟨.monotonic, .ok now⟩ :: t)
      else
        (refuses wait = none → Does (Records (Timely refuses origin)) InLoop Q E
            (b.acquireFrom (.fin 1) n (waited.add wait))
          { v with tokens := refilled, last := now }
          (⟨.sleep wait, .ok ()⟩ :: ⟨.monotonic, .ok now⟩ :: t)) ∧
        ∀ e, refuses wait = some e →
          E e { v with tokens := refilled, last := now }
          (⟨.sleep wait, .error e⟩ :: ⟨.monotonic, .ok now⟩ :: t)) :
    Does (Records (Timely refuses origin)) InLoop Q E
    (b.acquireFrom (.fin 1) (n + 1) waited) v t := by
  refine does_bind.2 (does_event (fun now henv => ?_) fun e henv => ?_)
  swap
  · obtain ⟨now, h, -⟩ := henv
    cases h
  obtain ⟨now', hnow, hle⟩ := henv
  obtain rfl := Except.ok.inj hnow
  replace h := h now hle ⟨now, rfl, hle⟩
  refine does_bind.2 (does_get.2 (does_bind.2 (does_modify.2 ?_)))
  dsimp only at h ⊢
  split_ifs at h ⊢ with henough
  · exact does_bind.2 (does_modify.2 h)
  · refine does_bind.2 (does_event (fun _ hsleep => h.1 ?_) fun e hsleep => h.2 e ?_)
    · exact timely_slept.1 hsleep
    · exact timely_refused.1 hsleep

/-- What a window that waits leaves: its log shows a refusal, if there was one. -/
theorem throttles_of {v' : IngestVars Obj} {r : Bool} {tokens : PyFloat} {last : ℚ}
    {t' : IngestHist ε Obj} (hlogs : logs t' = { l with refused := r } :: L)
    (hv : v' = { v with tokens := tokens, last := last })
    (hknown : (timelySpec ε Obj origin b).known tokens last t') :
    Throttles (timelySpec ε Obj origin b) v l L r v' t' :=
  ⟨hlogs, tokens, last, hv, hknown⟩

/-- A bucket with a capacity of at least one: its `acquire` returns within two rounds, unless a
    sleep is refused. -/
theorem does_acquire_granted (hr : Refusals refuses) {n : ℕ}
    (hlogs : logs t = l :: L) (hinvocations : l.invocations = 0) (hrefused : l.refused = false)
    (hlevel : Level b v.tokens) (hlast : v.last ≤ clock origin t) {waited : PyFloat} :
    Does (Records (Timely refuses origin)) InLoop (fun _ v' t' =>
        Throttles (timelySpec ε Obj origin b) v l L false v' t')
      (fun e v' t' => e ≠ .waiting ∧ Throttles (timelySpec ε Obj origin b) v l L true v' t')
      (b.acquireFrom (.fin 1) (n + 2) waited) v t := by
  have hquiet : { l with refused := false } = l := by rw [← hrefused]
  refine does_round fun now hnow henv => ?_
  have helapsed : 0 ≤ now - v.last := by linarith
  have hnext : logs (⟨.monotonic, .ok now⟩ :: t) = { l with refused := false } :: L := by
    rw [hquiet, ← hlogs]; rfl
  rcases FloatBucket.refill_cases hlevel helapsed with ⟨henough, hlevel'⟩ |
      ⟨c, r, x, hcapacity, hrate, htokens, hc, hpos, hx, hshort, hrefill⟩
  · rw [if_pos henough]
    exact throttles_of hnext rfl fun _ => ⟨hlevel', le_rfl⟩
  have hno : ¬ PyFloat.le (.fin 1) (b.refill v.tokens (now - v.last)) = true := by
    rw [hrefill, PyFloat.le_fin, decide_eq_true_iff, not_le]
    exact hshort
  rw [if_neg hno]
  have hlevel' : Level b (b.refill v.tokens (now - v.last)) :=
    .inr ⟨c, _, hcapacity, hrefill, hc, add_nonneg hx (mul_nonneg helapsed hpos.le)⟩
  have hwait : (PyFloat.sub (.fin 1) (b.refill v.tokens (now - v.last))).div b.rate =
      .fin ((1 - (x + (now - v.last) * r)) / r) := by
        rw [hrefill, hrate, PyFloat.sub_fin, PyFloat.div_fin]
  refine ⟨fun hslept => ?_, fun e he =>
      ⟨fun hw => hr.waiting _ (hw ▸ he), throttles_of ?_ rfl fun _ =>
    ⟨hlevel', clock_mono (t := ⟨.monotonic, .ok now⟩ :: t) (timely_refused.2 he)⟩⟩⟩
  swap
  · simp [logs, IngestOp.log, hlogs, hinvocations]
  -- after the sleep there is a token
  refine does_round fun later hlater henv' => ?_
  have hclock : clock origin
      (⟨.sleep ((PyFloat.sub (.fin 1) (b.refill v.tokens (now - v.last))).div b.rate), .ok ()⟩ ::
      ⟨.monotonic, .ok now⟩ :: t) = now + max 0 ((1 - (x + (now - v.last) * r)) /
      r) := by rw [hwait]; rfl
  have hslept : (1 - (x + (now - v.last) * r)) / r ≤ later - now := by
    have hmax := le_max_right 0 ((1 - (x + (now - v.last) * r)) / r)
    rw [hclock] at hlater
    linarith
  have hmore : 0 ≤ x + (now - v.last) * r := add_nonneg hx (mul_nonneg helapsed hpos.le)
  obtain ⟨henough, hlevel''⟩ :=
    FloatBucket.refill_waited hcapacity hrate hc hpos hmore hshort hslept
  rw [← hrefill] at henough hlevel''
  rw [if_pos henough]
  exact throttles_of hnext rfl fun _ => ⟨hlevel'', le_rfl⟩

/-- A bucket without a capacity never grants a token: its sleep is refused. -/
theorem does_acquire_nan (hr : Refusals refuses) (hcap : b.capacity = .nan) {n : ℕ}
    (hlogs : logs t = l :: L) (hinvocations : l.invocations = 0) {waited : PyFloat}
    {Q : PyFloat → IngestVars Obj → IngestHist ε Obj → Prop} :
    Does (Records (Timely refuses origin)) InLoop Q
      (fun e v' t' => e ≠ .waiting ∧ Throttles (timelySpec ε Obj origin b) v l L true v' t')
      (b.acquireFrom (.fin 1) (n + 1) waited) v t := by
  refine does_round fun now hnow henv => ?_
  have hrefill : b.refill v.tokens (now - v.last) = .nan := by
    rw [FloatBucket.refill, hcap]
    refine FloatBucket.min_of_not_lt ?_
    cases v.tokens.add ((PyFloat.fin (now - v.last)).mul b.rate) <;> rfl
  have hwait : (PyFloat.sub (.fin 1) (b.refill v.tokens (now - v.last))).div b.rate = .nan := by
    rw [hrefill]
    cases b.rate <;> rfl
  have hno : ¬ PyFloat.le (.fin 1) (b.refill v.tokens (now - v.last)) = true := by
    rw [hrefill]
    decide
  rw [if_neg hno]
  refine ⟨fun hslept => absurd (hwait ▸ hslept) hr.nan, fun e he =>
      ⟨fun hw => hr.waiting _ (hw ▸ he), throttles_of ?_ rfl ?_⟩⟩
  · simp [logs, IngestOp.log, hlogs, hinvocations]
  · intro h
    rw [hcap] at h
    cases h

theorem throttled_timely (hr : Refusals refuses) (hrounds : 2 ≤ rounds) :
    Throttled (Timely refuses origin) b rounds (timelySpec ε Obj origin b) where
  stable := known_mono
  raised := Timely.raised hr
  internal := by
    rintro e he rfl
    cases he
  acquire := by
    intro v t l L hlogs hinvocations hrefused hknown
    obtain ⟨n, rfl⟩ := Nat.exists_eq_add_of_le' hrounds
    have hstart : Throttles (timelySpec ε Obj origin b) v l L false v t :=
      ⟨by rw [hlogs, ← hrefused], _, _, rfl, hknown⟩
    unfold FloatBucket.acquire
    split_ifs with hneg hsmall
    · exact absurd hneg (by decide)
    · refine ⟨by rintro ⟨⟩, false, fun hg => ?_, hstart⟩
      rw [Grants, b.le_of_small hsmall] at hg
      cases hg.1
    by_cases hcap : PyFloat.le (.fin 1) b.capacity = true
    · obtain ⟨hknown₁, hknown₂⟩ := hknown hcap
      refine (does_acquire_granted hr hlogs hinvocations hrefused hknown₁ hknown₂).mono
        (fun _ _ h => h) ?_ ?_
      · rintro _ v' t' h
        exact ⟨false, ⟨hcap, rfl⟩, h⟩
      · rintro e v' t' ⟨he, h⟩
        exact ⟨he, true, fun hg => absurd hg.2 (by decide), h⟩
    · refine (does_acquire_nan hr (b.capacity_nan hsmall hcap) hlogs hinvocations).mono
        (fun _ _ h => h) (fun _ _ _ h => h) ?_
      rintro e v' t' ⟨he, h⟩
      exact ⟨he, true, fun hg => absurd hg.2 (by decide), h⟩

end

/-! ## Runs -/

section
variable {ε Obj : Type} [StrRepr] {objects : Objects ε Obj} {conv : Convert ε Obj}
  {builtin : String → Obj} {rounds : ℕ} {source : Source Obj}
  {registry : Option (ProviderRegistry Obj)} {profile : SourceProfile Obj}
      {throttle : FloatBucket}
  {p : RetryPolicy ε PyFloat} {refuses : PyFloat → Option (RunExc ε)} {origin : ℚ}
    {t : IngestHist ε Obj}
  {q : IngestProg ε Obj (IngestReport Obj)}

/-- The run gets to its windows: the profile resolves, and its policies are taken. -/
structure Accepted (objects : Objects ε Obj) (conv : Convert ε Obj) (builtin : String → Obj)
    (source : Source Obj) (registry : Option (ProviderRegistry Obj)) (profile : SourceProfile Obj)
    (throttle : FloatBucket)
        (p : RetryPolicy ε PyFloat) : Prop where
  resolves : ∃ r slots, registryOr builtin registry = (.ok r : Except (RunExc ε) _) ∧
    source.load conv = .ok profile ∧ validateSource profile r = (.ok () : Except (RunExc ε) Unit) ∧
        resolveSlots profile r = (.ok slots : Except (RunExc ε) _)
  throttle : bucketOf objects (policy objects profile "rate_limit") = .ok throttle
  retries : retryPolicy objects (policy objects profile "retry") = .ok p

theorem Accepted.run (h : Accepted objects conv builtin source registry profile throttle p)
    (rounds : ℕ) :
    ∃ slots, runIngest objects conv builtin rounds source registry =
    ingest objects rounds profile slots := by
  obtain ⟨r, slots, hr, hp, hvalid, hslots⟩ := h.resolves
  exact ⟨slots, by rw [runIngest_eq hr hp, hvalid, hslots]; rfl⟩

/-- The loop of the run is over: the differ is called next, or the run has returned. -/
def Looped (q : IngestProg ε Obj (IngestReport Obj)) : Prop :=
  (∃ fn fetched stored config k, q = .call (.differ fn fetched stored config) k) ∨
    ∃ report, q = .ret report

/-- **Which policies starve a window**: no `acquire` waits for more than two rounds, and after the
    loop, which has been through all windows of the enumerator, the fetcher of a window has been
    called exactly where the policy allows an attempt, the capacity is at least one, and no sleep
    for tokens was refused. -/
theorem policies_starve (h : Accepted objects conv builtin source registry profile throttle p)
    (hr : Refusals refuses) (hrounds : 2 ≤ rounds)
    (hreaches : Reaches (Timely refuses origin)
      (runIngest objects conv builtin rounds source registry) [] t q) :
    q ≠ .raise .waiting ∧ (Looped q → Enumerated ((logs t).reverse.map WindowLog.window) t ∧
      ∀ l ∈ logs t, (1 ≤ l.invocations ↔ 1 ≤ p.retries ∧
        PyFloat.le (.fin 1) throttle.capacity = true ∧ l.refused = false)) := by
  obtain ⟨slots, hrun⟩ := h.run rounds
  rw [hrun] at hreaches
  have hleft := (always_ingest h.throttle h.retries (throttled_timely hr hrounds)
    fun now t _ hcap => ⟨throttle.level_capacity hcap, le_rfl⟩).reaches hreaches
  have hinvoked {l : WindowLog ε Obj} (hl : Invoked (timelySpec ε Obj origin throttle) p l) :
      1 ≤ l.invocations ↔ 1 ≤ p.retries ∧ PyFloat.le (.fin 1) throttle.capacity = true ∧
          l.refused = false := by
    rcases hl with ⟨hone, hretries, hgranted⟩ | ⟨hzero, hno⟩
    · exact iff_of_true hone ⟨hretries, hgranted⟩
    · refine iff_of_false (by omega) fun ⟨hretries, hgranted⟩ => ?_
      exact hno.elim (fun hlt => absurd hlt (by omega)) fun hdenied => hdenied hgranted
  refine ⟨?_, ?_⟩
  · rintro rfl
    exact hleft rfl
  · rintro (⟨fn, fetched, stored, config, k, rfl⟩ | ⟨report, rfl⟩)
    · obtain ⟨-, henumerated, hall⟩ := hleft.1 fetched rfl
      exact ⟨henumerated, fun l hl => hinvoked (hall l hl)⟩
    · exact ⟨hleft.1.enumerated, fun l hl => hinvoked (hleft.2 l hl)⟩

end

/-- `time.sleep` refuses what is no finite number. -/
def refusesSpecial : PyFloat → Option (RunExc Unit)
  | .fin _ => none
  | .nan => some (.value "Invalid value NaN (not a number)")
  | .posInf | .negInf => some .overflow

theorem refusals_special : Refusals refusesSpecial where
  nan := by simp [refusesSpecial]
  waiting d := by cases d <;> simp [refusesSpecial]

/-- Two windows, and a clock that stands still but for sleeps. -/
def timelyAnswer : (op : IngestOp Unit Json) → IngestHist Unit Json → Except (RunExc Unit) op.Val
  | .monotonic, t => .ok (clock 0 t)
  | .sleep d, _ => (refusesSpecial d).elim (.ok ()) .error
  | .enumerate .., _ => .ok [.str "2024-01-01", .str "2024-01-02"]
  | op, t => demoAnswer 0 true op t

theorem timelyAnswer_spec (op : IngestOp Unit Json) (t : IngestHist Unit Json) :
    Timely refusesSpecial 0 op (timelyAnswer op t) t := by
  cases op with
  | monotonic => exact ⟨_, rfl, le_rfl⟩
  | sleep d => exact rfl
  | _ => simp [Timely, timelyAnswer, demoAnswer]

theorem demoProfile_accepted (policies : Dict) {throttle : FloatBucket}
    {p : RetryPolicy Unit PyFloat}
    (hthrottle : bucketOf jsonObjects (policy jsonObjects (completeProfile policies) "rate_limit") =
      .ok throttle) (hp : retryPolicy jsonObjects
      (policy jsonObjects (completeProfile policies) "retry") = .ok p) :
    @Accepted Unit Json ⟨id⟩ jsonObjects ⟨fun _ => "", fun _ => .ok ∅, fun _ => .ok []⟩ Json.str
        (.profile (completeProfile policies))
      none (completeProfile policies) throttle p :=
  @Accepted.mk Unit Json ⟨id⟩ _ _ _ _ _ _ _ _ ⟨demoRegistry, _, rfl, rfl, rfl, rfl⟩ hthrottle hp

theorem exists_report (policies : Dict)
    (h : ((demoRun policies).exec timelyAnswer []).1.isOk = true) :
    ∃ report, Reaches (Timely refusesSpecial 0) (demoRun policies) []
    ((demoRun policies).exec timelyAnswer []).2 (.ret report) := by
  have hreaches := exec_reaches timelyAnswer timelyAnswer_spec (demoRun policies) []
  cases hx : ((demoRun policies).exec timelyAnswer []).1 with
  | error e =>
    rw [hx] at h
    cases h
  | ok report =>
    rw [hx] at hreaches
    exact ⟨report, hreaches⟩

/-- The default policies: a million tokens, and one attempt.  Both windows are fetched. -/
theorem policies_starve_default : ∃ throttle p, bucketOf jsonObjects
    (policy jsonObjects (completeProfile ∅) "rate_limit") = .ok throttle ∧
    retryPolicy jsonObjects (policy jsonObjects (completeProfile ∅) "retry") = .ok p ∧
    (logs ((demoRun ∅).exec timelyAnswer []).2).length = 2 ∧
    Enumerated ((logs ((demoRun ∅).exec timelyAnswer []).2).reverse.map WindowLog.window)
      ((demoRun ∅).exec timelyAnswer []).2 ∧
    ∀ l ∈ logs ((demoRun ∅).exec timelyAnswer []).2,
      1 ≤ l.invocations ∧ 1 ≤ p.retries ∧ PyFloat.le (.fin 1) throttle.capacity = true ∧
      l.refused = false := by
  obtain ⟨report, hreaches⟩ := exists_report ∅ (by decide +kernel)
  obtain ⟨henumerated, hiff⟩ :=
    (@policies_starve Unit Json ⟨id⟩ _ _ _ 2 _ _ _ _ _ refusesSpecial 0 _ _
    (demoProfile_accepted ∅ rfl rfl) refusals_special le_rfl hreaches).2 (.inr ⟨report, rfl⟩)
  have hfetched : ∀ l ∈ logs ((demoRun ∅).exec timelyAnswer []).2, 1 ≤ l.invocations := by
    decide +kernel
  exact ⟨_, _, rfl, rfl, by decide +kernel, henumerated, fun l hl => ⟨hfetched l hl,
    (hiff l hl).1 (hfetched l hl)⟩⟩

/-- No attempts. -/
def noAttempts : Dict := Dict.set ∅ "retry" (.obj [("retries", .int 0)])

/-- **A policy without attempts is accepted**, and no window is fetched. -/
theorem no_attempt_accepted :
    ¬ ∀ (throttle : FloatBucket) (p : RetryPolicy Unit PyFloat) (t : IngestHist Unit Json)
      (report : IngestReport Json),
      bucketOf jsonObjects (policy jsonObjects (completeProfile noAttempts) "rate_limit") =
        .ok throttle →
      retryPolicy jsonObjects (policy jsonObjects (completeProfile noAttempts) "retry") = .ok p →
      Reaches (Timely refusesSpecial 0) (demoRun noAttempts) [] t (.ret report) →
        ∀ l ∈ logs t, 1 ≤ l.invocations := by
  intro h
  obtain ⟨report, hreaches⟩ := exists_report noAttempts (by decide +kernel)
  have hinvoked := h _ _ _ report rfl rfl hreaches
  exact absurd hinvoked (by decide +kernel)

end DatasourceKit

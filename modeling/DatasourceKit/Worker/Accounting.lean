/-
  Failure streaks and counters of a run without a heartbeat: `failure_streaks`.

  * `failure`: the exception with which the last call has failed its iteration;
  * `tally`: iterations, saves, failed iterations, idle plans, and the failures since
    the last commit or idle plan, counted on a history;
  * `Paced`: what the host calls after a failure.  `always_run_paced`: it does so in every
    run whose waits do not raise, and its variables are the counts.
-/
import DatasourceKit.Worker.Discipline

namespace DatasourceKit

open Interleave Interleave.Prog

section
variable {Obj ε : Type}

/-! ## What a history shows -/

/-- A plan of an unknown type, or with an unknown directive. -/
def Planned.malformed : Planned Obj → Option (HostExc ε)
  | .decision .none _ => some (.typeError "StepDecision.directive must be a WorkDirective")
  | .other => some (.typeError "intent.plan() must return StepDecision, WorkerStep, or None")
  | _ => .none

def Planned.isIdle : Planned Obj → Bool
  | .none | .decision (some .idle) _ => true
  | _ => false

def Planned.isStop : Planned Obj → Bool
  | .decision (some .stop) _ => true
  | _ => false

def malformedOutput : Option (SourceOutput Obj) → Option (HostExc ε)
  | none => some (.typeError "intent.output() must return SourceOutput")
  | some out =>
    if !out.isMapping then some (.typeError "SourceOutput.result must be a mapping")
    else if out.directive.isNone then
      some (.typeError "SourceOutput.directive must be a WorkDirective")
    else none

/-- The calls of the `try` block, up to the commit. -/
def WorkerOp.inIteration : WorkerOp Obj ε → Bool
  | hasOutput | hasCheckpoint => true
  | o => o.isStage

/-- The checkpoint of the last plan, if that was a `WorkerStep`. -/
def legacyOf : WorkerHist Obj ε → Option Obj
  | [] => none
  | ⟨.plan _, .ok d⟩ :: _ => d.legacy
  | _ :: t => legacyOf t

/-- The exception with which the last call has failed its iteration. -/
def failure : WorkerHist Obj ε → Option (HostExc ε)
  | [] => none
  | ⟨o, .error e⟩ :: _ => if o.inIteration then some e else none
  | ⟨.plan _, .ok d⟩ :: _ => d.malformed
  | ⟨.output _ _, .ok r⟩ :: _ => malformedOutput r
  | ⟨.hasCheckpoint, .ok false⟩ :: t =>
    if (legacyOf t).isSome then none
    else some (.typeError "intent.checkpoint() is required for a CONTINUE decision")
  | _ => none

/-- Counts of a history; `streak`: the failures since the last commit or idle plan. -/
structure Tally where
  plans : ℕ := 0
  saves : ℕ := 0
  failures : ℕ := 0
  idles : ℕ := 0
  streak : ℕ := 0

def Tally.failed (k : Tally) : Tally :=
  { k with failures := k.failures + 1, streak := k.streak + 1 }

def Tally.saved (k : Tally) : Tally := { k with saves := k.saves + 1, streak := 0 }

/-- The counts after one more event, which is no failure. -/
def Tally.event (k : Tally) : Event (@WorkerOp.Val Obj ε) (HostExc ε) → Tally
  | ⟨.save _, .ok _⟩ => k.saved
  | ⟨.plan _, .ok d⟩ => if d.isIdle then { k with idles := k.idles + 1, streak := 0 } else k
  | _ => k

/-- The counts of a history of the host. -/
def tally (h : WorkerHost ε) : WorkerHist Obj ε → Tally
  | [] => {}
  | e :: t =>
    let k := if e.1.isPlan then { tally h t with plans := (tally h t).plans + 1 } else tally h t
    if (failure (e :: t)).any h.catches then k.failed else k.event e

/-- The last call was `plan`, and answered `STOP`. -/
def atStop : WorkerHist Obj ε → Bool
  | ⟨.plan _, .ok d⟩ :: _ => d.isStop
  | _ => false

/-- The run has ended on a `STOP` plan. -/
def endedOnStop : WorkerHist Obj ε → Bool
  | ⟨.release, _⟩ :: t => atStop t
  | _ => false

/-- No wait raises. -/
def CalmEnv : (o : WorkerOp Obj ε) → Except (HostExc ε) o.Val → WorkerHist Obj ε → Prop
  | .isSet, r, _ => ∃ v, r = .ok v
  | .stopWait _, r, _ => ∃ v, r = .ok v
  | .sleep _, r, _ => ∃ v, r = .ok v
  | .release, r, _ => ∃ v, r = .ok v
  | _, _, _ => True

/-! ## What the host does after a failure -/

/-- The run ends with the exception that has failed an iteration, the `k`-th in a row. -/
def WorkerHost.GivesUp (h : WorkerHost ε) (e : HostExc ε) (k : ℕ) : Prop :=
  h.catches e = false ∨ ∃ m, h.backoff.maxConsecutiveFailures = some m ∧ m ≤ k

/-- The call that begins the wait after the `k`-th failure in a row. -/
def WorkerHost.Waits (h : WorkerHost ε) (k : ℕ) (o : WorkerOp Obj ε) : Prop :=
  if h.injected then o = .isSet else ∃ d, h.backoff.delay (ε := ε) k = .ok d ∧ o = .stopWait d

/-- What the host calls after the history `t`, if that ends in a failure, or in the test
    of the stop flag after a failure; after the release it calls nothing. -/
structure Paced (h : WorkerHost ε) (o : WorkerOp Obj ε) (t : WorkerHist Obj ε) : Prop where
  release : ∀ e, failure t = some e → h.GivesUp e (tally h t).streak → o = .release
  wait : ∀ e, failure t = some e → ¬ h.GivesUp e (tally h t).streak → h.Waits (tally h t).streak o
  sleep : ∀ e t', t = ⟨.isSet, .ok false⟩ :: t' → failure t' = some e →
    ∃ d, h.backoff.delay (ε := ε) (tally h t').streak = .ok d ∧ o = .sleep d
  running : ∀ r t', t ≠ ⟨.release, r⟩ :: t'

/-- No failure is pending, and the run has not ended. -/
structure Calm (t : WorkerHist Obj ε) : Prop where
  failure : failure t = none
  waited : ∀ t', t = ⟨.isSet, .ok false⟩ :: t' → DatasourceKit.failure t' = none
  running : ∀ r t', t ≠ ⟨.release, r⟩ :: t'

variable {h : WorkerHost ε} {o : WorkerOp Obj ε} {t : WorkerHist Obj ε} {k : Tally}

theorem Calm.paced (ht : Calm t) : Paced h o t := by
  refine ⟨fun e he => ?_, fun e he => ?_, fun e t' ht' he => ?_, ht.running⟩
  · rw [ht.failure] at he; cases he
  · rw [ht.failure] at he; cases he
  · rw [ht.waited t' ht'] at he; cases he

/-- The counts are `k`, the checkpoint of the last plan is `l`, and no failure is pending. -/
structure Mid (h : WorkerHost ε) (k : Tally) (l : Option Obj) (t : WorkerHist Obj ε) : Prop where
  tally : tally h t = k
  legacy : legacyOf t = l
  calm : Calm t

/-- An iteration that had the counts `k` has failed with `e`. -/
structure Fell (h : WorkerHost ε) (k : Tally) (e : HostExc ε) (t : WorkerHist Obj ε) : Prop where
  failure : failure t = some e
  tally : h.catches e = true → tally h t = k.failed

/-- A call of the `try` block whose answer counts for nothing. -/
def WorkerOp.isPlain : WorkerOp Obj ε → Bool
  | fetch _ | transform _ _ | persist _ _ | checkpoint _ _ | hasOutput => true
  | _ => false

theorem calm_cons {r : Except (HostExc ε) o.Val} (hf : failure (⟨o, r⟩ :: t) = none)
    (ho : o ≠ .isSet ∧ o ≠ .release) : Calm (⟨o, r⟩ :: t) := by
  refine ⟨hf, fun t' h => ?_, fun r' t' h => ?_⟩
  · cases h
    exact absurd rfl ho.1
  · cases h
    exact absurd rfl ho.2

theorem calm_isSet {b : Bool} (ht : failure t = none) :
    Calm (⟨.isSet, .ok b⟩ :: t : WorkerHist Obj ε) :=
  ⟨rfl, fun t' h => by cases h; exact ht, fun r' t' h => by cases h⟩

theorem Mid.plain {l : Option Obj} (hm : Mid h k l t) (ho : o.isPlain = true) (v : o.Val) :
    Mid h k l (⟨o, .ok v⟩ :: t) := by
  have hfail : failure (⟨o, .ok v⟩ :: t) = none := by cases o <;> first | rfl | cases ho
  refine ⟨?_, ?_, calm_cons hfail (by cases o <;> first | (simp; done) | cases ho)⟩
  · rw [← hm.tally, DatasourceKit.tally, hfail]
    cases o <;> first | rfl | cases ho
  · rw [← hm.legacy]
    cases o <;> first | rfl | cases ho

theorem Mid.fell {l : Option Obj} (hm : Mid h k l t) {r : Except (HostExc ε) o.Val} {e : HostExc ε}
    (ho : o.isPlan = false) (hf : failure (⟨o, r⟩ :: t) = some e) : Fell h k e (⟨o, r⟩ :: t) := by
  refine ⟨hf, fun hc => ?_⟩
  rw [DatasourceKit.tally, hf, ho, hm.tally]
  simp [hc]

theorem failure_error (ho : o.inIteration = true) (e : HostExc ε) :
    failure (⟨o, .error e⟩ :: t) = some e := by
  simp [failure, ho]

theorem always_emit_off {S : Type}
    {step : (o : WorkerOp Obj ε) → S → Except (HostExc ε) o.Val → S → Prop}
    {G : WorkerOp Obj ε → S → Prop} {Q : Unit → S → Prop} {E : HostExc ε → S → Prop} {σ : S}
    (hb : h.heartbeat = false) {state : String} {v : Loop Obj} {error : Option (HostExc ε)}
    {retryIn : Option ℚ} (hQ : Q () σ) : (h.emit state v error retryIn).Always step G Q E σ := by
  simp only [WorkerHost.emit, hb, Bool.not_false, if_true]
  exact hQ

section
variable {l : Option Obj}

theorem always_plain {Q : o.Val → WorkerHist Obj ε → Prop} (hm : Mid h k l t)
    (ho : o.isPlain = true) (hQ : ∀ v, Mid h k l (⟨o, .ok v⟩ :: t) → Q v (⟨o, .ok v⟩ :: t)) :
    (perform o).Always (Records CalmEnv) (Paced h) Q (Fell h k) t := by
  have hin : o.inIteration = true ∧ o.isPlan = false := by
    cases o <;> first | exact ⟨rfl, rfl⟩ | cases ho
  exact always_event hm.calm.paced (fun v _ => hQ v (hm.plain ho v)) fun e _ =>
    hm.fell hin.2 (failure_error hin.1 e)

theorem always_outputStage_paced {p y : Obj} (hm : Mid h k l t) :
    (WorkerHost.outputStage (ε := ε) y p).Always (Records CalmEnv) (Paced h)
      (fun _ => Mid h k l) (Fell h k) t := by
  have hfell : ∀ (r : Option (SourceOutput Obj)) e, malformedOutput r = some e →
      Fell h k e (⟨.output y p, .ok r⟩ :: t) := fun r e hr => hm.fell rfl hr
  refine always_bind.2 (always_event hm.calm.paced (fun r _ => ?_) fun e _ =>
    hm.fell rfl (failure_error rfl e))
  cases r with
  | none => exact hfell none _ rfl
  | some out =>
    dsimp only
    split_ifs with hmap
    · exact hfell _ _ (by simp only [malformedOutput, hmap, if_true])
    · cases hd : out.directive with
      | none => exact hfell _ _ (by simp [malformedOutput, hmap, hd])
      | some directive =>
        have hnone : malformedOutput (ε := ε) (some out) = none := by
          simp [malformedOutput, hmap, hd]
        have hmid : Mid h k l (⟨.output y p, .ok (some out)⟩ :: t) := by
          refine ⟨?_, hm.legacy, calm_cons hnone (by simp)⟩
          have hfail : failure (⟨.output y p, .ok (some out)⟩ :: t) = none := hnone
          rw [← hm.tally, tally, hfail]
          rfl
        exact always_bind.2 (always_plain hmid rfl fun _ hm' => hm')

theorem always_lateStage_paced {p y : Obj} (hm : Mid h k l t) :
    (WorkerHost.lateStage (ε := ε) y p l).Always (Records CalmEnv) (Paced h)
      (fun _ => Mid h k l) (Fell h k) t := by
  refine always_bind.2 (always_plain hm rfl fun _ hm₁ => ?_)
  refine always_bind.2 (always_event hm₁.calm.paced (fun b _ => ?_) fun e _ =>
    hm₁.fell rfl (failure_error rfl e))
  have hmid : ∀ b, failure (⟨.hasCheckpoint, .ok b⟩ :: ⟨.persist y p, .ok ()⟩ :: t) = none →
      Mid h k l (⟨.hasCheckpoint, .ok b⟩ :: ⟨.persist y p, .ok ()⟩ :: t) := by
    intro b hfail
    refine ⟨?_, hm₁.legacy, calm_cons hfail (by simp)⟩
    rw [← hm₁.tally, tally, hfail]
    rfl
  cases b with
  | true => exact always_bind.2 (always_plain (hmid true rfl) rfl fun _ hm' => hm')
  | false =>
    have hleg : legacyOf (⟨.persist y p, .ok ()⟩ :: t) = l := hm₁.legacy
    cases l with
    | some c =>
      refine hmid false ?_
      simp only [failure, hleg, Option.isSome_some, if_true]
    | none =>
      refine hm₁.fell rfl ?_
      simp only [failure, hleg, Option.isSome_none, Bool.false_eq_true, if_false]

theorem always_workStage_paced (hb : h.heartbeat = false) {v : Loop Obj}
    {p : Obj} (hm : Mid h k l t) :
    (h.workStage v p l).Always (Records CalmEnv) (Paced h)
      (fun _ t => tally h t = k.saved ∧ Calm t ∧ atStop t = false) (Fell h k) t := by
  refine always_bind.2 (always_emit_off hb ?_)
  refine always_bind.2 (always_plain hm rfl fun x hm₁ => ?_)
  refine always_bind.2 (always_plain hm₁ rfl fun y hm₂ => always_bind.2 ?_)
  refine always_bind.2 (always_plain hm₂ rfl fun b hm₃ => ?_)
  have hsave : ∀ (next : Obj × WorkDirective) (t' : WorkerHist Obj ε), Mid h k l t' →
      ((perform (WorkerOp.save (ε := ε) next.1)).bind fun _ => ret next).Always (Records CalmEnv)
        (Paced h) (fun _ t => tally h t = k.saved ∧ Calm t ∧ atStop t = false) (Fell h k) t' := by
    intro next t' hm'
    refine always_bind.2 (always_event hm'.calm.paced (fun _ _ => ⟨?_, ?_, rfl⟩) fun e _ =>
      hm'.fell rfl (failure_error rfl e))
    · rw [← hm'.tally]
      rfl
    · exact calm_cons rfl (by simp)
  split_ifs
  · exact Always.mono (fun _ _ h => h) hsave (fun _ _ h => h) (always_outputStage_paced hm₃)
  · exact Always.mono (fun _ _ h => h) hsave (fun _ _ h => h) (always_lateStage_paced hm₃)

/-- A wait that begins where the host may call it keeps the counts. -/
theorem always_wait {d : ℚ} (hfirst : h.injected = true → Paced h (.isSet : WorkerOp Obj ε) t)
    (hsleep : h.injected = true → Paced h (.sleep d) (⟨.isSet, .ok false⟩ :: t))
    (hstop : h.injected = false → Paced h (.stopWait d) t) :
    (h.wait d).Always (Records CalmEnv) (Paced h)
      (fun _ t' => tally h t' = tally h t ∧ Calm t' ∧ atStop t' = false) (fun _ _ => False) t := by
  have hnever : ∀ {α : Type} {e : HostExc ε},
      (∃ v : α, (.error e : Except (HostExc ε) α) = .ok v) → False :=
    fun ⟨_, hv⟩ => by cases hv
  cases hi : h.injected with
  | false =>
    simp only [WorkerHost.wait, hi, Bool.not_false, if_true]
    exact always_event (hstop hi) (fun _ _ => ⟨rfl, calm_cons rfl (by simp), rfl⟩) fun e => hnever
  | true =>
    simp only [WorkerHost.wait, hi, Bool.not_true, Bool.false_eq_true, if_false]
    refine always_bind.2 (always_event (hfirst hi) (fun b _ => ?_) fun e => hnever)
    cases b with
    | true => exact ⟨rfl, ⟨rfl, fun t' ht' => (by cases ht'), fun r t' ht' => by cases ht'⟩, rfl⟩
    | false =>
      exact always_event (hsleep hi) (fun _ _ => ⟨rfl, calm_cons rfl (by simp), rfl⟩)
        fun e => hnever

theorem always_wait_calm {d : ℚ} (hc : Calm t) (hk : tally h t = k) :
    (h.wait d).Always (Records CalmEnv) (Paced h)
      (fun _ t' => tally h t' = k ∧ Calm t' ∧ atStop t' = false) (fun _ _ => False) t := by
  subst hk
  exact always_wait (fun _ => hc.paced) (fun _ => (calm_isSet hc.failure).paced) fun _ => hc.paced

end

/-! ## The loop -/

/-- The variables of an iteration are the counts, where `n` iterations have not ended. -/
structure Counts (h : WorkerHost ε) (n : ℕ) (v : Loop Obj) (k : Tally) : Prop where
  completed : v.completed = k.saves
  failures : v.failures = k.failures
  consecutive : v.consecutive = k.streak
  iterations : v.iterations = k.plans
  sum : k.plans = k.saves + k.failures + k.idles + n
  below : ∀ m, h.backoff.maxConsecutiveFailures = some m → k.streak < m

/-- Between two iterations. -/
structure Paces (h : WorkerHost ε) (v : Loop Obj) (t : WorkerHist Obj ε) : Prop where
  counts : Counts h 0 v (tally h t)
  calm : Calm t

/-- At the end of the loop: normally, or giving up after a failure. -/
def Ended (h : WorkerHost ε) (e : LoopEnd Obj ε) (t : WorkerHist Obj ε) : Prop :=
  match e.2 with
  | .ok _ => Calm t ∧ e.1.completed = (tally h t).saves ∧ e.1.failures = (tally h t).failures ∧
      e.1.iterations = (tally h t).plans ∧
      (tally h t).plans = (tally h t).saves + (tally h t).failures + (tally h t).idles +
        if atStop t then 1 else 0
  | .error e => failure t = some e ∧ h.GivesUp e (tally h t).streak

theorem Paces.ended {v : Loop Obj} (hv : Paces h v t) (hs : atStop t = false) :
    Ended h (v, .ok ()) t :=
  ⟨hv.calm, hv.counts.completed, hv.counts.failures,
    hv.counts.iterations, by simp [hs, hv.counts.sum]⟩

/-- What the iteration number `n` leaves. -/
def Left (h : WorkerHost ε) (n : ℕ) (x : Loop Obj ⊕ LoopEnd Obj ε) (t : WorkerHist Obj ε) : Prop :=
  (loopOf x).iterations = n ∧ match x with
    | .inl v => Paces h v t
    | .inr e => Ended h e t

theorem always_failed_paced (hb : h.heartbeat = false) {v : Loop Obj} {e : HostExc ε}
    {E : HostExc ε → WorkerHist Obj ε → Prop} (hf : Fell h k e t) (hv : Counts h 1 v k) :
    (h.failed v e).Always (Records CalmEnv) (Paced h) (Left h v.iterations) E t := by
  unfold WorkerHost.failed
  split_ifs with hcatch
  · exact ⟨rfl, hf.failure, .inl (by simpa using hcatch)⟩
  have hc : h.catches e = true := by simpa using hcatch
  have hk : tally h t = k.failed := hf.tally hc
  have hstreak : (tally h t).streak = v.consecutive + 1 := by
    rw [hk, hv.consecutive]
    rfl
  dsimp only
  split_ifs with hlimit
  · refine always_bind.2 (always_catching.2 (always_emit_off hb ?_))
    obtain ⟨m, hm, hle⟩ := Option.any_eq_true _ _ |>.1 hlimit
    exact ⟨rfl, hf.failure, .inr ⟨m, hm, by rw [hstreak]; exact of_decide_eq_true hle⟩⟩
  · have hbelow : ∀ m, h.backoff.maxConsecutiveFailures = some m → (tally h t).streak < m := by
      intro m hm
      rw [hstreak]
      by_contra hle
      exact hlimit ((Option.any_eq_true _ _).2 ⟨m, hm, decide_eq_true (by omega)⟩)
    have hnot : ¬ h.GivesUp e (tally h t).streak := by
      rintro (hn | ⟨m, hm, hle⟩)
      · rw [hc] at hn; cases hn
      · have := hbelow m hm
        omega
    have hdelay : ∃ d, h.backoff.delay (ε := ε) (v.consecutive + 1) = .ok d :=
      ⟨_, if_neg (by omega)⟩
    obtain ⟨d, hd⟩ := hdelay
    have hpaced : ∀ o : WorkerOp Obj ε, h.Waits (tally h t).streak o → Paced h o t := by
      refine fun o ho => ⟨fun e' he hg => ?_, fun e' _ _ =>
        ho, fun e' t' ht' he => ?_, fun r t' ht' => ?_⟩
      · rw [hf.failure] at he; cases he
        exact absurd hg hnot
      · have hfail := hf.failure
        rw [ht'] at hfail
        cases hfail
      · have hfail := hf.failure
        rw [ht'] at hfail
        cases r <;> cases hfail
    refine always_bind.2 (always_catching.2 ?_)
    rw [hd]
    refine always_bind.2 ?_
    simp only [liftHost, always_ret]
    refine always_bind.2 (always_emit_off hb ?_)
    refine Always.mono (fun _ _ h => h) ?_ (fun _ _ h => h.elim) (always_wait ?_ ?_ ?_)
    · rintro - t' ⟨ht', hcalm, -⟩
      refine ⟨rfl, ?_, hcalm⟩
      rw [ht', hk]
      refine ⟨hv.completed, ?_, ?_, hv.iterations, ?_, ?_⟩
      · simp [Tally.failed, hv.failures]
      · simp [Tally.failed, hv.consecutive]
      · have := hv.sum
        simp only [Tally.failed]
        omega
      · rw [← hk]
        exact hbelow
    · exact fun hi => hpaced _ (by simp [WorkerHost.Waits, hi])
    · intro hi
      refine ⟨fun e' he => (by cases he), fun e' he => (by cases he), fun e' t' ht' _ => ?_,
        fun r t' ht' => by cases ht'⟩
      cases ht'
      exact ⟨d, by rw [hstreak, hd], rfl⟩
    · exact fun hi => hpaced _ (by simp [WorkerHost.Waits, hi, hstreak, hd])

/-- What the planning has decided. -/
def Decided (h : WorkerHost ε) (k : Tally) (t : WorkerHist Obj ε) : Decision Obj → Prop
  | .stop => tally h t = { k with plans := k.plans + 1 } ∧ atStop t = true
  | .idle => tally h t = { k with plans := k.plans + 1, idles := k.idles + 1, streak := 0 }
  | .work _ l => Mid h { k with plans := k.plans + 1 } l t

theorem always_planStage_paced {v : Loop Obj} (hc : Calm t) (hk : tally h t = k) :
    (WorkerHost.planStage (ε := ε) v).Always (Records CalmEnv) (Paced h)
      (fun d t => Calm t ∧ Decided h k t d) (Fell h { k with plans := k.plans + 1 }) t := by
  subst hk
  have hfell : ∀ r e, failure (⟨.plan v.checkpoint, r⟩ :: t) = some e →
      Fell h { tally h t with plans := (tally h t).plans + 1 } e
          (⟨.plan v.checkpoint, r⟩ :: t) := by
    refine fun r e hf => ⟨hf, fun hcatch => ?_⟩
    rw [tally, hf]
    simp [hcatch, WorkerOp.isPlan]
  have hmid : ∀ pl : Planned Obj, pl.malformed (ε := ε) = none → pl.isIdle = false →
      Mid h { tally h t with plans := (tally h t).plans + 1 } pl.legacy
          (⟨.plan v.checkpoint, .ok pl⟩ :: t) := by
    refine fun pl hm hi => ⟨?_, rfl, calm_cons hm (by simp)⟩
    have hf : failure (⟨.plan v.checkpoint, .ok pl⟩ :: t) = none := hm
    rw [tally, hf]
    simp [Tally.event, hi, WorkerOp.isPlan]
  refine always_bind.2 (always_event hc.paced (fun pl _ => ?_) fun e _ =>
    hfell _ e (failure_error rfl e))
  cases pl with
  | none => exact ⟨calm_cons rfl (by simp), rfl⟩
  | step p c => exact ⟨(hmid (.step p c) rfl rfl).calm, hmid (.step p c) rfl rfl⟩
  | decision directive w =>
    cases directive with
    | none => exact hfell _ _ rfl
    | some directive =>
      have hm := hmid (.decision (some directive) w) rfl
      cases directive with
      | stop => exact ⟨(hm rfl).calm, (hm rfl).tally, rfl⟩
      | idle => exact ⟨calm_cons rfl (by simp), rfl⟩
      | cont => exact ⟨(hm rfl).calm, hm rfl⟩
  | other => exact hfell _ _ rfl

theorem always_iteration_paced (hb : h.heartbeat = false) {v : Loop Obj}
    {E : HostExc ε → WorkerHist Obj ε → Prop} (hv : Paces h v t) :
    (h.iteration { v with iterations := v.iterations + 1 }).Always (Records CalmEnv) (Paced h)
      (Left h (v.iterations + 1)) E t := by
  have hcounts := hv.counts
  -- the iteration has been planned
  have hopen : Counts h 1 { v with iterations := v.iterations + 1 }
      { tally h t with plans := (tally h t).plans + 1 } :=
    ⟨hcounts.completed, hcounts.failures, hcounts.consecutive, by simp [hcounts.iterations],
      by simp [hcounts.sum], hcounts.below⟩
  refine always_bind.2 (always_catching.2 (Always.mono (fun _ _ h => h) ?_
    (fun e t₁ hf => always_failed_paced hb hf hopen) (always_planStage_paced hv.calm rfl)))
  rintro d t₁ ⟨hcalm, hd⟩
  cases d with
  | stop =>
    obtain ⟨hk, hs⟩ := hd
    refine ⟨rfl, hcalm, ?_, ?_, ?_, ?_⟩
    · rw [hk]; exact hopen.completed
    · rw [hk]; exact hopen.failures
    · rw [hk]; exact hopen.iterations
    · rw [hk, hs]; exact hopen.sum
  | idle =>
    refine always_bind.2 (always_catching.2 (always_bind.2 (always_emit_off hb ?_)))
    refine Always.mono (fun _ _ h => h) ?_ (fun _ _ h => h.elim) (always_wait_calm hcalm hd)
    rintro - t₂ ⟨hk, hcalm₂, -⟩
    refine ⟨rfl, ?_, hcalm₂⟩
    rw [hk]
    refine ⟨hcounts.completed, hcounts.failures, rfl, hopen.iterations, ?_, fun m hm => ?_⟩
    · have := hcounts.sum
      simp only
      omega
    · exact Nat.lt_of_lt_of_le Nat.one_pos (h.backoff.limit_pos m hm)
  | work p l =>
    refine always_bind.2 (always_catching.2 (Always.mono (fun _ _ h => h) ?_
      (fun e t₂ hf => always_failed_paced hb hf hopen) (always_workStage_paced hb hd)))
    rintro ⟨c, directive⟩ t₂ ⟨hk, hcalm₂, hs⟩
    have hpaces : ∀ t', tally h t' = tally h t₂ → Calm t' →
        Paces h ⟨c, v.completed + 1, v.failures, 0, v.iterations + 1⟩ t' := by
      refine fun t' ht' hc' => ⟨?_, hc'⟩
      rw [ht', hk]
      refine ⟨by simp [Tally.saved,
        hcounts.completed], hcounts.failures, rfl, hopen.iterations, ?_, fun m hm => ?_⟩
      · have := hcounts.sum
        simp only [Tally.saved]
        omega
      · exact Nat.lt_of_lt_of_le Nat.one_pos (h.backoff.limit_pos m hm)
    refine always_bind.2 (always_catching.2 (always_bind.2 (always_emit_off hb ?_)))
    cases directive with
    | stop => exact ⟨rfl, (hpaces t₂ rfl hcalm₂).ended hs⟩
    | cont => exact ⟨rfl, hpaces t₂ rfl hcalm₂⟩
    | idle =>
      refine always_bind.2 (always_emit_off hb (always_bind.2 ?_))
      refine Always.mono (fun _ _ h => h) ?_ (fun _ _ h => h.elim) (always_wait_calm hcalm₂ rfl)
      rintro - t₃ ⟨hk₃, hcalm₃, -⟩
      exact ⟨rfl, hpaces t₃ hk₃ hcalm₃⟩

/-- The iterations are within the bound of the run. -/
def Within (maxIterations : Option ℤ) (n : ℕ) : Prop := ∀ m, maxIterations = some m → (n : ℤ) ≤ m

theorem always_round_paced (hb : h.heartbeat = false) {maxIterations : Option ℤ} {v : Loop Obj}
    {E : HostExc ε → WorkerHist Obj ε → Prop} (hv : Paces h v t)
    (hw : Within maxIterations v.iterations) :
    (h.round maxIterations v).Always (Records CalmEnv) (Paced h)
      (fun x t => ∃ n, Within maxIterations n ∧ Left h n x t) E t := by
  have hset : ∀ b, Paces h v (⟨.isSet, .ok b⟩ :: t) :=
    fun b => ⟨hv.counts, calm_isSet hv.calm.failure⟩
  refine always_bind.2 (always_catching.2
    (always_event hv.calm.paced (fun b _ => ?_) fun e he => ?_))
  · cases b with
    | true => exact ⟨_, hw, rfl, (hset true).ended rfl⟩
    | false =>
      dsimp only
      split_ifs with hmax
      · refine Always.mono (fun _ _ h => h) (fun x t' hx => ⟨_, ?_, hx⟩) (fun _ _ h => h)
          (always_iteration_paced hb (hset false))
        intro m hm
        simp only [hm, Option.all_some, decide_eq_true_eq] at hmax
        push_cast
        omega
      · exact ⟨_, hw, rfl, (hset false).ended rfl⟩
  · obtain ⟨_, hv⟩ := he
    cases hv

/-- What a run that returns reports. -/
def Accounts (h : WorkerHost ε) (maxIterations : Option ℤ) (w : WorkerRun Obj)
    (t : WorkerHist Obj ε) : Prop :=
  Within maxIterations w.iterations ∧ w.completed = (tally h t).saves ∧
    w.failures = (tally h t).failures ∧
    w.iterations = w.completed + w.failures + (tally h t).idles + (if endedOnStop t then 1 else 0) ∧
    w.iterations = (tally h t).plans

/-- A run that returns does so with no failure pending: a failure is waited for or raised. -/
structure Returns (h : WorkerHost ε) (maxIterations : Option ℤ) (r : Option (WorkerRun Obj))
    (t : WorkerHist Obj ε) : Prop where
  failure : failure t = none
  running : r = none → Calm t
  released : ∀ w, r = some w → ∃ t', t = ⟨.release, .ok ()⟩ :: t' ∧ Calm t'
  accounts : ∀ w, r = some w → Accounts h maxIterations w t

/-- A run raises the exception that has failed its last iteration, giving up; or it has
    not got to its loop. -/
def Raises (h : WorkerHost ε) (e : HostExc ε) (t : WorkerHist Obj ε) : Prop :=
  (∃ t', t = ⟨.release, .ok ()⟩ :: t' ∧ failure t' = some e ∧ h.GivesUp e (tally h t').streak) ∨
    (tally h t).plans = 0 ∧ ∀ t', t = ⟨.release, .ok ()⟩ :: t' → failure t' = none

theorem always_finish_paced (hb : h.heartbeat = false) {maxIterations : Option ℤ}
    {e : LoopEnd Obj ε} (he : Ended h e t) (hw : Within maxIterations e.1.iterations) :
    (h.finish e).Always (Records CalmEnv) (Paced h)
      (Returns h maxIterations) (Raises h) t := by
  obtain ⟨v, r⟩ := e
  refine always_bind.2 (always_emit_off hb ?_)
  refine always_bind.2 (always_event ?_ (fun _ _ => ?_) fun e he => ?_)
  · cases r with
    | ok u => exact he.1.paced
    | error e =>
      obtain ⟨hf, hg⟩ := he
      refine ⟨fun _ _ _ => rfl, fun e' he' hn => ?_, fun e' t' ht' he' => ?_, fun r t' ht' => ?_⟩
      · rw [hf] at he'; cases he'
        exact absurd hg hn
      · rw [ht'] at hf; cases hf
      · rw [ht'] at hf; cases r <;> cases hf
  · cases r with
    | ok u =>
      obtain ⟨hcalm, hc, hf, hi, hsum⟩ := he
      refine ⟨rfl, fun hn => (by cases hn), fun _ _ => ⟨t, rfl, hcalm⟩, fun w hw' => ?_⟩
      cases hw'
      refine ⟨hw, hc, hf, hi.trans (hsum.trans ?_), hi⟩
      rw [← hc, ← hf]
      rfl
    | error e => exact .inl ⟨t, rfl, he⟩
  · obtain ⟨_, hv⟩ := he
    cases hv

theorem always_run_paced [Inhabited Obj] (hb : h.heartbeat = false)
    {maxIterations : Option ℤ} {rounds : ℕ} :
    (h.run maxIterations rounds : WorkerProg Obj ε (Option (WorkerRun Obj))).Always
    (Records CalmEnv) (Paced h) (Returns h maxIterations) (Raises h) [] := by
  unfold WorkerHost.run
  split_ifs with hneg
  · exact .inr ⟨rfl, fun t' h => by cases h⟩
  have hcalm₀ : Calm ([] : WorkerHist Obj ε) :=
    ⟨rfl, fun t' h => (by cases h), fun r t' h => by cases h⟩
  refine always_bind.2 (always_event hcalm₀.paced (fun b _ => ?_) fun e _ =>
    .inr ⟨rfl, fun t' h => by cases h⟩)
  have hcalm₁ : Calm ([⟨.acquire, .ok b⟩] : WorkerHist Obj ε) := calm_cons rfl (by simp)
  split_ifs
  · exact .inr ⟨rfl, fun t' h => by cases h⟩
  refine always_bind.2 (always_catching.2 (always_event hcalm₁.paced (fun c _ => ?_) fun e _ => ?_))
  · have hv : Paces h { checkpoint := c } (⟨.load, .ok c⟩ :: [⟨.acquire, .ok b⟩]) := by
      refine ⟨⟨rfl, rfl, rfl, rfl, rfl, fun m hm => ?_⟩, calm_cons rfl (by simp)⟩
      exact Nat.lt_of_lt_of_le Nat.one_pos (h.backoff.limit_pos m hm)
    have hw : Within maxIterations ({ checkpoint := c } : Loop Obj).iterations := by
      intro m hm
      simp only [hm, Option.any_some, decide_eq_true_eq, not_lt] at hneg
      exact hneg
    refine always_bind.2 (always_catching.2 (always_emit_off hb ?_))
    have hloop : (iterate (h.round maxIterations) rounds { checkpoint := c }).Always
        (Records CalmEnv) (Paced h) (fun x t => match x with
          | none => Calm t
          | some e => Ended h e t ∧ Within maxIterations e.1.iterations) (Raises h)
        (⟨.load, .ok c⟩ :: [⟨.acquire, .ok b⟩]) := by
      refine always_iterate (I := fun v t => Paces h v t ∧ Within maxIterations v.iterations)
        (fun v t hv => ?_) (fun _ _ hv => hv.1.calm) ⟨hv, hw⟩
      refine Always.mono (fun _ _ h => h) ?_ (fun _ _ h => h) (always_round_paced hb hv.1 hv.2)
      rintro (v' | e) t' ⟨n, hn, hi, hx⟩
      · exact ⟨hx, hi ▸ hn⟩
      · exact ⟨hx, hi ▸ hn⟩
    refine always_bind.2 (Always.mono (fun _ _ h => h) ?_ (fun _ _ h => h) hloop)
    intro x t₁ hx
    cases x with
    | none => exact ⟨hx.failure, fun _ => hx, fun w hw => (by cases hw), fun w hw => by cases hw⟩
    | some e => exact always_finish_paced hb hx.1 hx.2
  · have hcalm₂ : Calm (⟨.load, .error e⟩ :: [⟨.acquire, .ok b⟩] : WorkerHist Obj ε) :=
      calm_cons rfl (by simp)
    refine always_bind.2 (always_emit_off hb ?_)
    exact always_bind.2 (always_event hcalm₂.paced
      (fun _ _ => .inr ⟨rfl, fun t' h => by cases h; rfl⟩) fun _ _ =>
      .inr ⟨rfl, fun t' h => by cases h⟩)

/-- **Failure streaks and accounting** of a run without a heartbeat whose waits do not
    raise.  After a failure, the `k`-th in a row, the host waits `delay k` (injected: if
    the stop flag is not set), or, where it gives up, releases its lock and raises that
    failure's exception; it raises nothing else once it has planned; it returns with no
    failure pending; and what it returns are the counts. -/
theorem failure_streaks [Inhabited Obj] (hb : h.heartbeat = false) {maxIterations : Option ℤ}
    {rounds : ℕ} {p : WorkerProg Obj ε (Option (WorkerRun Obj))}
    (hr : Reaches CalmEnv (h.run maxIterations rounds) [] t p) :
    (∀ o f, p = .call o f → Paced h o t) ∧
    (∀ e t', t = ⟨.release, .ok ()⟩ :: t' → failure t' = some e → p = .raise e) ∧
    (∀ e, p = .raise e → Raises h e t) ∧
    (∀ r, p = .ret r → failure t = none ∧ (r = none → Calm t) ∧
      ∀ w, r = some w → ∃ t', t = ⟨.release, .ok ()⟩ :: t' ∧ Calm t') ∧
    ∀ w, p = .ret (some w) → Accounts h maxIterations w t := by
  have hp := Always.reaches (always_run_paced hb) hr
  refine ⟨?_, fun e t' ht hf => ?_, ?_, ?_, ?_⟩
  · rintro o f rfl
    exact hp.1
  · cases p with
    | ret r =>
      cases r with
      | none => exact absurd ht ((hp.running rfl).running _ t')
      | some w =>
        obtain ⟨t'', ht'', hcalm⟩ := hp.released w rfl
        rw [ht] at ht''
        cases ht''
        rw [hcalm.failure] at hf
        cases hf
    | raise e' =>
      rcases hp with ⟨t'', ht'', hf', -⟩ | ⟨-, hnone⟩
      · rw [ht] at ht''
        cases ht''
        rw [hf] at hf'
        cases hf'
        rfl
      · rw [hnone t' ht] at hf
        cases hf
    | call o f => exact absurd ht (hp.1.running _ t')
  · rintro e rfl
    exact hp
  · rintro r rfl
    exact ⟨hp.failure, hp.running, hp.released⟩
  · rintro w rfl
    exact hp.accounts w rfl

end

/-- The intent that works once, but its first fetch fails. -/
def failOnce : (o : WorkerOp ℕ Unit) → WorkerHist ℕ Unit → Except (HostExc Unit) o.Val
  | .fetch p, t => if (tally plainHost t).failures = 0 then .error (.consumer ()) else .ok p
  | o, t => workOnce o t

theorem failOnce_calm (o : WorkerOp ℕ Unit) (t : WorkerHist ℕ Unit) :
    CalmEnv o (failOnce o t) t := by
  cases o <;> first | trivial | exact ⟨_, rfl⟩

/-- The intent whose fetches all fail. -/
def failEver : (o : WorkerOp ℕ Unit) → WorkerHist ℕ Unit → Except (HostExc Unit) o.Val
  | .fetch _, _ => .error (.consumer ())
  | o, t => failOnce o t

theorem failEver_calm (o : WorkerOp ℕ Unit) (t : WorkerHist ℕ Unit) :
    CalmEnv o (failEver o t) t := by
  cases o <;> first | trivial | exact ⟨_, rfl⟩

/-- A host that gives up after the second failure in a row. -/
def impatient : WorkerHost Unit :=
  { plainHost with
    backoff := { plainHost.backoff with
      maxConsecutiveFailures := some 2, limit_pos := fun m hm => by cases hm; decide } }

/-- The waits of a host whose sleep is not injected, the last one first. -/
def waits {Obj ε : Type} (t : WorkerHist Obj ε) : List ℚ :=
  t.filterMap fun e => match e.1 with
    | .stopWait d => some d
    | _ => none

/-- A run with a failure, a commit and a `STOP` plan, and one that waits a second after its
    first failure and raises the second one. -/
theorem failure_streaks_run :
    (∃ (t : WorkerHist ℕ Unit) (w : WorkerRun ℕ),
      Reaches CalmEnv (plainHost.run none 4) [] t (.ret (some w)) ∧ w.iterations = 3 ∧
      w.failures = 1 ∧ Accounts plainHost none w t) ∧
    ∃ t t' : WorkerHist ℕ Unit,
    Reaches CalmEnv (impatient.run none 4) [] t (.raise (.consumer ())) ∧
    t = ⟨.release, .ok ()⟩ :: t' ∧ failure t' = some (.consumer ()) ∧
    (tally impatient t').streak = 2 ∧ waits t = [1] ∧ Raises impatient (.consumer ()) t := by
  have hr := exec_reaches failOnce failOnce_calm (plainHost.run none 4) []
  have hg := exec_reaches failEver failEver_calm (impatient.run none 4) []
  refine ⟨⟨_, ⟨1, 1, 1, 3⟩, hr, rfl, rfl, (failure_streaks rfl hr).2.2.2.2 _ rfl⟩, _, _, hg, rfl,
    rfl, by decide +kernel, by decide +kernel, (failure_streaks rfl hg).2.2.1 _ rfl⟩

end DatasourceKit

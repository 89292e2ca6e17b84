/-
  The heartbeat of a host and its work: `telemetry_isolated`.

  A heartbeat callback that raises changes nothing.  But the event is built outside the
  guarded call: if the clock or the text of an exception raises, the run is another one
  (`telemetry_not_isolated`).  It is another one as well where the callback requests a stop.
-/
import DatasourceKit.Worker.Accounting

namespace DatasourceKit

open Interleave Interleave.Prog

section
variable {Obj ε : Type}

/-- The calls for an event: the clock, the text of an exception, the callback. -/
def WorkerOp.isTelemetry : WorkerOp Obj ε → Bool
  | now | describe _ | heartbeat _ => true
  | _ => false

/-- The event is built, and the callback raises nothing but an `Exception`. -/
def WorkerHost.Tells (h : WorkerHost ε) : (o : WorkerOp Obj ε) → Except (HostExc ε) o.Val → Prop
  | .now, r => ∃ v, r = .ok v
  | .describe _, r => ∃ v, r = .ok v
  | .heartbeat _, .error e => h.catches e = true
  | _, _ => True

/-- The host without its heartbeat callback. -/
def WorkerHost.silent (h : WorkerHost ε) : WorkerHost ε := { h with heartbeat := false }

variable (h : WorkerHost ε)

/-- `q` is `p` without the calls for events. -/
abbrev Silences {α : Type} (p q : WorkerProg Obj ε α) : Prop :=
  Erases WorkerOp.isTelemetry h.Tells p q

theorem silences_emit {state : String} {v : Loop Obj} {error : Option (HostExc ε)}
    {retryIn : Option ℚ} :
    Silences h (h.emit state v error retryIn) (h.silent.emit state v error retryIn) := by
  have hsilent : h.silent.emit state v error retryIn = ret () := by
    simp [WorkerHost.emit, WorkerHost.silent]
  rw [hsilent]
  cases hb : h.heartbeat with
  | false =>
    simp only [WorkerHost.emit, hb, Bool.not_false, if_true]
    exact .ret ()
  | true =>
    simp only [WorkerHost.emit, hb, Bool.not_true, Bool.false_eq_true, if_false]
    have hbeat : ∀ event : WorkerHeartbeat Obj, Silences h
        (handle (perform (WorkerOp.heartbeat event)) fun e =>
          if h.catches e then ret () else raise e)
        (ret ()) := by
      refine fun event => .skip rfl fun r hr => ?_
      cases r with
      | ok v => exact .ret ()
      | error e =>
        have hc : h.catches e = true := hr
        simp only [handle, hc, if_true]
        exact .ret ()
    refine .skip rfl ?_
    rintro r ⟨timestamp, rfl⟩
    cases error with
    | none => exact hbeat _
    | some e =>
      refine .skip rfl ?_
      rintro r ⟨text, rfl⟩
      exact hbeat _

theorem silences_refl {α : Type} {p : WorkerProg Obj ε α} (hp : p.Uses (·.isTelemetry = false)) :
    Silences h p p := .refl hp

theorem silences_perform {o : WorkerOp Obj ε} (ho : o.isTelemetry = false) :
    Silences h (perform o) (perform o) := .refl (uses_perform ho)

theorem silences_wait {seconds : ℚ} :
    Silences h (h.wait seconds : WorkerProg Obj ε Unit) (h.silent.wait seconds) := by
  refine silences_refl h ?_
  unfold WorkerHost.wait
  split_ifs
  · exact uses_perform rfl
  · refine Uses.bind (A := fun o => WorkerOp.isTelemetry o = false) (uses_perform rfl) fun b => ?_
    split_ifs
    · exact uses_perform rfl
    · trivial

theorem silences_planStage {v : Loop Obj} :
    Silences h (WorkerHost.planStage (ε := ε) v) (WorkerHost.planStage v) := by
  refine .bind (silences_perform h rfl) fun pl => ?_
  split <;> first | exact .ret _ | exact .raise _

theorem silences_outputStage {y p : Obj} :
    Silences h (WorkerHost.outputStage (ε := ε) y p) (WorkerHost.outputStage y p) := by
  refine .bind (silences_perform h rfl) fun output => ?_
  cases output with
  | none => exact .raise _
  | some output =>
    dsimp only
    split_ifs
    · exact .raise _
    · cases output.directive with
      | none => exact .raise _
      | some directive => exact .bind (silences_perform h rfl) fun _ => .ret _

theorem silences_lateStage {y p : Obj} {legacy : Option Obj} :
    Silences h (WorkerHost.lateStage (ε := ε) y p legacy) (WorkerHost.lateStage y p legacy) := by
  refine .bind (silences_perform h rfl) fun _ => .bind (silences_perform h rfl) fun b => ?_
  split_ifs
  · exact .bind (silences_perform h rfl) fun _ => .ret _
  · cases legacy with
    | some c => exact .ret _
    | none => exact .raise _

theorem silences_workStage {v : Loop Obj} {p : Obj} {legacy : Option Obj} :
    Silences h (h.workStage v p legacy) (h.silent.workStage v p legacy) := by
  refine .bind (silences_emit h) fun _ => .bind (silences_perform h rfl) fun x =>
    .bind (silences_perform h rfl) fun y =>
      .bind (.bind (silences_perform h rfl) fun b => ?_) fun next =>
      .bind (silences_perform h rfl) fun _ => .ret _
  split_ifs
  · exact silences_outputStage h
  · exact silences_lateStage h

theorem silences_afterCommit {v : Loop Obj} {directive : WorkDirective} :
    Silences h (h.afterCommit v directive) (h.silent.afterCommit v directive) := by
  refine .bind (silences_emit h) fun _ => ?_
  cases directive with
  | stop => exact .ret _
  | cont => exact .ret _
  | idle => exact .bind (silences_emit h) fun _ => .bind (silences_wait h) fun _ => .ret _

theorem silences_failed {v : Loop Obj} {e : HostExc ε} :
    Silences h (h.failed v e) (h.silent.failed v e) := by
  unfold WorkerHost.failed
  have hcatches : h.silent.catches e = h.catches e := by cases e <;> rfl
  have hbackoff : h.silent.backoff = h.backoff := rfl
  rw [hcatches, hbackoff]
  split_ifs
  · exact .ret _
  dsimp only
  split_ifs
  · refine .bind (silences_emit h).catching fun r => ?_
    cases r <;> exact .ret _
  · refine .bind (Erases.catching (.bind ?_ fun d => .bind (silences_emit h) fun _ =>
      silences_wait h)) fun r => ?_
    · cases h.backoff.delay (v.consecutive + 1) with
      | ok d => exact .ret d
      | error e => exact .raise e
    · cases r <;> exact .ret _

theorem silences_iteration {v : Loop Obj} : Silences h (h.iteration v) (h.silent.iteration v) := by
  refine .bind (silences_planStage h).catching fun r => ?_
  match r with
  | .error e => exact silences_failed h
  | .ok .stop => exact .ret _
  | .ok .idle =>
    refine .bind (Erases.catching (.bind (silences_emit h) fun _ => silences_wait h)) fun r => ?_
    cases r with
    | ok _ => exact .ret _
    | error e => exact silences_failed h
  | .ok (.work p legacy) =>
    refine .bind (silences_workStage h).catching fun r => ?_
    match r with
    | .error e => exact silences_failed h
    | .ok (c, directive) =>
      refine .bind (silences_afterCommit h).catching fun r => ?_
      match r with
      | .error e => exact silences_failed h
      | .ok true => exact .ret _
      | .ok false => exact .ret _

theorem silences_round {maxIterations : Option ℤ} {v : Loop Obj} :
    Silences h (h.round maxIterations v) (h.silent.round maxIterations v) := by
  refine .bind (silences_perform h rfl).catching fun r => ?_
  match r with
  | .error e => exact .ret _
  | .ok true => exact .ret _
  | .ok false =>
    dsimp only
    split_ifs
    · exact silences_iteration h
    · exact .ret _

theorem silences_finish {e : LoopEnd Obj ε} : Silences h (h.finish e) (h.silent.finish e) := by
  refine .bind (silences_emit h) fun _ => .bind (silences_perform h rfl) fun _ => ?_
  obtain ⟨v, r⟩ := e
  cases r with
  | ok _ => exact .ret _
  | error e => exact .raise e

theorem silences_run [Inhabited Obj] {maxIterations : Option ℤ} {rounds : ℕ} :
    Silences h (h.run maxIterations rounds : WorkerProg Obj ε (Option (WorkerRun Obj)))
      (h.silent.run maxIterations rounds) := by
  unfold WorkerHost.run
  split_ifs
  · exact .raise _
  refine .bind (silences_perform h rfl) fun b => ?_
  split_ifs
  · exact .raise _
  refine .bind (silences_perform h rfl).catching fun r => ?_
  cases r with
  | error e => exact silences_finish h
  | ok c =>
    refine .bind (silences_emit h).catching fun r => ?_
    cases r with
    | error e => exact silences_finish h
    | ok _ =>
      refine .bind (.iterate fun v => silences_round h) fun x => ?_
      cases x with
      | none => exact .ret _
      | some e => exact silences_finish h

/-- **Telemetry isolation**: in an environment whose other calls do not see those for
    events, the run makes the same other calls and ends the same as the run without a
    heartbeat, if every event it sends can be built and the callback leaves the stop flag
    alone (`hstop`). -/
theorem telemetry_isolated [Inhabited Obj] {maxIterations : Option ℤ} {rounds : ℕ}
    {env env' : (o : WorkerOp Obj ε) → WorkerHist Obj ε → Except (HostExc ε) o.Val}
    (hwork : ∀ o t, o.isTelemetry = false → o ≠ .isSet →
      env o t = env' o (kept WorkerOp.isTelemetry t))
    (hstop : ∀ t, env .isSet t = env' .isSet (kept WorkerOp.isTelemetry t))
    (htells : ∀ e ∈ ((h.run maxIterations rounds).exec env []).2,
      e.1.isTelemetry = true → h.Tells e.1 e.2) :
    (h.silent.run maxIterations rounds).exec env' [] =
      (((h.run maxIterations rounds).exec env []).1,
        kept WorkerOp.isTelemetry ((h.run maxIterations rounds).exec env []).2) := by
  refine (silences_run h).exec (fun o t ho => ?_) htells
  by_cases hs : o = .isSet
  · subst hs
    exact hstop t
  · exact hwork o t ho hs

end

/-- The text of the failing fetch's exception cannot be formed. -/
def mute : (o : WorkerOp ℕ Unit) → WorkerHist ℕ Unit → Except (HostExc Unit) o.Val
  | .describe _, _ => .error (.consumer ())
  | o, t => failOnce o (kept WorkerOp.isTelemetry t)

def beating : WorkerHost Unit := { plainHost with heartbeat := true }

/-- **A heartbeat can take down source work**: the clock and the callback answer, but the
    text of an exception raises, and the run ends where the one without a heartbeat
    retries. -/
theorem telemetry_not_isolated :
    ∃ env env' : (o : WorkerOp ℕ Unit) → WorkerHist ℕ Unit → Except (HostExc Unit) o.Val,
    (∀ o t, o.isTelemetry = false → env o t = env' o (kept WorkerOp.isTelemetry t)) ∧
    (∀ o t, (∀ e, o ≠ .describe e) → o.isTelemetry = true → beating.Tells o (env o t)) ∧
    (beating.silent.run none 4).exec env' [] ≠
    (((beating.run none 4).exec env []).1,
      kept WorkerOp.isTelemetry ((beating.run none 4).exec env []).2) := by
  refine ⟨mute, failOnce, fun o t ho => ?_, fun o t ho ht => ?_, fun heq => ?_⟩
  · cases o <;> first | rfl | cases ho
  · cases o <;> first | exact ⟨_, rfl⟩ | exact absurd rfl (ho _) | trivial
  · have hmute : ((beating.run none 4).exec mute []).1 = .error (.consumer ()) := rfl
    have hsilent : ((beating.silent.run none 4).exec failOnce []).1 = .ok (some ⟨1, 1, 1, 3⟩) := rfl
    rw [heq] at hsilent
    rw [hmute] at hsilent
    cases hsilent

/-- The same run with an intent whose exceptions have a text. -/
theorem telemetry_isolated_run : ((beating.silent.run none 4).exec failOnce []).1 =
    ((beating.run none 4).exec (fun o t => failOnce o (kept WorkerOp.isTelemetry t)) []).1 := by
  have htells : ∀ (o : WorkerOp ℕ Unit) t, o.isTelemetry = true →
      beating.Tells o (failOnce o t) := by
    intro o t ho
    cases o <;> first | exact ⟨_, rfl⟩ | trivial
  rw [telemetry_isolated beating (fun _ _ _ _ => rfl) (fun _ => rfl)
    (exec_answers (fun o t => failOnce o (kept WorkerOp.isTelemetry t))
      (fun o t ho => htells o _ ho) _)]

end DatasourceKit

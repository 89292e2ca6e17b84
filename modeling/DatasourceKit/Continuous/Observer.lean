/-
  The observer of a continuous host and its work: `observer_isolated`.

  An observer that raises only `Exception`s and requests no stop changes nothing: the run makes
  the same other calls and ends the same as the run without an observer, and `on_error` is handed
  only what the step has raised, or the complaint that it has answered no directive.  One that
  requests a stop ends the run (`observer_stops`).
-/
import DatasourceKit.Continuous

namespace DatasourceKit

open Interleave Interleave.Prog

section
variable {ε : Type}

/-- The observer raises nothing but an `Exception`. -/
def ContinuousWorkerHost.Observes (h : ContinuousWorkerHost ε) :
    (o : LoopOp ε) → Except (HostExc ε) o.Val → Prop
  | .observe _ _ _, .error e => h.catches e = true
  | _, _ => True

/-- The host without its observer. -/
def ContinuousWorkerHost.unobserved (h : ContinuousWorkerHost ε) :
    ContinuousWorkerHost ε := { h with observe := false }

variable (h : ContinuousWorkerHost ε)

/-! ## The run without an observer -/

/-- `q` is `p` without the observations. -/
abbrev Unobserves {α : Type} (p q : LoopProg ε α) : Prop := Erases LoopOp.isObserve h.Observes p q

theorem unobserves_emit {event : String} {context : LoopContext} {d : Option LoopDirective} :
    Unobserves h (h.emit event context d) (h.unobserved.emit event context d) := by
  have hsilent : h.unobserved.emit event context d = ret () := rfl
  rw [hsilent]
  cases ho : h.observe with
  | false =>
    simp only [ContinuousWorkerHost.emit, ho, Bool.not_false, if_true]
    exact .ret ()
  | true =>
    simp only [ContinuousWorkerHost.emit, ho, Bool.not_true, Bool.false_eq_true, if_false]
    refine .skip rfl fun r hr => ?_
    cases r with
    | ok v => exact .ret ()
    | error e =>
      have hc : h.catches e = true := hr
      simp only [handle, hc, if_true]
      exact .ret ()

theorem unobserves_perform {o : LoopOp ε} (ho : o.isObserve = false) :
    Unobserves h (perform o) (perform o) :=
  .refl (uses_perform ho)

theorem unobserves_wait {seconds : ℚ} :
    Unobserves h (h.wait seconds) (h.unobserved.wait seconds) := by
  show Unobserves h (h.wait seconds) (h.wait seconds)
  unfold ContinuousWorkerHost.wait
  split_ifs
  · exact unobserves_perform h rfl
  · refine .bind (unobserves_perform h rfl) fun b => ?_
    split_ifs
    · exact unobserves_perform h rfl
    · exact .ret ()

theorem unobserves_rotate {context : LoopContext} {reason : String} :
    Unobserves h (h.rotate context reason) (h.unobserved.rotate context reason) :=
  .bind (unobserves_perform h rfl) fun _ => unobserves_emit h

theorem unobserves_requireDirective {answer : LoopAnswer} {source : String} :
    Unobserves h (requireDirective answer source) (requireDirective answer source) := by
  cases answer with
  | directive d => exact .ret d
  | none => exact .raise _
  | other => exact .raise _

theorem unobserves_conclude {d : LoopDirective} {context : LoopContext}
    {v : LoopVars} {fromError : Bool} :
    Unobserves h (h.conclude d context v fromError)
    (h.unobserved.conclude d context v fromError) := by
  refine .bind (.bind ?_ fun attempts => ?_) fun x => ?_
  · unfold ContinuousWorkerHost.applyBoundary
    cases d.boundary with
    | keep => exact .ret _
    | rotate => exact .bind (unobserves_rotate h) fun _ => .ret _
  · unfold ContinuousWorkerHost.applyAction
    cases d.action with
    | stop => exact .ret _
    | cont => exact .ret _
    | wait => exact .bind (unobserves_wait h) fun _ => .ret _
  · obtain ⟨v', shouldStop⟩ := x
    dsimp only
    split_ifs <;> exact .ret _

theorem unobserves_controlStage {context : LoopContext} :
    Unobserves h (h.controlStage context) (h.unobserved.controlStage context) := by
  show Unobserves h (h.controlStage context) (h.controlStage context)
  unfold ContinuousWorkerHost.controlStage
  split_ifs
  · exact .ret _
  refine .bind (unobserves_perform h rfl) fun answer => ?_
  cases answer with
  | none => exact .ret _
  | directive d => exact .bind (unobserves_requireDirective h) fun _ => .ret _
  | other => exact .bind (unobserves_requireDirective h) fun _ => .ret _

theorem unobserves_rotateStage {v : LoopVars} :
    Unobserves h (h.rotateStage v) (h.unobserved.rotateStage v) := by
  have hattempts : h.unobserved.rotationAttempts = h.rotationAttempts := rfl
  unfold ContinuousWorkerHost.rotateStage
  rw [hattempts]
  split_ifs
  · exact .bind (unobserves_rotate h) fun _ => .ret _
  · exact .ret _

theorem unobserves_errorStage {context : LoopContext} {e : HostExc ε} :
    Unobserves h (h.errorStage context e) (h.unobserved.errorStage context e) := by
  have honError : h.unobserved.onError = h.onError := rfl
  unfold ContinuousWorkerHost.errorStage
  rw [honError]
  split_ifs
  · exact .raise _
  · exact .bind (unobserves_perform h rfl) fun _ => .bind (unobserves_requireDirective h) fun _ =>
      .bind (unobserves_emit h) fun _ => .ret _

theorem unobserves_stepStage {context : LoopContext} :
    Unobserves h (h.stepStage context) (h.unobserved.stepStage context) :=
  .handle (.bind (unobserves_perform h rfl) fun _ => .bind (unobserves_requireDirective h) fun _ =>
    .bind (unobserves_emit h) fun _ => .ret _) fun _ => unobserves_errorStage h

theorem unobserves_round {maxCounted : Option ℤ} {v : LoopVars} :
    Unobserves h (h.round maxCounted v) (h.unobserved.round maxCounted v) := by
  refine .bind (unobserves_perform h rfl) fun b => ?_
  split_ifs
  · exact .ret _
  · exact .ret _
  refine .bind (unobserves_controlStage h) fun x => ?_
  cases x with
  | some d => exact .bind (unobserves_emit h) fun _ => unobserves_conclude h
  | none =>
    refine .bind (unobserves_rotateStage h) fun v => .bind (unobserves_stepStage h) fun x => ?_
    exact unobserves_conclude h

theorem unobserves_run {maxCounted : Option ℤ} {rounds : ℕ} :
    Unobserves h (h.run maxCounted rounds) (h.unobserved.run maxCounted rounds) := by
  unfold ContinuousWorkerHost.run
  split_ifs
  · exact .raise _
  refine .bind (unobserves_perform h rfl) fun b => ?_
  split_ifs
  · exact .raise _
  refine .bind (Erases.iterate fun v => unobserves_round h).catching fun r => ?_
  match r with
  | .ok none => exact .ret _
  | .ok (some v) =>
    refine .bind (.ensure (.bind (unobserves_emit h) fun _ => .ret _) (unobserves_perform h rfl))
      fun _ => .ret _
  | .error e => exact .bind (unobserves_perform h rfl) fun _ => .raise _

/-! ## What `on_error` is handed -/

/-- The step has raised the exception, or answered no directive. -/
def StepFails (exc : HostExc ε) (r : Except (HostExc ε) LoopAnswer) : Prop :=
  r = .error exc ∨ exc = .typeError "step must return LoopDirective" ∧
    ∃ a, r = .ok a ∧ ∀ d, a ≠ .directive d

/-- `on_error` is called with what the step has raised, if no other callback is in between. -/
def HandsOn (o : LoopOp ε) (t : LoopHist ε) : Prop :=
  ∀ exc context, o = .onError exc context →
    ∃ r t', callbacks t = ⟨.step context, r⟩ :: t' ∧ StepFails exc r

def LoopOp.isOnError : LoopOp ε → Bool
  | onError _ _ => true
  | _ => false

/-- The environment: an observer that raises only `Exception`s. -/
abbrev Observed : (o : LoopOp ε) → LoopHist ε → Except (HostExc ε) o.Val → LoopHist ε → Prop :=
  Records fun o r _ => h.Observes o r

theorem handsOn_of_uses {α : Type} {p : LoopProg ε α} (hp : p.Uses (LoopOp.isOnError · = false)) :
    Everywhere (Observed h) HandsOn p := by
  refine .of_uses hp fun o t ho exc context he => ?_
  rw [he] at ho
  cases ho

theorem uses_emitEvent {event : String} {context : LoopContext} {d : Option LoopDirective} :
    (h.emit event context d).Uses (LoopOp.isOnError · = false) := by
  unfold ContinuousWorkerHost.emit
  split_ifs
  · trivial
  · refine Uses.handle (uses_perform (o := LoopOp.observe _ _ _) rfl) fun e => ?_
    split_ifs <;> trivial

theorem uses_rotate {context : LoopContext} {reason : String} :
    (h.rotate context reason).Uses (LoopOp.isOnError · = false) :=
  Uses.bind (uses_perform (o := LoopOp.rotate _ _) rfl) fun _ => uses_emitEvent h

theorem uses_conclude {d : LoopDirective} {context : LoopContext}
    {v : LoopVars} {fromError : Bool} :
    (h.conclude d context v fromError).Uses (LoopOp.isOnError · = false) := by
  refine Uses.bind (Uses.bind ?_ fun attempts => ?_) fun x => ?_
  · unfold ContinuousWorkerHost.applyBoundary
    cases d.boundary with
    | keep => trivial
    | rotate => exact (uses_rotate h).bind fun _ => trivial
  · unfold ContinuousWorkerHost.applyAction
    cases d.action with
    | stop => trivial
    | cont => trivial
    | wait =>
      refine Uses.bind ?_ fun _ => trivial
      unfold ContinuousWorkerHost.wait
      split_ifs
      · exact uses_perform (o := LoopOp.stopWait _) rfl
      · refine Uses.bind (uses_perform (o := LoopOp.isSet) rfl) fun b => ?_
        split_ifs
        · exact uses_perform (o := LoopOp.sleep _) rfl
        · trivial
  · obtain ⟨v', shouldStop⟩ := x
    dsimp only
    split_ifs <;> trivial

theorem uses_requireDirective {answer : LoopAnswer} {source : String} :
    (requireDirective (ε := ε) answer source).Uses (LoopOp.isOnError · = false) := by
  cases answer <;> trivial

theorem handsOn_errorStage {context : LoopContext} {exc : HostExc ε} {t t' : LoopHist ε}
    {r : Except (HostExc ε) LoopAnswer}
    (hc : callbacks t = ⟨.step context, r⟩ :: t') (hr : StepFails exc r) :
    (h.errorStage context exc).Always (Observed h) HandsOn (fun _ _ => True)
    (fun _ _ => True) t := by
  unfold ContinuousWorkerHost.errorStage
  split_ifs
  · trivial
  refine always_bind.2 (always_event ?_ (fun answer _ => ?_) fun _ _ => trivial)
  · rintro exc' context' he
    cases he
    exact ⟨r, t', hc, hr⟩
  · refine handsOn_of_uses h ?_ _
    exact (uses_requireDirective (ε := ε)).bind fun _ => (uses_emitEvent h).bind fun _ => trivial

theorem handsOn_stepStage {context : LoopContext} :
    Everywhere (Observed h) HandsOn (h.stepStage context) := by
  intro t
  refine always_handle.2 (always_bind.2
    (always_event (fun _ _ he => by cases he) (fun answer _ => ?_)
    fun e _ => handsOn_errorStage h rfl (.inl rfl)))
  have hcomplain : ∀ a : LoopAnswer, (∀ d, a ≠ .directive d) → (h.errorStage context
      (.typeError "step must return LoopDirective")).Always (Observed h) HandsOn
        (fun _ _ => True) (fun _ _ => True)
        (⟨.step context, .ok a⟩ :: t) :=
    fun a ha => handsOn_errorStage h rfl (.inr ⟨rfl, a, rfl, ha⟩)
  cases answer with
  | none => exact hcomplain _ fun d hd => by cases hd
  | other => exact hcomplain _ fun d hd => by cases hd
  | directive d =>
    refine always_bind.2 (always_ret.2 (always_bind.2 ?_))
    unfold ContinuousWorkerHost.emit
    split_ifs
    · trivial
    refine always_handle.2 (always_event (fun _ _ he => by cases he) (fun _ _ => trivial)
      fun e he => ?_)
    -- only an `Exception` of the observer gets here
    have hcatch : h.catches e = true := he
    rw [if_pos hcatch]
    trivial

theorem handsOn_round {maxCounted : Option ℤ} {v : LoopVars} :
    Everywhere (Observed h) HandsOn (h.round maxCounted v) := by
  refine .bind (handsOn_of_uses h (uses_perform (o := LoopOp.isSet) rfl)) fun b => ?_
  split_ifs
  · exact fun _ => trivial
  · exact fun _ => trivial
  refine .bind (handsOn_of_uses h ?_) fun x => ?_
  · unfold ContinuousWorkerHost.controlStage
    split_ifs
    · trivial
    refine Uses.bind (uses_perform (o := LoopOp.control _) rfl) fun answer => ?_
    cases answer <;> trivial
  cases x with
  | some d => exact handsOn_of_uses h ((uses_emitEvent h).bind fun _ => uses_conclude h)
  | none =>
    refine .bind (handsOn_of_uses h ?_) fun v => .bind (handsOn_stepStage h) fun x => ?_
    · unfold ContinuousWorkerHost.rotateStage
      split_ifs
      · exact (uses_rotate h).bind fun _ => trivial
      · trivial
    · exact handsOn_of_uses h (uses_conclude h)

theorem handsOn_run {maxCounted : Option ℤ} {rounds : ℕ} :
    Everywhere (Observed h) HandsOn (h.run maxCounted rounds) := by
  have hrelease : (perform (LoopOp.release (ε := ε)) : LoopProg ε Unit).Uses
      (LoopOp.isOnError · = false) :=
      uses_perform rfl
  unfold ContinuousWorkerHost.run
  split_ifs
  · exact fun _ => trivial
  refine .bind (handsOn_of_uses h (uses_perform (o := LoopOp.acquire) rfl)) fun b => ?_
  split_ifs
  · exact fun _ => trivial
  refine .bind (Everywhere.iterate fun v => handsOn_round h).catching fun r => ?_
  match r with
  | .ok none => exact fun _ => trivial
  | .ok (some v) =>
    refine handsOn_of_uses h (Uses.bind (Uses.ensure ?_ hrelease) fun _ => trivial)
    exact (uses_emitEvent h).bind fun _ => trivial
  | .error e => exact handsOn_of_uses h (hrelease.bind fun _ => trivial)

/-- **Observer isolation**: in an environment whose other calls do not see the observations, the
    run makes the same other calls and ends the same as the run without an observer, if the
    observer raises only `Exception`s and leaves the stop flag alone (`hstop`); and wherever it has
    got to, it hands on to `on_error` only what the step has raised or failed to answer. -/
theorem observer_isolated {maxCounted : Option ℤ} {rounds : ℕ}
    {env env' : (o : LoopOp ε) → LoopHist ε → Except (HostExc ε) o.Val}
    (hwork : ∀ o t, o.isObserve = false → o ≠ .isSet → env o t = env' o (kept LoopOp.isObserve t))
    (hstop : ∀ t, env .isSet t = env' .isSet (kept LoopOp.isObserve t))
    (hobserves : ∀ o t, o.isObserve = true → h.Observes o (env o t)) :
    (h.unobserved.run maxCounted rounds).exec env' [] =
      (((h.run maxCounted rounds).exec env []).1,
        kept LoopOp.isObserve ((h.run maxCounted rounds).exec env []).2) ∧
    ∀ t exc context k, Reaches (fun o r _ => h.Observes o r) (h.run maxCounted rounds) [] t
        (.call (.onError exc context) k) →
      ∃ r t', callbacks t = ⟨.step context, r⟩ :: t' ∧ StepFails exc r := by
  have henv : ∀ o t, o.isObserve = false → env o t = env' o (kept LoopOp.isObserve t) := by
    intro o t ho
    by_cases hs : o = .isSet
    · subst hs
      exact hstop t
    · exact hwork o t ho hs
  refine ⟨(unobserves_run h).exec henv (exec_answers env hobserves _), fun t exc context k hr => ?_⟩
  exact ((handsOn_run h []).reaches hr).1 exc context rfl

end

/-- A host whose observer always raises. -/
def grumbling : ContinuousWorkerHost Unit :=
  { onError := true, observe := true, rotationAttempts := some 1, isException := fun _ => true }

/-- The step always goes on, and the observer always raises. -/
def grumble : (o : LoopOp Unit) → LoopHist Unit → Except (HostExc Unit) o.Val
  | .observe _ _ _, _ => .error (.consumer ())
  | o, t => goOn o t

/-- The run with the observer makes two steps with a rotation between them, as the one without
    it; and a step that fails is handed on. -/
theorem observer_isolated_run :
    ((grumbling.run (some 2) 3).exec grumble []).1 =
    .ok (some ⟨2, 2, 1, some { action := .cont }⟩) ∧
    steps ((grumbling.unobserved.run (some 2) 3).exec (fun o t => goOn o t) []).2 = 2 ∧
    rotations ((grumbling.unobserved.run (some 2) 3).exec (fun o t => goOn o t) []).2 =
    ["attempt-limit"] ∧ (grumbling.unobserved.run (some 2) 3).exec (fun o t => goOn o t) [] =
    (((grumbling.run (some 2) 3).exec grumble []).1,
        kept LoopOp.isObserve ((grumbling.run (some 2) 3).exec grumble []).2) ∧
    ∃ t k, Reaches (fun o r _ => grumbling.Observes o r) (grumbling.run (some 2) 3) [] t
        (.call (.onError (.consumer ()) ⟨1, 0, 1, false⟩) k) ∧
      ∃ r t', callbacks t = ⟨.step ⟨1, 0, 1, false⟩, r⟩ :: t' ∧ StepFails (.consumer ()) r := by
  have hwork : ∀ (o : LoopOp Unit) t, o.isObserve = false → o ≠ .isSet →
      grumble o t = goOn o (kept LoopOp.isObserve t) := by
    intro o t ho _
    cases o <;> first | rfl | cases ho
  have hobserves : ∀ (o : LoopOp Unit) t, o.isObserve = true →
      grumbling.Observes o (grumble o t) := by
    intro o t ho
    cases o <;> first | rfl | trivial
  obtain ⟨hsame, hhands⟩ :=
    @observer_isolated _ grumbling (some 2) 3 _ _ hwork (fun _ => rfl) hobserves
  have hstart : Reaches (fun o r _ => grumbling.Observes o r) (grumbling.run (some 2) 3) [] []
      (grumbling.run (some 2) 3) := .start
  have hlocked := hstart.step (r := .ok true) trivial
  have hasked := hlocked.step (r := .ok false) trivial
  have hfailed := hasked.step (r := .error (HostExc.consumer ())) trivial
  exact ⟨rfl, rfl, rfl, hsame, _, _, hfailed, hhands _ _ _ _ hfailed⟩

/-- The step always goes on; the stop flag is set by the first observation. -/
def callOff : (o : LoopOp Unit) → LoopHist Unit → Except (HostExc Unit) o.Val
  | .isSet, t => .ok (t.any fun e => e.1.isObserve)
  | o, t => goOn o t

theorem unrotated (n : ℕ) (hn : (none : Option ℕ) = some n) : 1 ≤ n := by cases hn

def watching : ContinuousWorkerHost Unit :=
  { observe := true, isException := fun _ => true, rotation_pos := unrotated }

/-- **An observer can end the run**: it touches none of the other callbacks and raises nothing, but
    requests a stop when it is told of the first step; the run without it makes a second one. -/
theorem observer_stops :
    ∃ env env' : (o : LoopOp Unit) → LoopHist Unit → Except (HostExc Unit) o.Val,
    (∀ o t, o.isObserve = false → o ≠ .isSet → env o t = env' o (kept LoopOp.isObserve t)) ∧
    (∀ t, env' .isSet t = .ok false) ∧ (∀ t, env .isSet t = .ok (t.any fun e => e.1.isObserve)) ∧
    (∀ o t, o.isObserve = true → watching.Observes o (env o t)) ∧
    steps ((watching.run (some 2) 3).exec env []).2 = 1 ∧
    steps ((watching.unobserved.run (some 2) 3).exec env' []).2 = 2 ∧
    (watching.unobserved.run (some 2) 3).exec env' [] ≠
    (((watching.run (some 2) 3).exec env []).1,
      kept LoopOp.isObserve ((watching.run (some 2) 3).exec env []).2) := by
  refine ⟨callOff, fun o t => goOn o t, fun o t ho hs => ?_, fun _ => rfl, fun _ =>
    rfl, fun o t ho => ?_, rfl, rfl, fun heq => ?_⟩
  · cases o <;> first | rfl | exact absurd rfl hs
  · cases o <;> trivial
  · have hone : ((watching.run (some 2) 3).exec callOff []).1 =
        .ok (some ⟨1, 1, 1, some { action := .cont }⟩) := rfl
    have htwo : ((watching.unobserved.run (some 2) 3).exec (fun o t => goOn o t) []).1 =
        .ok (some ⟨2, 2, 2, some { action := .cont }⟩) := rfl
    rw [heq, hone] at htwo
    cases htwo

end DatasourceKit

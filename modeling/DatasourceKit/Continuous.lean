/-
  `ContinuousWorkerHost` (`continuous.py`): a consumer's step, repeated by directives.

  * `LoopOp`: the calls of the host; each may answer anything or raise;
  * `ContinuousWorkerHost.run`: the program;
  * `steps`, `attempts`, `applied`: the step calls, those since the last rotation, and the
    directives applied, read off a history.  `loop_counters`: every callback is passed
    them, and the run returns them.
-/
import DatasourceKit.Worker.Host

namespace DatasourceKit

open Interleave Interleave.Prog

/-! ## Data -/

inductive LoopAction where
  | cont | wait | stop
deriving DecidableEq

inductive BoundaryAction where
  | keep | rotate
deriving DecidableEq

structure LoopDirective where
  action : LoopAction
  boundary : BoundaryAction := .keep
  delay : Option ℚ := none
  counted : Bool := true
  reason : String := ""
  delay_nonneg : ∀ d, delay = some d → 0 ≤ d := by simp
deriving DecidableEq

structure LoopContext where
  sequence : ℕ
  counted : ℕ
  attemptsInBoundary : ℕ
  repeatedWait : Bool
deriving DecidableEq

structure LoopRun where
  sequence : ℕ
  counted : ℕ
  attemptsInBoundary : ℕ
  lastDirective : Option LoopDirective

/-- What a callback may return. -/
inductive LoopAnswer where
  | none
  | directive (d : LoopDirective)
  | other

/-! ## Calls -/

/-- The calls of a host.  `rotate` replaces the open boundary: it calls the hook, if there
    is one. -/
inductive LoopOp (ε : Type) where
  | acquire | release
  | isSet | stopWait (s : ℚ) | sleep (s : ℚ)
  | step (context : LoopContext)
  | control (context : LoopContext)
  | rotate (context : LoopContext) (reason : String)
  | onError (exc : HostExc ε) (context : LoopContext)
  | observe (event : String) (context : LoopContext) (directive : Option LoopDirective)

abbrev LoopOp.Val {ε : Type} : LoopOp ε → Type
  | acquire | isSet => Bool
  | step _ | control _ | onError _ _ => LoopAnswer
  | _ => Unit

abbrev LoopProg (ε : Type) := Prog (LoopOp.Val (ε := ε)) (HostExc ε)

/-! ## The host -/

/-- A host: its hooks that are set (`injected`: another sleep than `time.sleep`), and
    which of the consumer's exceptions are an `Exception`. -/
structure ContinuousWorkerHost (ε : Type) where
  control : Bool := false
  onError : Bool := false
  observe : Bool := false
  injected : Bool := false
  rotationAttempts : Option ℕ := none
  isException : ε → Bool
  rotation_pos : ∀ n, rotationAttempts = some n → 1 ≤ n := by simp

/-- The variables of a run. -/
structure LoopVars where
  sequence : ℕ := 0
  counted : ℕ := 0
  attempts : ℕ := 0
  repeatedWait : Bool := false
  last : Option LoopDirective := none

/-- A step begins. -/
def LoopVars.begin (v : LoopVars) : LoopVars :=
  { v with sequence := v.sequence + 1, attempts := v.attempts + 1 }

def LoopVars.context (v : LoopVars) : LoopContext :=
  ⟨v.sequence, v.counted, v.attempts, v.repeatedWait⟩

def requireDirective {ε : Type} (value : LoopAnswer) (source : String) : LoopProg ε LoopDirective :=
  match value with
  | .directive d => return d
  | _ => raise (.typeError (source ++ " must return LoopDirective"))

namespace ContinuousWorkerHost
variable {ε : Type} (h : ContinuousWorkerHost ε)

def catches : HostExc ε → Bool
  | .consumer e => h.isException e
  | _ => true

def emit (event : String) (context : LoopContext) (directive : Option LoopDirective) :
    LoopProg ε Unit :=
  if !h.observe then ret ()
  else handle (perform (LoopOp.observe event context directive))
    (fun e => if h.catches e then ret () else raise e)

def wait (seconds : ℚ) : LoopProg ε Unit :=
  if !h.injected then perform (LoopOp.stopWait seconds)
  else do
    if !(← perform LoopOp.isSet) then perform (LoopOp.sleep seconds)

def rotate (context : LoopContext) (reason : String) : LoopProg ε Unit := do
  perform (LoopOp.rotate context reason)
  h.emit "rotate" context none

/-- The boundary part of `_apply`: the attempts that are left. -/
def applyBoundary (directive : LoopDirective) (context : LoopContext) (attempts : ℕ) :
    LoopProg ε ℕ :=
  match directive.boundary with
  | .keep => return attempts
  | .rotate => do
    h.rotate context directive.reason
    return 0

/-- The action part of `_apply`: the variables, and does the run stop? -/
def applyAction (directive : LoopDirective) (v : LoopVars) : LoopProg ε (LoopVars × Bool) :=
  match directive.action with
  | .stop => return (v, true)
  | .wait => do
    h.wait (directive.delay.getD 0)
    return (v, false)
  | .cont => return (v, false)

/-- `_apply`. -/
def apply (directive : LoopDirective) (context : LoopContext) (v : LoopVars) (fromError : Bool) :
    LoopProg ε (LoopVars × Bool) := do
  let counted := if directive.counted then v.counted + 1 else v.counted
  let attempts ← h.applyBoundary directive context v.attempts
  h.applyAction directive { v with
    counted := counted, attempts := attempts, repeatedWait :=
    fromError || directive.action == .wait }

/-- What the `control` hook directs, if there is one and it does. -/
def controlStage (context : LoopContext) : LoopProg ε (Option LoopDirective) :=
  if !h.control then return none
  else do
    match ← perform (LoopOp.control context) with
    | .none => return none
    | answer => return some (← requireDirective answer "control")

/-- The periodic rotation. -/
def rotateStage (v : LoopVars) : LoopProg ε LoopVars :=
  if h.rotationAttempts.any (· ≤ v.attempts) then do
    h.rotate v.context "attempt-limit"
    return { v with attempts := 0 }
  else return v

/-- The handler around the step. -/
def errorStage (context : LoopContext) (exc : HostExc ε) : LoopProg ε (LoopDirective × Bool) :=
  if !h.onError then raise exc
  else do
    let directive ← requireDirective (← perform (LoopOp.onError exc context)) "on_error"
    h.emit "error" context (some directive)
    return (directive, true)

/-- The `try` block around the step: the directive, and is it from `on_error`? -/
def stepStage (context : LoopContext) : LoopProg ε (LoopDirective × Bool) :=
  handle
    (do
      let directive ← requireDirective (← perform (LoopOp.step context)) "step"
      h.emit "step" context (some directive)
      return (directive, false))
    (h.errorStage context)

/-- A directive is applied at the end of a round. -/
def conclude (directive : LoopDirective) (context : LoopContext) (v : LoopVars) (fromError : Bool) :
    LoopProg ε (LoopVars ⊕ LoopVars) := do
  let (v, shouldStop) ← h.apply directive context { v with last := some directive } fromError
  if shouldStop then return .inr v else return .inl v

/-- One round of the loop: its test, and the body. -/
def round (maxCounted : Option ℤ) (v : LoopVars) : LoopProg ε (LoopVars ⊕ LoopVars) := do
  if ← perform LoopOp.isSet then return .inr v
  else if !(maxCounted.all fun m => (v.counted : ℤ) < m) then return .inr v
  else
    match ← h.controlStage v.context with
    | some directive => do
      h.emit "control" v.context (some directive)
      h.conclude directive v.context v false
    | none => do
      let v ← h.rotateStage v
      let v := v.begin
      let (directive, fromError) ← h.stepStage v.context
      h.conclude directive v.context v fromError

/-- The `try` block after the loop. -/
def summary (v : LoopVars) : LoopProg ε LoopRun := do
  h.emit "stopped" v.context v.last
  return ⟨v.sequence, v.counted, v.attempts, v.last⟩

/-- `run`, up to `rounds` rounds of its loop; `none` if it is still running then. -/
def run (maxCounted : Option ℤ) (rounds : ℕ) : LoopProg ε (Option LoopRun) :=
  if maxCounted.any (· < 0) then raise (.valueError "max_counted must be >= 0")
  else do
    if !(← perform LoopOp.acquire) then
      raise (.runtimeError "continuous worker host is already running")
    else
      match ← (iterate (h.round maxCounted) rounds {}).catching with
      | .ok none => return none
      | .ok (some v) => do
        let result ← (h.summary v).ensure (perform LoopOp.release)
        return some result
      | .error e => do
        perform LoopOp.release
        raise e

end ContinuousWorkerHost

/-! ## What a history shows -/

abbrev LoopHist (ε : Type) := Hist (LoopOp.Val (ε := ε)) (HostExc ε)

section
variable {ε : Type}

def LoopOp.isStep : LoopOp ε → Bool
  | step _ => true
  | _ => false

def LoopOp.isObserve : LoopOp ε → Bool
  | observe _ _ _ => true
  | _ => false

/-- How often `step` has been called. -/
def steps (t : LoopHist ε) : ℕ := t.countP fun e => e.1.isStep

/-- How often `step` has been called since the last rotation. -/
def attempts : LoopHist ε → ℕ
  | [] => 0
  | ⟨.step _, _⟩ :: t => attempts t + 1
  | ⟨.rotate _ _, _⟩ :: _ => 0
  | _ :: t => attempts t

/-- The directive that a callback has answered, and is it from `on_error`? -/
def directive? : Event (LoopOp.Val (ε := ε)) (HostExc ε) → Option (LoopDirective × Bool)
  | ⟨.control _, .ok (.directive d)⟩ => some (d, false)
  | ⟨.step _, .ok (.directive d)⟩ => some (d, false)
  | ⟨.onError _ _, .ok (.directive d)⟩ => some (d, true)
  | _ => none

variable (h : ContinuousWorkerHost ε)

/-- The event raises what is no `Exception`, although it is only an observation. -/
def ContinuousWorkerHost.discards : Event (LoopOp.Val (ε := ε)) (HostExc ε) → Bool
  | ⟨.observe _ _ _, .error e⟩ => !h.catches e
  | _ => false

/-- The directives of a history, the last one first, that are applied: those whose
    observation has not raised.  `discarded`: the next event discards the last one. -/
def appliedUnless (discarded : Bool) : LoopHist ε → List (LoopDirective × Bool)
  | [] => []
  | e :: t => (if discarded then none else directive? e).toList ++ appliedUnless (h.discards e) t

def applied (t : LoopHist ε) : List (LoopDirective × Bool) := appliedUnless h false t

/-- How many of the directives count. -/
def countedOf (l : List (LoopDirective × Bool)) : ℕ := l.countP fun d => d.1.counted

/-- The last directive is a `WAIT` or from `on_error`. -/
def repeatedWaitOf (l : List (LoopDirective × Bool)) : Bool :=
  l.head?.any fun d => d.2 || d.1.action == .wait

/-- The counters after a history. -/
def counters (t : LoopHist ε) : LoopVars where
  sequence := steps t
  counted := countedOf (applied h t)
  attempts := attempts t
  repeatedWait := repeatedWaitOf (applied h t)
  last := (applied h t).head?.map Prod.fst

/-- The calls but the observations. -/
def callbacks (t : LoopHist ε) : LoopHist ε := t.filter fun e => !e.1.isObserve

/-- The last callback has directed a rotation, for this reason. -/
def Directed (t : LoopHist ε) (reason : String) : Prop :=
  ∃ d, (callbacks t).head?.bind directive? = some d ∧ d.1.boundary = .rotate ∧ d.1.reason = reason

/-- The next step would be one attempt too many in the open boundary. -/
def Exhausted (t : LoopHist ε) : Prop := h.rotationAttempts = some (attempts t)

/-- The last callback is a rotation that no callback has directed. -/
def Renewed (t : LoopHist ε) : Prop :=
  ∃ context reason t', callbacks t = ⟨.rotate context reason, .ok ()⟩ :: t' ∧
    t'.head?.bind directive? = none

/-- What the host passes to a callback. -/
def LoopJustified (maxCounted : Option ℤ) (t : LoopHist ε) : LoopOp ε → Prop
  | .step context =>
    context = ⟨steps t + 1, countedOf (applied h t), attempts t + 1, repeatedWaitOf (applied h t)⟩ ∧
      (∀ n, h.rotationAttempts = some n → attempts t + 1 ≤ n) ∧
      ∀ m, maxCounted = some m → (countedOf (applied h t) : ℤ) < m
  | .control context => context = (counters h t).context
  | .rotate context reason =>
    Directed t reason ∨ Exhausted h t ∧ reason = "attempt-limit" ∧ context = (counters h t).context
  | .onError _ context => ∃ r t', callbacks t = ⟨.step context, r⟩ :: t'
  | _ => True

/-- When the host makes a call: after a rotation that no callback has directed it calls
    `step`, and when a directive that it applies asks for a rotation it rotates.  Only the
    observations come between. -/
def LoopGuard (maxCounted : Option ℤ) (o : LoopOp ε) (t : LoopHist ε) : Prop :=
  LoopJustified h maxCounted t o ∧
    ((∀ e ∈ t.head?, h.discards e = false) →
      (Renewed t → o.isStep = true ∨ o.isObserve = true) ∧
      ∀ reason, Directed t reason → (∃ context, o = .rotate context reason) ∨ o.isObserve = true)

/-! ## One call -/

variable {h} {maxCounted : Option ℤ} {t t' : LoopHist ε} {o : LoopOp ε}
  {r : Except (HostExc ε) o.Val} {v : LoopVars} {d : LoopDirective} {fromError : Bool}

/-- The calls that show nothing. -/
def LoopOp.isQuiet : LoopOp ε → Bool
  | acquire | release | isSet | stopWait _ | sleep _ => true
  | _ => false

theorem counters_of_quiet (ho : o.isQuiet = true) : counters h (⟨o, r⟩ :: t) = counters h t := by
  cases o <;> first | rfl | cases ho

theorem counters_of_observe {event : String} {context : LoopContext} {d : Option LoopDirective}
    {r : Except (HostExc ε) Unit} (hr : h.discards ⟨.observe event context d, r⟩ = false) :
    counters h (⟨.observe event context d, r⟩ :: t) = counters h t := by
  have happlied : applied h (⟨.observe event context d, r⟩ :: t) = applied h t := by
    rw [applied, appliedUnless, hr]
    rfl
  rw [counters, happlied]
  rfl

/-- No rotation waits for its step, and no directive for its rotation. -/
structure NothingDue (t : LoopHist ε) : Prop where
  renewed : ¬ Renewed t
  directed : ∀ reason, ¬ Directed t reason

/-- Where nothing is due, any call may come next. -/
theorem NothingDue.due (ht : NothingDue t) (o : LoopOp ε) :
    (Renewed t → o.isStep = true ∨ o.isObserve = true) ∧
      ∀ reason, Directed t reason → (∃ context, o = .rotate context reason) ∨ o.isObserve = true :=
  ⟨fun hr => absurd hr ht.renewed, fun reason hd => absurd hd (ht.directed reason)⟩

theorem NothingDue.of_callbacks (ht : NothingDue t) (hc : callbacks t' = callbacks t) :
    NothingDue t' := by
  constructor
  · rintro ⟨context, reason, t₁, hc', hd⟩
    exact ht.renewed ⟨context, reason, t₁, hc ▸ hc', hd⟩
  · rintro reason ⟨d, hd, hb⟩
    exact ht.directed reason ⟨d, hc ▸ hd, hb⟩

/-- A call that is no rotation and has directed nothing leaves nothing due. -/
theorem nothingDue_cons (ho : o.isObserve = false)
    (hrot : ∀ context reason, o ≠ .rotate context reason)
    (hd : directive? (⟨o, r⟩ : Event (LoopOp.Val (ε := ε)) (HostExc ε)) = none) :
    NothingDue (⟨o, r⟩ :: t) := by
  have hc : callbacks (⟨o, r⟩ :: t) = ⟨o, r⟩ :: callbacks t :=
    List.filter_cons_of_pos (by simp [ho])
  constructor
  · rintro ⟨context, reason, t₁, hc', -⟩
    rw [hc] at hc'
    cases hc'
    exact hrot context reason rfl
  · rintro reason ⟨d, hd', -⟩
    rw [hc, List.head?_cons, Option.bind_some, hd] at hd'
    cases hd'

theorem nothingDue_of_quiet (ho : o.isQuiet = true) : NothingDue (⟨o, r⟩ :: t) := by
  refine nothingDue_cons ?_ (fun context reason hrot => ?_) ?_
  · cases o <;> first | rfl | cases ho
  · subst hrot
    cases ho
  · cases o <;> first | rfl | cases ho

theorem guard_of_quiet (ho : o.isQuiet = true) (hs : NothingDue t) :
    LoopGuard h maxCounted o t := by
  refine ⟨?_, fun _ => hs.due o⟩
  cases o <;> first | exact trivial | cases ho

/-- A directive that keeps the boundary leaves nothing due. -/
theorem nothingDue_of_keep (hd : (callbacks t).head?.bind directive? = some (d, fromError))
    (hb : d.boundary = .keep) : NothingDue t := by
  constructor
  · rintro ⟨context, reason, t', hc, -⟩
    rw [hc] at hd
    cases hd
  · rintro reason ⟨d', hd', hb', -⟩
    rw [hd] at hd'
    cases hd'
    rw [hb] at hb'
    cases hb'

/-- Once a run is about to end, nothing is due. -/
def Quits (h : ContinuousWorkerHost ε) (t : LoopHist ε) : Prop :=
  (∀ e ∈ t.head?, h.discards e = false) → NothingDue t

/-- Between two rounds. -/
structure LoopShows (h : ContinuousWorkerHost ε) (maxCounted : Option ℤ) (v : LoopVars)
    (t : LoopHist ε) : Prop where
  counters : counters h t = v
  attempts : ∀ n, h.rotationAttempts = some n → v.attempts ≤ n
  counted : ∀ m, maxCounted = some m → (v.counted : ℤ) ≤ m
  nothingDue : NothingDue t

/-- The variables after a directive, but for its rotation. -/
def LoopVars.directed (v : LoopVars) (d : LoopDirective) (fromError : Bool) : LoopVars :=
  { v with
    counted := if d.counted then v.counted + 1 else v.counted
    repeatedWait := fromError || d.action == .wait
    last := some d }

/-- The last callback has answered the directive, which is not yet carried out. -/
structure Answered (h : ContinuousWorkerHost ε) (v : LoopVars) (d : LoopDirective)
    (fromError : Bool) (t : LoopHist ε) : Prop where
  counters : counters h t = v.directed d fromError
  last : (callbacks t).head?.bind directive? = some (d, fromError)

theorem always_emit {event : String} {context : LoopContext} {d : Option LoopDirective}
    {Q : Unit → LoopHist ε → Prop} {E : HostExc ε → LoopHist ε → Prop}
    (hQ : ∀ t', counters h t' = counters h t → callbacks t' = callbacks t → Q () t')
    (hE : ∀ e, h.catches e = false → E e (⟨.observe event context d, .error e⟩ :: t)) :
    (h.emit event context d).Always (Records fun _ _ _ => True) (LoopGuard h maxCounted) Q E t := by
  unfold ContinuousWorkerHost.emit
  split_ifs
  · exact hQ t rfl rfl
  · refine always_handle.2
      (always_event ⟨trivial, fun _ => ⟨fun _ => .inr rfl, fun _ _ => .inr rfl⟩⟩
      (fun _ _ => hQ _ (counters_of_observe rfl) rfl) fun e _ => ?_)
    split_ifs with he
    · exact hQ _ (counters_of_observe (by simp [ContinuousWorkerHost.discards, he])) rfl
    · exact hE e (by simpa using he)

/-- An observation that raises ends the run, unless it is of a step. -/
theorem quits_of_discards {e : Event (LoopOp.Val (ε := ε)) (HostExc ε)} (he : h.discards e = true) :
    Quits h (e :: t) := by
  intro hd
  rw [hd e rfl] at he
  cases he

theorem always_loopWait {seconds : ℚ} (hv : counters h t = v) (hs : NothingDue t) :
    (h.wait seconds).Always (Records fun _ _ _ => True) (LoopGuard h maxCounted)
      (fun _ t => counters h t = v ∧ NothingDue t) (fun _ t => Quits h t) t := by
  have hquiet : (h.wait seconds).Uses (·.isQuiet = true) := by
    unfold ContinuousWorkerHost.wait
    split_ifs
    · exact uses_perform rfl
    · refine Uses.bind (uses_perform rfl) fun b => ?_
      split_ifs
      · exact uses_perform rfl
      · trivial
  refine Always.mono (fun _ _ h => h) (fun _ _ h => h) (fun _ t h => fun _ => h.2)
    (Always.of_uses (J := fun t => counters h t = v ∧ NothingDue t) hquiet
      (fun o t ho ht => ?_) ⟨hv, hs⟩)
  refine ⟨guard_of_quiet ho ht.2, ?_⟩
  rintro r _ ⟨-, rfl⟩
  exact ⟨(counters_of_quiet ho).trans ht.1, nothingDue_of_quiet ho⟩

theorem not_directed_of_rotate {context : LoopContext} {reason : String}
    {r : Except (HostExc ε) Unit} {l : LoopHist ε}
    (hc : callbacks t = ⟨.rotate context reason, r⟩ :: l) (reason' : String) :
    ¬ Directed t reason' := by
  rintro ⟨d, hd, -⟩
  rw [hc] at hd
  cases hd

/-- The rotation that a directive has asked for leaves nothing due. -/
theorem nothingDue_of_rotated {context : LoopContext} {reason : String}
    {r : Except (HostExc ε) Unit} (hc : callbacks t' = ⟨.rotate context reason, r⟩ :: callbacks t)
    (hd : (callbacks t).head?.bind directive? = some (d, fromError)) : NothingDue t' := by
  refine ⟨?_, not_directed_of_rotate hc⟩
  rintro ⟨context, reason, t₁, hc', hd'⟩
  rw [hc] at hc'
  cases hc'
  rw [hd] at hd'
  cases hd'

/-- A rotation, for whatever reason: the attempts begin anew. -/
theorem always_rotate {context : LoopContext} {reason : String} {Q : Unit → LoopHist ε → Prop}
    (hg : Directed t reason ∨ Exhausted h t ∧ reason = "attempt-limit" ∧
      context = (counters h t).context)
    (hr : ¬ Renewed t) (hd : ∀ reason', Directed t reason' → reason' = reason)
    (hQ : ∀ t', counters h t' = { counters h t with attempts := 0 } →
      callbacks t' = ⟨.rotate context reason, .ok ()⟩ :: callbacks t → Q () t') :
    (h.rotate context reason).Always (Records fun _ _ _ => True) (LoopGuard h maxCounted) Q
      (fun _ t => Quits h t) t := by
  have hguard : LoopGuard h maxCounted (.rotate context reason) t :=
    ⟨hg, fun _ => ⟨fun hren => absurd hren hr, fun reason' hdir =>
      .inl ⟨context, by rw [hd reason' hdir]⟩⟩⟩
  refine always_bind.2 (always_event hguard (fun _ _ => ?_) fun e _ _ =>
    ⟨?_, not_directed_of_rotate rfl⟩)
  · refine always_emit (fun t' hv hc => hQ t' hv hc) fun e he => quits_of_discards ?_
    simp [ContinuousWorkerHost.discards, he]
  · rintro ⟨context, reason, t', hc, -⟩
    cases hc

theorem always_apply {context : LoopContext} (ht : Answered h v d fromError t) :
    (h.apply d context { v with last := some d } fromError).Always (Records fun _ _ _ => True)
      (LoopGuard h maxCounted)
      (fun x t => counters h t = x.1 ∧ x.1.attempts ≤ v.attempts ∧
        x.1.counted = (v.directed d fromError).counted ∧ NothingDue t)
      (fun _ t => Quits h t) t := by
  -- the directive is carried out: what is left is to wait
  have hdone : ∀ attempts t, attempts ≤ v.attempts → counters h t
      = { v.directed d fromError with attempts := attempts } →
      NothingDue t → (h.applyAction d { v.directed d fromError with attempts := attempts }).Always
        (Records fun _ _ _ => True) (LoopGuard h maxCounted)
        (fun x t => counters h t = x.1 ∧ x.1.attempts ≤ v.attempts ∧
          x.1.counted = (v.directed d fromError).counted ∧ NothingDue t)
        (fun _ t => Quits h t) t := by
    intro attempts t hle hv hr
    unfold ContinuousWorkerHost.applyAction
    cases d.action with
    | stop => exact ⟨hv, hle, rfl, hr⟩
    | cont => exact ⟨hv, hle, rfl, hr⟩
    | wait =>
      refine always_bind.2 (Always.mono (fun _ _ h => h) ?_ (fun _ _ h => h)
        (always_loopWait hv hr))
      exact fun _ t h => ⟨h.1, hle, rfl, h.2⟩
  refine always_bind.2 ?_
  unfold ContinuousWorkerHost.applyBoundary
  cases hb : d.boundary with
  | keep => exact hdone v.attempts t le_rfl ht.counters (nothingDue_of_keep ht.last hb)
  | rotate =>
    have hrenewed : ¬ Renewed t := by
      rintro ⟨context, reason, t', hc, -⟩
      have hlast := ht.last
      rw [hc] at hlast
      cases hlast
    have hreason : ∀ reason, Directed t reason → reason = d.reason := by
      rintro reason ⟨d', hd', -, rfl⟩
      cases ht.last.symm.trans hd'
      rfl
    refine always_bind.2 (always_rotate (.inl ⟨_, ht.last, hb, rfl⟩) hrenewed hreason
      fun t' hv hc => ?_)
    exact hdone 0 t' (Nat.zero_le _) (by rw [hv, ht.counters]) (nothingDue_of_rotated hc ht.last)

theorem always_conclude {context : LoopContext} (ht : Answered h v d fromError t)
    (hatt : ∀ n, h.rotationAttempts = some n → v.attempts ≤ n)
    (hcnt : ∀ m, maxCounted = some m → (v.counted : ℤ) < m) :
    (h.conclude d context v fromError).Always (Records fun _ _ _ => True) (LoopGuard h maxCounted)
      (fun x t => LoopShows h maxCounted (x.elim id id) t) (fun _ t => Quits h t) t := by
  refine always_bind.2 (Always.mono (fun _ _ h => h) ?_ (fun _ _ h => h) (always_apply ht))
  rintro ⟨v', stop⟩ t' ⟨hv, hle, hcounted, hr⟩
  have hshow : LoopShows h maxCounted v' t' := by
    refine ⟨hv, fun n hn => hle.trans (hatt n hn), fun m hm => ?_, hr⟩
    have := hcnt m hm
    dsimp only at hcounted
    rw [hcounted, LoopVars.directed]
    dsimp only
    split_ifs
    · omega
    · omega
  cases stop
  · exact hshow
  · exact hshow

theorem counters_of_step {context : LoopContext} {r : Except (HostExc ε) LoopAnswer}
    (hr : directive? (⟨.step context, r⟩ : Event LoopOp.Val (HostExc ε)) = none) :
    counters h (⟨.step context, r⟩ :: t) = (counters h t).begin := by
  have happlied : applied h (⟨.step context, r⟩ :: t) = applied h t := by
    rw [applied, appliedUnless, hr]
    rfl
  rw [counters, happlied]
  simp [counters, LoopVars.begin, steps, attempts, LoopOp.isStep]

theorem counted_cons (d : LoopDirective) (fromError : Bool) (l : List (LoopDirective × Bool)) :
    countedOf ((d, fromError) :: l) = if d.counted then countedOf l + 1 else countedOf l := by
  simp only [countedOf, List.countP_cons]
  split_ifs <;> rfl

/-- A callback other than the step has answered a directive. -/
theorem counters_of_control {context : LoopContext} :
    counters h (⟨.control context, .ok (.directive d)⟩ :: t) = (counters h t).directed d false := by
  have happlied : applied h (⟨.control context, .ok (.directive d)⟩ :: t) =
      (d, false) :: applied h t := rfl
  rw [counters, happlied, counted_cons]
  rfl

theorem counters_of_onError {context : LoopContext} {exc : HostExc ε} :
    counters h (⟨.onError exc context, .ok (.directive d)⟩ :: t) =
    (counters h t).directed d true := by
  have happlied : applied h (⟨.onError exc context, .ok (.directive d)⟩ :: t) =
      (d, true) :: applied h t := rfl
  rw [counters, happlied, counted_cons]
  rfl

theorem counters_of_step_directive {context : LoopContext} :
    counters h (⟨.step context, .ok (.directive d)⟩ :: t) =
      (counters h t).begin.directed d false := by
  have happlied : applied h (⟨.step context, .ok (.directive d)⟩ :: t) =
      (d, false) :: applied h t := rfl
  rw [counters, happlied, counted_cons]
  simp [counters, LoopVars.begin, LoopVars.directed, steps, attempts, LoopOp.isStep, repeatedWaitOf]

/-- The observation of a step discards its directive. -/
theorem counters_of_discards {context : LoopContext} {e : Event (LoopOp.Val (ε := ε)) (HostExc ε)}
    {r : Except (HostExc ε) LoopAnswer} (he : h.discards e = true) (ho : e.1.isObserve = true) :
    counters h (e :: ⟨.step context, r⟩ :: t) = (counters h t).begin := by
  obtain ⟨o, r'⟩ := e
  cases o with
  | observe event context' d =>
    have happlied : applied h (⟨.observe event context' d, r'⟩ :: ⟨.step context, r⟩ :: t) =
        applied h t := by
      rw [applied, appliedUnless, he]
      rfl
    rw [counters, happlied]
    simp [counters, LoopVars.begin, steps, attempts, LoopOp.isStep]
  | _ => cases ho

theorem always_requireDirective {answer : LoopAnswer} {source : String}
    {Q : LoopDirective → LoopHist ε → Prop} {E : HostExc ε → LoopHist ε → Prop}
    (hQ : ∀ d, answer = .directive d → Q d t) (hE : (∀ d, answer ≠ .directive d) → ∀ e, E e t) :
    (requireDirective answer source).Always (Records fun _ _ _ => True)
    (LoopGuard h maxCounted) Q E t := by
  cases answer with
  | directive d => exact hQ d rfl
  | none => exact hE (fun d hd => by cases hd) _
  | other => exact hE (fun d hd => by cases hd) _

theorem always_controlStage (hv : counters h t = v) (hs : NothingDue t) :
    (h.controlStage v.context).Always (Records fun _ _ _ => True) (LoopGuard h maxCounted)
      (fun x t => (x = none → counters h t = v ∧ NothingDue t) ∧ ∀ d, x = some d →
        Answered h v d false t)
      (fun _ t => Quits h t) t := by
  have hcontrol : ∀ r, directive?
      (⟨.control v.context, r⟩ : Event (LoopOp.Val (ε := ε)) (HostExc ε)) = none →
      NothingDue (⟨.control v.context, r⟩ :: t) :=
    fun r hd => nothingDue_cons rfl (fun _ _ hr => by cases hr) hd
  unfold ContinuousWorkerHost.controlStage
  split_ifs
  · exact ⟨fun _ => ⟨hv, hs⟩, fun d hd => (by cases hd)⟩
  refine always_bind.2 (always_event ⟨by rw [LoopJustified, hv], fun _ => hs.due _⟩
    (fun answer _ => ?_) fun e _ _ => hcontrol _ rfl)
  cases answer with
  | none => exact ⟨fun _ => ⟨hv, hcontrol _ rfl⟩, fun d hd => (by cases hd)⟩
  | directive d =>
    refine ⟨fun hd => (by cases hd), fun d' hd => ?_⟩
    cases hd
    exact ⟨by rw [counters_of_control, hv], rfl⟩
  | other => exact fun _ => hcontrol _ rfl

theorem always_rotateStage (hv : counters h t = v) (hs : NothingDue t)
    (hatt : ∀ n, h.rotationAttempts = some n → v.attempts ≤ n) :
    (h.rotateStage v).Always (Records fun _ _ _ => True) (LoopGuard h maxCounted)
      (fun v' t => counters h t = v' ∧ v'.counted = v.counted ∧ (∀ reason, ¬ Directed t reason) ∧
        ∀ n, h.rotationAttempts = some n → v'.attempts + 1 ≤ n) (fun _ t => Quits h t) t := by
  unfold ContinuousWorkerHost.rotateStage
  split_ifs with hany
  · have hfull : Exhausted h t := by
      obtain ⟨n, hn, hle⟩ := (Option.any_eq_true _ _).1 hany
      have hatts : v.attempts = attempts t := by rw [← hv]; rfl
      rw [Exhausted, hn, ← hatts]
      exact congrArg some (le_antisymm (of_decide_eq_true hle) (hatt n hn))
    refine always_bind.2 (always_rotate (.inr ⟨hfull, rfl, by rw [hv]⟩) hs.renewed
      (fun reason hd => absurd hd (hs.directed reason)) fun t' hv' hc =>
      ⟨?_, rfl, not_directed_of_rotate hc, ?_⟩)
    · rw [hv', hv]
    · exact fun n hn => h.rotation_pos n hn
  · refine ⟨hv, rfl, hs.directed, fun n hn => ?_⟩
    simp only [hn, Option.any_some, decide_eq_true_eq, not_le] at hany
    exact hany

theorem always_errorStage {context : LoopContext} {e : HostExc ε}
    {r : Except (HostExc ε) LoopAnswer} (hv : counters h t = v)
    (hc : callbacks t = ⟨.step context, r⟩ :: t') (hq : Quits h t) :
    (h.errorStage context e).Always (Records fun _ _ _ => True) (LoopGuard h maxCounted)
      (fun x => Answered h v x.1 x.2) (fun _ t => Quits h t) t := by
  have hquits : ∀ r', directive?
      (⟨.onError e context, r'⟩ : Event (LoopOp.Val (ε := ε)) (HostExc ε)) = none →
      Quits h (⟨.onError e context, r'⟩ :: t) :=
    fun r' hd _ => nothingDue_cons rfl (fun _ _ hr => by cases hr) hd
  unfold ContinuousWorkerHost.errorStage
  split_ifs
  · exact hq
  refine always_bind.2 (always_event ⟨⟨r, _, hc⟩, fun hd => (hq hd).due _⟩ (fun answer _ => ?_)
    fun _ _ => hquits _ rfl)
  refine always_bind.2 (always_requireDirective (fun d hd => ?_) fun hno _ => hquits _ ?_)
  swap
  · cases answer with
    | directive d => exact absurd rfl (hno d)
    | none => rfl
    | other => rfl
  subst hd
  refine always_bind.2 (always_emit (fun t₁ hv₁ hc₁ => ⟨?_, ?_⟩) fun e he => quits_of_discards ?_)
  · rw [hv₁, counters_of_onError, hv]
  · rw [hc₁]
    rfl
  · simp [ContinuousWorkerHost.discards, he]

theorem always_stepStage (hv : counters h t = v) (hdir : ∀ reason, ¬ Directed t reason)
    (hatt : ∀ n, h.rotationAttempts = some n → v.attempts + 1 ≤ n)
    (hcnt : ∀ m, maxCounted = some m → (v.counted : ℤ) < m) :
    (h.stepStage v.begin.context).Always (Records fun _ _ _ => True) (LoopGuard h maxCounted)
      (fun x => Answered h v.begin x.1 x.2) (fun _ t => Quits h t) t := by
  obtain rfl := hv
  have hfailed : ∀ context r,
      directive? (⟨.step context, r⟩ : Event (LoopOp.Val (ε := ε)) (HostExc ε)) = none →
      Quits h (⟨.step context, r⟩ :: t) :=
    fun context r hd _ => nothingDue_cons rfl (fun _ _ hr => by cases hr) hd
  have hguard : LoopGuard h maxCounted (.step (counters h t).begin.context) t :=
    ⟨⟨rfl, hatt, hcnt⟩, fun _ => ⟨fun _ => .inl rfl, fun reason hd => absurd hd (hdir reason)⟩⟩
  refine always_handle.2 (always_bind.2 (always_event hguard
    (fun answer _ => ?_) fun e _ => always_errorStage (counters_of_step rfl) rfl (hfailed _ _ rfl)))
  refine always_bind.2 (always_requireDirective (fun d hd => ?_) fun hno e => ?_)
  · subst hd
    refine always_bind.2 (always_emit (fun t₁ hv₁ hc₁ => ⟨?_, ?_⟩) fun e he =>
      always_errorStage ?_ rfl (quits_of_discards (by simp [ContinuousWorkerHost.discards, he])))
    · rw [hv₁, counters_of_step_directive]
    · rw [hc₁]
      rfl
    · exact counters_of_discards (by simp [ContinuousWorkerHost.discards, he]) rfl
  · have hnone : directive? (⟨.step (counters h t).begin.context, .ok answer⟩ :
        Event (LoopOp.Val (ε := ε)) (HostExc ε)) = none := by
      cases answer with
      | directive d => exact absurd rfl (hno d)
      | none => rfl
      | other => rfl
    exact always_errorStage (counters_of_step hnone) rfl (hfailed _ _ hnone)

theorem always_loopRound (hshow : LoopShows h maxCounted v t) :
    (h.round maxCounted v).Always (Records fun _ _ _ => True) (LoopGuard h maxCounted)
      (fun x t => LoopShows h maxCounted (x.elim id id) t) (fun _ t => Quits h t) t := by
  have hquiet : ∀ r, LoopShows h maxCounted v (⟨.isSet, r⟩ :: t) := fun r =>
    ⟨(counters_of_quiet rfl).trans hshow.counters, hshow.attempts,
      hshow.counted, nothingDue_of_quiet rfl⟩
  refine always_bind.2 (always_event (guard_of_quiet rfl hshow.nothingDue)
      (fun b _ => ?_) fun e _ _ =>
    (hquiet _).nothingDue)
  split_ifs with hset hmax
  · exact hquiet _
  · exact hquiet _
  have hcnt : ∀ m, maxCounted = some m → (v.counted : ℤ) < m := by
    intro m hm
    simpa [hm] using hmax
  refine always_bind.2 (Always.mono (fun _ _ h => h) ?_ (fun _ _ h => h)
    (always_controlStage (hquiet (.ok b)).counters (hquiet (.ok b)).nothingDue))
  rintro (_ | d) t₁ ⟨hnone, hsome⟩
  · obtain ⟨hv, hr⟩ := hnone rfl
    refine always_bind.2 (Always.mono (fun _ _ h => h) ?_ (fun _ _ h => h)
      (always_rotateStage hv hr hshow.attempts))
    rintro v' t₂ ⟨hv', hcounted, hdir, hatt⟩
    refine always_bind.2 (Always.mono (fun _ _ h => h) ?_ (fun _ _ h => h)
      (always_stepStage hv' hdir hatt (hcounted ▸ hcnt)))
    rintro ⟨d, fromError⟩ t₃ hd
    exact always_conclude hd hatt (hcounted ▸ hcnt)
  · have hd := hsome d rfl
    refine always_bind.2 (always_emit (fun t₂ hv₂ hc₂ => ?_) fun e he => quits_of_discards ?_)
    · exact always_conclude ⟨hv₂.trans hd.counters, hc₂ ▸ hd.last⟩ hshow.attempts hcnt
    · simp [ContinuousWorkerHost.discards, he]

variable (h)

/-- What a run that returns has done. -/
def LoopReports (h : ContinuousWorkerHost ε) (maxCounted : Option ℤ)
    (r : Option LoopRun) (t : LoopHist ε) :
    Prop :=
  ∀ w, r = some w → w = ⟨steps t, countedOf (applied h t), attempts t,
    (applied h t).head?.map Prod.fst⟩ ∧
    ∀ m, maxCounted = some m → (w.counted : ℤ) ≤ m

theorem always_run_loop (maxCounted : Option ℤ) (rounds : ℕ) :
    (h.run maxCounted rounds).Always (Records fun _ _ _ => True) (LoopGuard h maxCounted)
      (LoopReports h maxCounted) (fun _ _ => True) [] := by
  have hnil : NothingDue ([] : LoopHist ε) :=
    ⟨fun ⟨_, _, _, hc, _⟩ => (by cases hc), fun _ ⟨_, hd, _⟩ => by cases hd⟩
  unfold ContinuousWorkerHost.run
  split_ifs with hneg
  · trivial
  refine always_bind.2 (always_event (guard_of_quiet rfl hnil) (fun b _ => ?_) fun _ _ => trivial)
  split_ifs
  · trivial
  have hinit : LoopShows h maxCounted {} [⟨.acquire, .ok b⟩] := by
    refine ⟨rfl, fun n _ => Nat.zero_le n, fun m hm => ?_, nothingDue_of_quiet rfl⟩
    simpa [hm] using hneg
  have hloop : (iterate (h.round maxCounted) rounds {}).Always (Records fun _ _ _ => True)
      (LoopGuard h maxCounted) (fun x t => ∀ v, x = some v → LoopShows h maxCounted v t)
      (fun _ t => Quits h t) [⟨.acquire, .ok b⟩] := by
    refine always_iterate (I := LoopShows h maxCounted) (fun v t hv => ?_)
      (fun _ _ _ v hv => by cases hv) hinit
    refine Always.mono (fun _ _ h => h) (fun x t hx => ?_) (fun _ _ h => h) (always_loopRound hv)
    cases x with
    | inl v' => exact hx
    | inr v' => exact fun w hw => by cases hw; exact hx
  have hrelease : ∀ t, Quits h t → LoopGuard h maxCounted .release t :=
    fun t ht => ⟨trivial, fun hd => (ht hd).due _⟩
  refine always_bind.2 (always_catching.2
    (Always.mono (fun _ _ h => h) (fun x t hx => ?_) (fun e t ht => ?_) hloop))
  · cases x with
    | none => exact fun w hw => by cases hw
    | some v =>
      have hshow := hx v rfl
      refine always_bind.2 (always_ensure.2
        (always_bind.2 (always_emit (fun t' hv hc => ?_) fun e he => ?_)))
      · refine always_event ⟨trivial, fun _ => (hshow.nothingDue.of_callbacks hc).due _⟩
          (fun _ _ w hw => ?_) fun _ _ => trivial
        cases hw
        have hv' : v = counters h (⟨.release, .ok ()⟩ :: t') := by
          rw [counters_of_quiet rfl, hv, hshow.counters]
        refine ⟨?_, hshow.counted⟩
        rw [hv']
        rfl
      · refine always_event (hrelease _ (quits_of_discards ?_)) (fun _ _ => trivial)
          fun _ _ => trivial
        simp [ContinuousWorkerHost.discards, he]
  · refine always_bind.2 (always_event (hrelease _ ht) (fun _ _ => trivial) fun _ _ => trivial)

/-- **The counters**: wherever a run has got to, `step`, `control` and a periodic rotation
    are passed the counters of the history, the step's within their bounds; a directive
    that is applied and asks for a rotation is followed by it; a rotation that none asks
    for is made where the next step would be one attempt too many, and the next callback
    is then `step`; a run that returns reports the counters. -/
theorem loop_counters {rounds : ℕ} {p : LoopProg ε (Option LoopRun)}
    (hr : Reaches (fun _ _ _ => True) (h.run maxCounted rounds) [] t p) :
    (∀ o k, p = .call o k → LoopGuard h maxCounted o t) ∧ ∀ w, p = .ret (some w) →
      w = ⟨steps t, countedOf (applied h t), attempts t, (applied h t).head?.map Prod.fst⟩ ∧
        ∀ m, maxCounted = some m → (w.counted : ℤ) ≤ m := by
  have hp := (always_run_loop h maxCounted rounds).reaches hr
  constructor
  · rintro o k rfl
    exact hp.1
  · rintro w rfl
    exact hp w rfl

end

/-- A step that always goes on. -/
def goOn : (o : LoopOp Unit) → LoopHist Unit → Except (HostExc Unit) o.Val
  | .step _, _ | .onError _ _, _ => .ok (.directive { action := .cont })
  | .control _, _ => .ok .none
  | .acquire, _ => .ok true
  | .isSet, _ => .ok false
  | .release, _ | .stopWait _, _ | .sleep _, _ | .rotate _ _, _ | .observe _ _ _, _ => .ok ()

/-- A step that goes on, and the first time asks for a rotation. -/
def turnOnce : (o : LoopOp Unit) → LoopHist Unit → Except (HostExc Unit) o.Val
  | .step c, _ => .ok (.directive
    { action := .cont, boundary := if c.sequence = 1 then .rotate else .keep, reason := "asked" })
  | o, t => goOn o t

/-- The reasons of the rotations, the last one first. -/
def rotations {ε : Type} (t : LoopHist ε) : List String :=
  t.filterMap fun e => match e.1 with
    | .rotate _ reason => some reason
    | _ => none

/-- Four steps: a rotation that the first one asks for, and one when the next two are done. -/
theorem loop_counters_run : ∃ (t : LoopHist Unit) (w : LoopRun),
    Reaches (fun _ _ _ => True)
      (ContinuousWorkerHost.run { rotationAttempts := some 2, isException := fun _ => true }
        (some 4) 5) [] t (.ret (some w)) ∧ w.sequence = 4 ∧ w.attemptsInBoundary = 1 ∧
      rotations t = ["attempt-limit", "asked"] ∧ w.sequence = steps t ∧
      w.attemptsInBoundary = attempts t ∧ (w.counted : ℤ) ≤ 4 := by
  have hr : Reaches (fun _ _ _ => True) (ContinuousWorkerHost.run
      { rotationAttempts := some 2, isException := fun _ => true } (some 4) 5) [] _ _ :=
    exec_reaches turnOnce (fun _ _ => trivial) _ []
  obtain ⟨hw, hm⟩ := (loop_counters _ hr).2
    ⟨4, 4, 1, some { action := .cont, reason := "asked" }⟩ rfl
  exact ⟨_, _, hr, rfl, rfl, rfl, congrArg LoopRun.sequence hw,
    congrArg LoopRun.attemptsInBoundary hw, hm 4 rfl⟩

end DatasourceKit

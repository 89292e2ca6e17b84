/-
  `WorkerHost` (`worker.py`): the lifecycle of one source intent.

  * `WorkerOp`: the calls the host makes, on the intent, the checkpoint store, the
    sleep, the stop flag, the clock and the heartbeat; each may answer anything or
    raise;
  * `WorkerHost.run`: the program.  The `try` block of an iteration is cut where the
    source assigns a variable that an exception handler reads later: `planStage`,
    `workStage`, `afterCommit`, with `failed` the handler.
-/
import Mathlib.Data.Rat.Init
import Mathlib.Algebra.Order.Ring.Rat
import Mathlib.Tactic.NormNum
import DatasourceKit.Interleave.History

namespace DatasourceKit

open Interleave Interleave.Prog

/-! ## Data -/

/-- The exceptions a host meets: those the package raises, and a consumer's own ones. -/
inductive HostExc (ε : Type) where
  | typeError (msg : String)
  | valueError (msg : String)
  | runtimeError (msg : String)
  | validation (msg : String)
  | consumer (e : ε)

inductive WorkDirective where
  | cont | idle | stop
deriving DecidableEq

/-- What `intent.plan` may return; `none` as a directive is a value of another type. -/
inductive Planned (Obj : Type) where
  | none
  | step (plan checkpoint : Obj)
  | decision (directive : Option WorkDirective) (work : Obj)
  | other

/-- A `SourceOutput`, of whatever types its fields are. -/
structure SourceOutput (Obj : Type) where
  result : Obj
  isMapping : Bool
  checkpoint : Obj
  directive : Option WorkDirective

structure BackoffPolicy where
  initialSeconds : ℚ := 1
  maximumSeconds : ℚ := 60
  multiplier : ℚ := 2
  idleSeconds : ℚ := 5
  maxConsecutiveFailures : Option ℕ := none
  initial_nonneg : 0 ≤ initialSeconds := by norm_num
  idle_nonneg : 0 ≤ idleSeconds := by norm_num
  initial_le : initialSeconds ≤ maximumSeconds := by norm_num
  one_le_multiplier : 1 ≤ multiplier := by norm_num
  limit_pos : ∀ m, maxConsecutiveFailures = some m → 1 ≤ m := by simp

/-- The power of a float; `none` for an `OverflowError`. -/
def floatPow (x : ℚ) (n : ℕ) : Option ℚ := if 2 ^ 1024 ≤ x ^ n then none else some (x ^ n)

def BackoffPolicy.delay {ε : Type} (b : BackoffPolicy) (consecutiveFailures : ℕ) :
    Except (HostExc ε) ℚ :=
  if consecutiveFailures < 1 then .error (.valueError "consecutive_failures must be >= 1")
  else
    let delay := match floatPow b.multiplier (consecutiveFailures - 1) with
      | some power => b.initialSeconds * power
      | none => b.maximumSeconds
    .ok (min delay b.maximumSeconds)

structure WorkerHeartbeat (Obj : Type) where
  state : String
  timestamp : String
  checkpoint : Obj
  completed : ℕ
  failures : ℕ
  consecutiveFailures : ℕ
  error : String := ""
  retryIn : Option ℚ := none

structure WorkerRun (Obj : Type) where
  checkpoint : Obj
  completed : ℕ
  failures : ℕ
  iterations : ℕ

/-! ## Calls -/

/-- The calls of a host.  `hasOutput` and `hasCheckpoint` are the `getattr` of the
    optional methods, `describe` is the formatting of an exception. -/
inductive WorkerOp (Obj ε : Type) where
  | acquire | release
  | load | save (c : Obj)
  | plan (c : Obj) | fetch (p : Obj) | transform (x p : Obj)
  | hasOutput | output (y p : Obj)
  | persist (r p : Obj)
  | hasCheckpoint | checkpoint (y p : Obj)
  | isSet | stopWait (s : ℚ) | sleep (s : ℚ)
  | now | describe (e : HostExc ε) | heartbeat (event : WorkerHeartbeat Obj)

abbrev WorkerOp.Val {Obj ε : Type} : WorkerOp Obj ε → Type
  | acquire | hasOutput | hasCheckpoint | isSet => Bool
  | load | fetch _ | transform _ _ | checkpoint _ _ => Obj
  | plan _ => Planned Obj
  | output _ _ => Option (SourceOutput Obj)
  | now | describe _ => String
  | _ => Unit

/-- A program of a host. -/
abbrev WorkerProg (Obj ε : Type) := Prog (@WorkerOp.Val Obj ε) (HostExc ε)

/-- The outcome of a pure part of a function. -/
def liftHost {Obj ε α : Type} : Except (HostExc ε) α → WorkerProg Obj ε α
  | .ok a => ret a
  | .error e => raise e

/-! ## The host -/

/-- A `WorkerHost`: is there a heartbeat callback, has the sleep been injected, and
    which of the consumer's exceptions are an `Exception`? -/
structure WorkerHost (ε : Type) where
  backoff : BackoffPolicy := {}
  heartbeat : Bool := false
  injected : Bool := false
  isException : ε → Bool

/-- `isinstance(e, Exception)`. -/
def WorkerHost.catches {ε : Type} (h : WorkerHost ε) : HostExc ε → Bool
  | .consumer e => h.isException e
  | _ => true

/-- The variables of a run. -/
structure Loop (Obj : Type) where
  checkpoint : Obj
  completed : ℕ := 0
  failures : ℕ := 0
  consecutive : ℕ := 0
  iterations : ℕ := 0

/-- A planned iteration; `legacy` is the checkpoint of a `WorkerStep`. -/
inductive Decision (Obj : Type) where
  | stop | idle
  | work (plan : Obj) (legacy : Option Obj)

/-- How a loop ends: normally, or with an exception. -/
abbrev LoopEnd (Obj ε : Type) := Loop Obj × Except (HostExc ε) Unit

namespace WorkerHost
variable {Obj ε : Type} (h : WorkerHost ε)

/-- The text of an event about an exception. -/
def errorText : Option (HostExc ε) → WorkerProg Obj ε String
  | none => ret ""
  | some e => perform (WorkerOp.describe e)

def emit (state : String) (v : Loop Obj) (error : Option (HostExc ε)) (retryIn : Option ℚ) :
    WorkerProg Obj ε Unit :=
  if !h.heartbeat then ret ()
  else do
    let timestamp ← perform WorkerOp.now
    let error ← errorText error
    handle
      (perform (WorkerOp.heartbeat
        ⟨state, timestamp, v.checkpoint, v.completed, v.failures, v.consecutive, error, retryIn⟩))
      (fun e => if h.catches e then ret () else raise e)

def wait (seconds : ℚ) : WorkerProg Obj ε Unit :=
  if !h.injected then perform (WorkerOp.stopWait seconds)
  else do
    if !(← perform WorkerOp.isSet) then perform (WorkerOp.sleep seconds)

def planStage (v : Loop Obj) : WorkerProg Obj ε (Decision Obj) := do
  match ← perform (WorkerOp.plan v.checkpoint) with
  | .none => return .idle
  | .step plan checkpoint => return .work plan (some checkpoint)
  | .decision (some .stop) _ => return .stop
  | .decision (some .idle) _ => return .idle
  | .decision (some .cont) work => return .work work none
  | .decision none _ => raise (.typeError "StepDecision.directive must be a WorkDirective")
  | .other => raise (.typeError "intent.plan() must return StepDecision, WorkerStep, or None")

/-- The part of `resultStage` for an intent that has an `output` method. -/
def outputStage (transformed plan : Obj) : WorkerProg Obj ε (Obj × WorkDirective) := do
  match ← perform (WorkerOp.output transformed plan) with
  | none => raise (.typeError "intent.output() must return SourceOutput")
  | some output =>
    if !output.isMapping then raise (.typeError "SourceOutput.result must be a mapping")
    else
      match output.directive with
      | none => raise (.typeError "SourceOutput.directive must be a WorkDirective")
      | some directive => do
        perform (WorkerOp.persist output.result plan)
        return (output.checkpoint, directive)

/-- The part of `resultStage` for an intent without an `output` method. -/
def lateStage (transformed plan : Obj) (legacy : Option Obj) :
    WorkerProg Obj ε (Obj × WorkDirective) := do
  perform (WorkerOp.persist transformed plan)
  if ← perform WorkerOp.hasCheckpoint then
    return (← perform (WorkerOp.checkpoint transformed plan), .cont)
  else
    match legacy with
    | some checkpoint => return (checkpoint, .cont)
    | none => raise (.typeError "intent.checkpoint() is required for a CONTINUE decision")

/-- What `transform` has answered, shaped and persisted: the new checkpoint and the
    directive. -/
def resultStage (transformed plan : Obj) (legacy : Option Obj) :
    WorkerProg Obj ε (Obj × WorkDirective) := do
  if ← perform WorkerOp.hasOutput then outputStage transformed plan
  else lateStage transformed plan legacy

/-- A planned iteration up to its commit: the new checkpoint and the directive. -/
def workStage (v : Loop Obj) (plan : Obj) (legacy : Option Obj) :
    WorkerProg Obj ε (Obj × WorkDirective) := do
  h.emit "working" v none none
  let payload ← perform (WorkerOp.fetch plan)
  let transformed ← perform (WorkerOp.transform payload plan)
  let next ← resultStage transformed plan legacy
  perform (WorkerOp.save next.1)
  return next

/-- The part of an iteration after its commit: does the run stop? -/
def afterCommit (v : Loop Obj) (directive : WorkDirective) : WorkerProg Obj ε Bool := do
  h.emit "checkpointed" v none none
  match directive with
  | .stop => return true
  | .idle =>
    h.emit "idle" v none none
    h.wait h.backoff.idleSeconds
    return false
  | .cont => return false

/-- The handler of an iteration. -/
def failed (v : Loop Obj) (exc : HostExc ε) : WorkerProg Obj ε (Loop Obj ⊕ LoopEnd Obj ε) :=
  if !h.catches exc then return .inr (v, .error exc)
  else do
    let v := { v with failures := v.failures + 1, consecutive := v.consecutive + 1 }
    if h.backoff.maxConsecutiveFailures.any (· ≤ v.consecutive) then
      match ← (h.emit "failed" v (some exc) none).catching with
      | .ok _ => return .inr (v, .error exc)
      | .error e => return .inr (v, .error e)
    else
      match ← (do
        let delay ← liftHost (h.backoff.delay v.consecutive)
        h.emit "backoff" v (some exc) (some delay)
        h.wait delay).catching with
      | .ok _ => return .inl v
      | .error e => return .inr (v, .error e)

/-- One iteration of the loop. -/
def iteration (v : Loop Obj) : WorkerProg Obj ε (Loop Obj ⊕ LoopEnd Obj ε) := do
  match ← (planStage v).catching with
  | .error e => h.failed v e
  | .ok .stop => return .inr ({ v with consecutive := 0 }, .ok ())
  | .ok .idle => do
    let v := { v with consecutive := 0 }
    match ← (do
      h.emit "idle" v none none
      h.wait h.backoff.idleSeconds).catching with
    | .error e => h.failed v e
    | .ok _ => return .inl v
  | .ok (.work plan legacy) => do
    match ← (h.workStage v plan legacy).catching with
    | .error e => h.failed v e
    | .ok (checkpoint, directive) => do
      let v := { v with checkpoint := checkpoint, completed := v.completed + 1, consecutive := 0 }
      match ← (h.afterCommit v directive).catching with
      | .error e => h.failed v e
      | .ok true => return .inr (v, .ok ())
      | .ok false => return .inl v

/-- The `while` loop, one test and one iteration at a time. -/
def round (maxIterations : Option ℤ) (v : Loop Obj) :
    WorkerProg Obj ε (Loop Obj ⊕ LoopEnd Obj ε) := do
  match ← (perform WorkerOp.isSet).catching with
  | .error e => return .inr (v, .error e)
  | .ok true => return .inr (v, .ok ())
  | .ok false =>
    if maxIterations.all fun m => (v.iterations : ℤ) < m then
      h.iteration { v with iterations := v.iterations + 1 }
    else return .inr (v, .ok ())

/-- The `finally` block and the outcome. -/
def finish (e : LoopEnd Obj ε) : WorkerProg Obj ε (Option (WorkerRun Obj)) := do
  h.emit "stopped" e.1 none none
  perform WorkerOp.release
  match e.2 with
  | .ok _ => return some ⟨e.1.checkpoint, e.1.completed, e.1.failures, e.1.iterations⟩
  | .error e => raise e

/-- The `try` block of `run` after the load. -/
def serve (maxIterations : Option ℤ) (rounds : ℕ) (v : Loop Obj) :
    WorkerProg Obj ε (Option (WorkerRun Obj)) := do
  match ← (h.emit "starting" v none none).catching with
  | .error e => h.finish (v, .error e)
  | .ok _ =>
    match ← iterate (h.round maxIterations) rounds v with
    | none => return none
    | some e => h.finish e

/-- `run`, up to `rounds` rounds of its loop; `none` if it is still running then. -/
def run [Inhabited Obj] (maxIterations : Option ℤ) (rounds : ℕ) :
    WorkerProg Obj ε (Option (WorkerRun Obj)) :=
  if maxIterations.any (· < 0) then raise (.valueError "max_iterations must be >= 0")
  else do
    if !(← perform WorkerOp.acquire) then raise (.runtimeError "worker host is already running")
    else
      match ← (perform WorkerOp.load).catching with
      | .error e => h.finish ({ checkpoint := default }, .error e)
      | .ok checkpoint => h.serve maxIterations rounds { checkpoint := checkpoint }

end WorkerHost

end DatasourceKit

/-
  The functions on one unit directory, over its atomic steps: `write_json_atomic`,
  `unit_lock`, `spawn_process`, `spawn`, `stop`, `clear_process_tombstone`
  (`fleet/process.py`, `fleet/lock.py`), `load_state`, `set_desired`,
  `merge_heartbeat`, `observe_actual`, `reconcile_unit` with the default actions
  (`fleet/state.py`), and the `main` of `_exec_gate.py`.

  A temporary file is private to its call, so opening and removing it are `sys` steps; the
  replacing rename carries the object the file holds.
-/
import Mathlib.Data.List.AList
import DatasourceKit.Interleave.Prog
import DatasourceKit.Value

namespace DatasourceKit

open Interleave Interleave.Prog

/-! ## Data -/

/-- An environment of a process. -/
abbrev Env := AList fun _ : String => String

/-- `ProcessSpec`, as far as it is read here. -/
structure ProcessSpec where
  unit : String
  command : List String
  env : Option Env := none
  label : String := ""
  stdoutPath : Option String := none
  stderrPath : Option String := none
  envOverlay : Env := ∅
  generationEnv : Option String := some "DATASOURCE_KIT_GENERATION"
  pidMetadata : PyDict := []

structure SpawnResult where
  pid : ℤ
  startedAt : ℚ
  alive : Bool
  token : Option String := none
  generation : Option ℤ := none

structure StopResult where
  pid : ℤ
  signalled : Bool
  killed : Bool
  cleaned : Bool

/-- `ReconcileOutcome`; `desired` is the value whose `str` the source returns. -/
structure ReconcileOutcome where
  unit : String
  action : String
  desired : Json
  actual : String
  generation : ℤ
  pid : Option ℤ
  alive : Bool
  degradedReason : Option String := none

/-- What `Popen` gets: the command of the wrapper and its environment.  The other
    fields name the launch. -/
structure Launch where
  command : List String
  env : Env
  unit : String
  generation : Option ℤ
  token : String

/-- Steps that can fail and have no effect another step sees. -/
inductive Sys where
  | mkdir | openLock | openTmp | unlinkTmp | openDir | closeDir | closePid
  | openStream | closeStream | socketpair | closeChildEnd | settimeout | sleep
  | openAudit | syncAudit | closeAudit
deriving DecidableEq

/-- The atomic steps on a unit directory and on the children of its launches; a
    child is named by the number of its launch. -/
inductive UnitOp where
  | sys (s : Sys)
  | uuid4 | time | environ
  | lstatDir                                  -- is it a directory?
  | flock | funlock | closeLock
  | lstatPid                                  -- is pid.json a regular file?
  | createPid                                 -- os.open with O_CREAT | O_EXCL
  | writePid (ino : ℕ) (d : Dict) | syncPid (ino : ℕ)
  | writeTmp | syncTmp                        -- on the temporary file of the call
  | readPid | replacePid (d : Dict) | unlinkPid
  | syncDir
  | readState | replaceState (d : Dict)
  | appendAudit (record : Dict)
  | popen (l : Launch)                        -- the child and its pid
  | recv (k n : ℕ) | send (k : ℕ) (b : UInt8) | closeSocket (k : ℕ)
  | wait (k : ℕ) | poll (k : ℕ) | terminate (k : ℕ)
  | getHandle (token : String) | setHandle (token : String) (k : ℕ) | popHandle (token : String)
  | gateWrite (k : ℕ) (bs : List UInt8) | gateRead (k n : ℕ) | gateClose (k : ℕ)
  | execvpe (k : ℕ)

abbrev UnitOp.Val : UnitOp → Type
  | uuid4 => String
  | time => ℚ
  | environ => Env
  | lstatDir | lstatPid => Bool
  | createPid => ℕ
  | readPid | readState => Content
  | popen _ => ℕ × ℤ
  | recv _ _ | gateRead _ _ => List UInt8
  | poll _ => Bool
  | getHandle _ => Option (ℕ × ℤ)
  | _ => Unit

abbrev UnitProg := Prog UnitOp.Val Exc

/-- The outcome of a pure part of a function. -/
def liftExcept {α : Type} : Except Exc α → UnitProg α
  | .ok a => ret a
  | .error e => raise e

def sys (s : Sys) : UnitProg Unit := perform (UnitOp.sys s)

/-! ## Files and the unit lock -/

def ensureUnitDir : UnitProg Unit := do
  sys .mkdir
  if !(← perform UnitOp.lstatDir) then
    raise (.tombstone "unit directory must be a real directory")

/-- `write_json_atomic`; `replace` is the rename onto the target. -/
def writeJsonAtomic (replace : Dict → UnitOp) (encoded : Except Exc Dict) : UnitProg Unit := do
  sys .mkdir
  let d ← liftExcept encoded
  sys .openTmp
  ensure
    (do
      perform UnitOp.writeTmp
      perform UnitOp.syncTmp
      let _ ← perform (replace d)
      sys .openDir
      ensure (perform UnitOp.syncDir) (sys .closeDir))
    (do
      match ← attempt (UnitOp.sys .unlinkTmp) with
      | .error .notFound => return ()
      | r => liftExcept r)

def unitLock {α : Type} (body : UnitProg α) : UnitProg α := do
  ensureUnitDir
  sys .openLock
  ensure
    (do
      perform UnitOp.flock
      ensure body (perform UnitOp.funlock))
    (perform UnitOp.closeLock)

/-! ## Launching -/

def standardPidKeys : List String := ["command", "label", "pid", "started_at"]

/-- The `dict` that `_pid_payload` returns. -/
structure PidTemplate where
  base : Dict
  metadata : PyDict

def pidPayload (spec : ProcessSpec) (result : SpawnResult) : Except Exc PidTemplate :=
  let collisions := standardPidKeys.filter fun k => spec.pidMetadata.any fun e => e.1 == .str k
  if collisions ≠ [] then
    .error (.valueError
      ("pid_metadata may not replace standard fields: " ++ ", ".intercalate collisions))
  else
    let base := Dict.update ∅ [("pid", .int result.pid), ("command", .arr (spec.command.map .str)),
      ("started_at", .float result.startedAt), ("label", .str spec.label)]
    (dumpsWith false base spec.pidMetadata).map fun _ => ⟨base, spec.pidMetadata⟩

/-- `dict(template)`, updated with the fields of one launch; metadata that a field
    replaces is not encoded. -/
def PidTemplate.dump (t : PidTemplate) (fields : List (String × Json)) : Except Exc Dict :=
  let kept := t.metadata.filter fun e => !fields.any fun f => e.1 == .str f.1
  (dumpsWith true t.base kept).bind fun d => dumps (d.update fields)

def generationJson : Option ℤ → Json
  | some g => .int g
  | none => .null

/-- What `spawn` puts into `pid.json` beside the template. -/
def launchFields (pid startedAt : Json) (unit : String) (generation : Option ℤ)
    (token status : String) :
    List (String × Json) :=
  [("pid", pid), ("started_at", startedAt), ("unit", .str unit),
    ("generation", generationJson generation), ("token", .str token), ("incarnation", .str token),
    ("status", .str status)]

/-- The launch intent of `spawn`. -/
def launchIntent (spec : ProcessSpec) (generation : Option ℤ) (token : String) (t : PidTemplate) :
    Except Exc Dict :=
  t.dump (launchFields .null .null spec.unit generation token "launch_intent")

def ready : List UInt8 := "READY\n".toUTF8.data.toList

def ack : List UInt8 := "ACK\n".toUTF8.data.toList

/-- `sendall`, one byte after the other. -/
def sendAll (k : ℕ) : List UInt8 → UnitProg Unit
  | [] => return ()
  | b :: bs => do
    perform (UnitOp.send k b)
    sendAll k bs

/-- The polls of the probe window, `rounds` of them before the deadline: does the
    child live on? -/
def probe (k : ℕ) (token : String) : ℕ → UnitProg Bool
  | 0 => return true
  | rounds + 1 => do
    if ← perform (UnitOp.poll k) then
      if (← perform (UnitOp.getHandle token)).map Prod.fst = some k then
        perform (UnitOp.popHandle token)
      return false
    sys .sleep
    probe k token rounds

/-- `spawn_process`; `rounds` is how often the child is polled in the probe window. -/
def spawnProcess (launch : Launch) (rounds : ℕ) (persist : ℤ → ℚ → String → UnitProg Unit) :
    UnitProg SpawnResult := do
  sys .socketpair
  let (k, pid) ← perform (UnitOp.popen launch)
  sys .closeChildEnd
  let startedAt ← perform UnitOp.time
  let acked ← ensure
    (handle
      (do
        sys .settimeout
        if (← perform (UnitOp.recv k 6)) ≠ ready then return false
        persist pid startedAt launch.token
        perform (UnitOp.setHandle launch.token k)
        sendAll k ack
        return true)
      (fun e => do
        perform (UnitOp.closeSocket k)
        match ← attempt (UnitOp.wait k) with
        | .error (.fault .timeout) => raise e
        | .error e' => raise e'
        | .ok _ => raise e))
    (perform (UnitOp.closeSocket k))
  if !acked then return ⟨pid, startedAt, false, none, none⟩
  let alive ← probe k launch.token rounds
  return ⟨pid, startedAt, alive, some launch.token, launch.generation⟩

/-- A consumer's stream, opened around `body` if its path is given. -/
def withStream {α : Type} (path : Option String) (body : UnitProg α) : UnitProg α :=
  if path.getD "" = "" then body
  else do
    sys .openStream
    ensure body (sys .closeStream)

def childEnv (spec : ProcessSpec) (generation : Option ℤ) (environ : Env) : Env :=
  let env := spec.envOverlay.entries.foldl (fun e p => e.insert p.1 p.2) (spec.env.getD environ)
  match generation, spec.generationEnv with
  | some g, some k => env.insert k (toString g)
  | _, _ => env

/-- The fence of `spawn`: `pid.json` is absent. -/
def requireAbsent : UnitProg Unit := do
  match ← attempt UnitOp.lstatPid with
  | .error .notFound => return ()
  | .error e =>
    if e.isOSError then raise (.tombstone "pid metadata unreadable; operator verification required")
    else raise e
  | .ok _ => raise (.tombstone "process tombstone exists; operator verification required")

/-- The part of `spawn` that creates `pid.json` with the launch intent. -/
def writeIntent (intent : Except Exc Dict) : UnitProg Unit := do
  let fd ← perform UnitOp.createPid
  ensure
    (do
      let intent ← liftExcept intent
      perform (UnitOp.writePid fd intent)
      perform (UnitOp.syncPid fd))
    (sys .closePid)
  sys .openDir
  ensure (perform UnitOp.syncDir) (sys .closeDir)

def spawn (spec : ProcessSpec) (generation : Option ℤ) (rounds : ℕ) : UnitProg SpawnResult := do
  ensureUnitDir
  requireAbsent
  let template ← liftExcept (pidPayload spec ⟨0, 0, false, none, none⟩)
  let token ← perform UnitOp.uuid4
  writeIntent (launchIntent spec generation token template)
  let environ ← perform UnitOp.environ
  withStream spec.stdoutPath (withStream spec.stderrPath
    (spawnProcess ⟨spec.command, childEnv spec generation environ, spec.unit, generation, token⟩
      rounds fun pid started token => writeJsonAtomic .replacePid (template.dump
        (launchFields (.int pid) (.float started) spec.unit generation token
          "running_or_unknown"))))

/-! ## Stopping and clearing -/

/-- `v or 0`. -/
def Json.orZero : Json → Json
  | .null => .int 0
  | .bool false => .int 0
  | .float q => if q = 0 then .int 0 else .float q
  | .str s => if s = "" then .int 0 else .str s
  | .arr [] => .int 0
  | .obj [] => .int 0
  | v => v

/-- The part of `stop` on this supervisor's own handles: has a child been signalled? -/
def signalOwned (token pid : Json) : UnitProg Bool :=
  match token with
  | .str token => do
    match ← perform (UnitOp.getHandle token) with
    | none => return false
    | some (k, kpid) =>
      if pid.eqInt kpid then
        if !(← perform (UnitOp.poll k)) then
          perform (UnitOp.terminate k)
          return true
      perform (UnitOp.popHandle token)
      return false
  | _ => return false

/-- The record `stop` leaves. -/
def stoppedRecord (data : Dict) : Dict :=
  data.update [("stop_requested", .bool true), ("operator_verification_required", .bool true),
    ("status", .str "stop_requested_or_unknown")]

def stop : UnitProg StopResult := do
  match ← readJson (attempt UnitOp.readPid) with
  | none => raise (.tombstone "pid metadata absent or unreadable")
  | some data =>
    let signalled ← signalOwned (data.get "token") (data.get "pid")
    writeJsonAtomic .replacePid (dumps (stoppedRecord data))
    return ⟨← liftExcept (pyInt (data.get "pid").orZero), signalled, false, false⟩

/-- The arguments of a clearance. -/
structure Clearance where
  unit : String
  generation : Option ℤ
  token : String
  asserted : Bool
  operator : String := "operator"

/-- `v == generation`, where `None` is only equal to `None`. -/
def Json.eqGeneration (v : Json) : Option ℤ → Bool
  | some g => v.eqInt g
  | none => match v with | .null => true | _ => false

/-- The record names the launch the clearance is for. -/
def Clearance.Matches (q : Clearance) (data : Dict) : Bool :=
  (data.get "unit").eqStr q.unit && (data.get "generation").eqGeneration q.generation &&
    (data.get "token").eqStr q.token

def Clearance.record (q : Clearance) (clearedAt : ℚ) : Dict :=
  Dict.update ∅ [("unit", .str q.unit), ("generation", generationJson q.generation),
    ("token", .str q.token), ("operator", .str q.operator),
    ("asserted_workload_fully_gone", .bool true), ("cleared_at", .float clearedAt)]

def clearProcessTombstone (q : Clearance) : UnitProg Unit := do
  if !q.asserted then raise (.tombstone "explicit workload-gone assertion is required")
  unitLock (do
    match ← attempt UnitOp.lstatPid with
    | .error e =>
      if e.isOSError then raise (.tombstone "tombstone absent or unreadable") else raise e
    | .ok regular =>
      if !regular then raise (.tombstone "tombstone is not a regular file")
      match ← readJson (attempt UnitOp.readPid) with
      | none => raise (.tombstone "tombstone absent or unreadable")
      | some data =>
        if !q.Matches data then
          raise (.tombstone "unit/generation/token do not exactly match")
        let now ← perform UnitOp.time
        sys .openAudit
        ensure
          (do
            let record ← liftExcept (dumps (q.record now))
            perform (UnitOp.appendAudit record)
            sys .syncAudit)
          (sys .closeAudit)
        perform UnitOp.unlinkPid
        sys .openDir
        ensure (perform UnitOp.syncDir) (sys .closeDir)
        perform (UnitOp.popHandle q.token))

/-! ## Desired state -/

def coreStateKeys : List String :=
  ["schema_version", "unit", "desired", "actual", "generation", "pid"]

def defaultState (unit : String) : Dict :=
  Dict.update ∅ [("schema_version", .int 1), ("unit", .str unit), ("desired", .str "disabled"),
    ("actual", .str "unknown"), ("generation", .int 0), ("pid", .null)]

/-- The state a call works with, from what it has read. -/
def backfill (unit : String) : Option Dict → Dict
  | none => (defaultState unit).set "unit" (.str unit)
  | some stored =>
    ((defaultState unit).update (stored.entries.map fun e => (e.1, e.2))).set "unit" (.str unit)

def loadState (unit : String) : UnitProg Dict := do
  let stored ← readJson (attempt UnitOp.readState)
  return backfill unit stored

def saveState (encoded : Except Exc Dict) : UnitProg Unit := writeJsonAtomic .replaceState encoded

def setDesired (unit desired : String) : UnitProg Dict := do
  if desired ∉ ["enabled", "disabled", "paused"] then
    raise (.valueError ("desired must be one of 'enabled', 'disabled', 'paused', got '" ++
      desired ++ "'"))
  let state ← loadState unit
  let state := state.set "desired" (.str desired)
  saveState (dumps state)
  return state

/-- The entries of a heartbeat that a state takes over. -/
def opaqueEntries (heartbeat : PyDict) : PyDict :=
  heartbeat.filter fun e => !coreStateKeys.any fun k => e.1 == .str k

def mergeHeartbeat (unit : String) (heartbeat : PyDict) : UnitProg Dict := do
  let state ← loadState unit
  match (heartbeat.get "generation").asInt with
  | none => return state
  | some reported =>
    if reported ≠ (← liftExcept (pyInt (state.get "generation"))) then return state
    let merged := dumpsWith true state (opaqueEntries heartbeat)
    saveState merged
    liftExcept merged

def observeActual : UnitProg String := do
  match ← attempt UnitOp.lstatPid with
  | .error .notFound => return "stopped"
  | .error e => if e.isOSError then return "unknown" else raise e
  | .ok _ => return "running"

def tombstoneReason : String := "process_tombstone_operator_verification_required"

def exitedReason : String := "leader_exited_operator_verification_required"

/-- The state after a pass over a unit that has a tombstone. -/
def tombstoneState (state : Dict) (actual : String) (stopRequested : Bool) : Dict :=
  let state := state.update [("actual", .str actual), ("degraded_reason", .str tombstoneReason),
    ("operator_verification_required", .bool true)]
  if stopRequested then state.set "stop_requested" (.bool true) else state

/-- The state after a launch. -/
def launchedState (state : Dict) (generation : ℤ) (r : SpawnResult) : Dict :=
  let state := state.update [("generation", .int generation), ("pid", .int r.pid),
    ("actual", .str (if r.alive then "running" else "unknown")),
    ("process_token", (r.token.map Json.str).getD .null),
    ("operator_verification_required", .bool !r.alive)]
  if r.alive then state else state.set "degraded_reason" (.str exitedReason)

/-- The pass over a unit that has a tombstone, or may have one. -/
def tombstonePass (spec : ProcessSpec) (state : Dict) (actual : String) (wantRunning : Bool) :
    UnitProg ReconcileOutcome := do
  let signalled ← if wantRunning then pure false else
    handle (do return (← stop).signalled) fun
      | .tombstone _ => return false
      | e => raise e
  let state := tombstoneState state actual signalled
  saveState (dumps state)
  return ⟨spec.unit, "noop", state.get "desired", actual,
    ← liftExcept (pyInt (state.get "generation")), (state.get "pid").asInt,
    actual = "running", some tombstoneReason⟩

/-- The pass over a unit that is to run and has no tombstone. -/
def launchPass (spec : ProcessSpec) (state : Dict) (rounds : ℕ) : UnitProg ReconcileOutcome := do
  let generation := (← liftExcept (pyInt (state.get "generation"))) + 1
  match ← handle (do return some (← spawn spec (some generation) rounds)) fun
      | .tombstone _ => return none
      | e => raise e with
  | none =>
    let state := tombstoneState state "unknown" false
    saveState (dumps state)
    return ⟨spec.unit, "noop", state.get "desired", "unknown",
      ← liftExcept (pyInt (state.get "generation")), none, false, some tombstoneReason⟩
  | some r =>
    let state := launchedState state generation r
    saveState (dumps state)
    return ⟨spec.unit, "spawned", state.get "desired", if r.alive then "running" else "unknown",
      generation, some r.pid, r.alive, if r.alive then none else some exitedReason⟩

/-- The pass over a unit that is to stop and has no tombstone. -/
def stoppedPass (spec : ProcessSpec) (state : Dict) : UnitProg ReconcileOutcome := do
  let state := state.set "actual" (.str "stopped")
  saveState (dumps state)
  return ⟨spec.unit, "noop", state.get "desired", "stopped",
    ← liftExcept (pyInt (state.get "generation")), none, false, none⟩

def reconcileUnit (spec : ProcessSpec) (policy : Dict → Except Exc Bool) (rounds : ℕ) :
    UnitProg ReconcileOutcome :=
  unitLock (do
    let state ← loadState spec.unit
    let wantRunning ← liftExcept (policy state)
    let actual ← observeActual
    let state := state.set "actual" (.str actual)
    if actual ≠ "stopped" then tombstonePass spec state actual wantRunning
    else if wantRunning then launchPass spec state rounds
    else stoppedPass spec state)

/-! ## The wrapper -/

/-- Reads until a line has ended; `none` at the end of the stream.  At most `fuel`
    reads. -/
def readAck (k : ℕ) (got : List UInt8) : ℕ → UnitProg (Option (List UInt8))
  | 0 => raise (.fault .interrupt)
  | fuel + 1 =>
    if got.getLast? = some 10 then return some got
    else do
      let chunk ← perform (UnitOp.gateRead k 16)
      if chunk = [] then return none
      readAck k (got ++ chunk) fuel

/-- `main` of `_exec_gate.py`, in the child of launch `k`.  After `execvpe` the child
    is the consumer command. -/
def execGate (k fuel : ℕ) : UnitProg ℕ := do
  perform (UnitOp.gateWrite k ready)
  match ← readAck k [] fuel with
  | none => return 0
  | some got =>
    perform (UnitOp.gateClose k)
    if got ≠ ack then return 0
    perform (UnitOp.execvpe k)
    return 127

end DatasourceKit

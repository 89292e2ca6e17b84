/-
  One unit directory, the children of its launches, and any number of threads that
  run the functions of `Fleet/Unit.lean` on it, each in some process and possibly
  killed at any step.

  * `UnitWorld`: the files, the unit lock, the children with their channels to the
    parent, the handle tables;
  * `UnitWorld.effect`: what an operation does and answers.  `UnitWorld.op` adds the
    faults: an operation may fail before or after its effect;
  * `Mem`: what the running call of a thread has read and done (`Mem.note`), and
    `trace`, all operations done so far.  Nothing in the code depends on them;
  * `fleet`: the machine.
-/
import DatasourceKit.Interleave.Pool
import DatasourceKit.Fleet.Unit

namespace DatasourceKit

open Interleave Interleave.Prog

/-! ## Calls -/

/-- A call on the unit; `gate` is the wrapper process of a launch. -/
inductive UnitCall where
  | reconcile (spec : ProcessSpec) (policy : Dict → Except Exc Bool) (rounds : ℕ)
  | setDesired (desired : String)
  | heartbeat (hb : PyDict)
  | spawn (spec : ProcessSpec) (generation : Option ℤ) (rounds : ℕ)
  | stop
  | clear (q : Clearance)
  | gate (k fuel : ℕ)

/-- What a call returns. -/
inductive UnitAnswer where
  | outcome (o : ReconcileOutcome)
  | state (d : Dict)
  | spawned (r : SpawnResult)
  | stopped (r : StopResult)
  | cleared
  | exit (status : ℕ)

/-- The program of a call on the unit `unit`. -/
def UnitCall.code (unit : String) : UnitCall → UnitProg UnitAnswer
  | .reconcile spec policy rounds => do return .outcome (← reconcileUnit spec policy rounds)
  | .setDesired desired => do return .state (← DatasourceKit.setDesired unit desired)
  | .heartbeat hb => do return .state (← mergeHeartbeat unit hb)
  | .spawn spec generation
    rounds => do return .spawned (← DatasourceKit.spawn spec generation rounds)
  | .stop => do return .stopped (← DatasourceKit.stop)
  | .clear q => do
    clearProcessTombstone q
    return .cleared
  | .gate k fuel => do return .exit (← execGate k fuel)

/-! ## What a call has done -/

/-- The record of a running call: what it has read of the two files and done to
    them, and its launch. -/
structure Mem where
  call : Option UnitCall := none
  locked : Bool := false
  loaded : Option (Option Content) := none
  saved : Bool := false
  pidRead : Option Content := none
  token : Option String := none
  fence : Option ℕ := none
  intent : Option Dict := none
  kid : Option (ℕ × ℤ × Launch) := none
  record : Option Dict := none
  /-- the temporary file has been synced since it was written -/
  flushed : Bool := false
  /-- the directory has been synced since the last change of `pid.json` -/
  synced : Bool := false
  sent : List UInt8 := []
  audited : Bool := false
  unlinked : Bool := false
  got : List UInt8 := []
  executed : Bool := false

/-- The record after an operation with its answer. -/
def Mem.note : (o : UnitOp) → Except Exc o.Val → Mem → Mem
  | .uuid4, .ok t, m => { m with token := some t }
  | .flock, .ok _, m => { m with locked := true }
  | .funlock, .ok _, m => { m with locked := false }
  | .closeLock, .ok _, m => { m with locked := false }
  | .createPid, .ok n, m => { m with fence := some n }
  | .writePid _ d, .ok _, m => { m with intent := some d, synced := false }
  | .writeTmp, .ok _, m => { m with flushed := false }
  | .syncTmp, .ok _, m => { m with flushed := true }
  | .readPid, .ok c, m => { m with pidRead := some c }
  | .readPid, .error _, m => { m with pidRead := none }
  | .replacePid d, .ok _, m => { m with record := some d, synced := false }
  | .syncDir, .ok _, m => { m with synced := true }
  | .readState, .ok c, m => { m with loaded := some (some c) }
  | .readState, .error .notFound, m => { m with loaded := some none }
  | .replaceState _, .ok _, m => { m with saved := true }
  | .appendAudit _, .ok _, m => { m with audited := true }
  | .unlinkPid, .ok _, m => { m with unlinked := true }
  | .popen l, .ok (k, pid), m => { m with kid := some (k, pid, l) }
  | .send _ b, .ok _, m => { m with sent := m.sent ++ [b] }
  | .gateRead _ _, .ok bs, m => { m with got := m.got ++ bs }
  | .execvpe _, .ok _, m => { m with executed := true }
  | _, _, m => m

/-! ## The world -/

inductive FileKind where
  | regular | directory | special
deriving DecidableEq

/-- The file named `pid.json`; `synced`: its content is on the disk. -/
structure PidFile where
  ino : ℕ
  kind : FileKind
  content : Content
  synced : Bool

/-- The child of a launch, launched by the call number `call`: the bytes under way in
    both directions, those the parent has ever sent, how often it has executed the
    consumer command, and whether the parent has seen it exit (`Popen.returncode`). -/
structure Kid where
  launch : Launch
  pid : ℤ
  call : ℕ
  toParent : List UInt8 := []
  toChild : List UInt8 := []
  sent : List UInt8 := []
  parentOpen : Bool := true
  childOpen : Bool := true
  started : Bool := false
  execs : ℕ := 0
  exited : Bool := false

/-- An operation done by a thread in its call number `id`, and whether it succeeded. -/
structure Entry where
  thread : ℕ
  id : ℕ
  call : Option UnitCall
  op : UnitOp
  ok : Bool

structure UnitWorld where
  environ : Env
  /-- the process of a thread -/
  proc : ℕ → ℕ
  pid : Option PidFile
  /-- `pid.json` as a loss of power would leave it -/
  durable : Option Content
  state : Option Content
  ino : ℕ
  /-- the content of a thread's temporary file is on the disk -/
  tmp : ℕ → Bool
  /-- the thread that holds the unit lock -/
  lock : Option ℕ
  tokens : List String
  kids : List Kid
  handles : ℕ → AList fun _ : String => ℕ
  /-- the number of the next call, and the number of the last call of a thread -/
  calls : ℕ
  id : ℕ → ℕ
  mem : ℕ → Mem
  /-- the operations done, the last one first -/
  trace : List Entry

/-- The environment's part of a step: a fault, before or after the effect, and its
    answers.  `count` is how many bytes a read or write moves. -/
structure UnitEnv where
  fault : Option Fault := none
  late : Bool := false
  uuid : String := ""
  now : ℚ := 0
  isDir : Bool := true
  pid : ℤ := 0
  exited : Bool := false
  count : ℕ := 0

namespace UnitWorld
variable (w : UnitWorld)

def setKid (k : ℕ) (f : Kid → Kid) : UnitWorld := { w with kids := w.kids.modify k f }

/-- A thread releases the unit lock if it holds it. -/
def unlock (i : ℕ) : UnitWorld := { w with lock := if w.lock = some i then none else w.lock }

/-- The content of `pid.json` in the inode `n` becomes `c`. -/
def fillPid (n : ℕ) (f : PidFile → PidFile) : UnitWorld :=
  { w with pid := w.pid.map fun p => if p.ino = n then f p else p }

/-- What an operation of thread `i` does and answers; `none` if it is not enabled. -/
def effect (i : ℕ) (ch : UnitEnv) : (o : UnitOp) → Option (Except Exc o.Val × UnitWorld)
  | .sys _ => some (.ok (), w)
  | .uuid4 =>
    if ch.uuid ∈ w.tokens then
      none else some (.ok ch.uuid, { w with tokens := ch.uuid :: w.tokens })
  | .time => some (.ok ch.now, w)
  | .environ => some (.ok w.environ, w)
  | .lstatDir => some (.ok ch.isDir, w)
  | .flock =>
    match w.lock with
    | none => some (.ok (), { w with lock := some i })
    | some _ => none
  | .funlock => some (.ok (), w.unlock i)
  | .closeLock => some (.ok (), w.unlock i)
  | .lstatPid =>
    match w.pid with
    | none => some (.error .notFound, w)
    | some f => some (.ok (f.kind = .regular), w)
  | .createPid =>
    match w.pid with
    | none =>
      some (.ok w.ino, { w with pid := some ⟨w.ino, .regular, .malformed, false⟩, ino := w.ino + 1 })
    | some _ => some (.error .fileExists, w)
  | .writePid n d => some (.ok (), w.fillPid n fun f =>
    { f with content := .doc d, synced := false })
  | .syncPid n => some (.ok (), w.fillPid n fun f => { f with synced := true })
  | .writeTmp => some (.ok (), { w with tmp := Function.update w.tmp i false })
  | .syncTmp => some (.ok (), { w with tmp := Function.update w.tmp i true })
  | .readPid =>
    match w.pid with
    | none => some (.error .notFound, w)
    | some f => if f.kind = .directory then some (.error .isDirectory, w)
      else some (.ok f.content, w)
  | .replacePid d =>
    if (w.pid.map PidFile.kind) = some .directory then some (.error .isDirectory, w)
    else some (.ok (), { w with pid := some ⟨w.ino, .regular, .doc d, w.tmp i⟩, ino := w.ino + 1 })
  | .unlinkPid =>
    match w.pid with
    | none => some (.error .notFound, w)
    | some f =>
      if f.kind = .directory then some (.error .isDirectory, w)
      else some (.ok (), { w with pid := none })
  | .syncDir =>
    some (.ok (), { w with durable := w.pid.map fun f =>
      if f.synced then f.content else .malformed })
  | .readState =>
    match w.state with
    | none => some (.error .notFound, w)
    | some c => some (.ok c, w)
  | .replaceState d => some (.ok (), { w with state := some (.doc d) })
  | .appendAudit _ => some (.ok (), w)
  | .popen l =>
    some (.ok (w.kids.length, ch.pid),
      { w with kids := w.kids ++ [{ launch := l, pid := ch.pid, call := w.id i }] })
  | .recv k n =>
    match w.kids[k]? with
    | none => none
    | some kid =>
      let m := min n (min ch.count kid.toParent.length)
      if m = 0 then if kid.childOpen then none else some (.ok [], w)
      else some (.ok (kid.toParent.take m), w.setKid k fun kid =>
        { kid with toParent := kid.toParent.drop m })
  | .send k b =>
    match w.kids[k]? with
    | none => none
    | some kid =>
      if kid.childOpen then
        some (.ok (), w.setKid k fun kid =>
          { kid with toChild := kid.toChild ++ [b], sent := kid.sent ++ [b] })
      else some (.error (.fault .ioError), w)
  | .closeSocket k => some (.ok (), w.setKid k fun kid => { kid with parentOpen := false })
  | .wait k => some (.ok (), w.setKid k fun kid => { kid with exited := true })
  | .poll k =>
    let exited := ch.exited || (w.kids[k]?.map Kid.exited).getD false
    some (.ok exited, w.setKid k fun kid => { kid with exited := exited })
  | .terminate _ => some (.ok (), w)
  | .getHandle t =>
    some (.ok (((w.handles (w.proc i)).lookup t).bind fun k =>
      w.kids[k]?.map fun kid => (k, kid.pid)), w)
  | .setHandle t k =>
    some (.ok (), { w with
      handles := Function.update w.handles (w.proc i) ((w.handles (w.proc i)).insert t k) })
  | .popHandle t =>
    some (.ok (), { w with
      handles := Function.update w.handles (w.proc i) ((w.handles (w.proc i)).erase t) })
  | .gateWrite k bs =>
    match w.kids[k]? with
    | none => none
    | some kid =>
      if kid.parentOpen then
        some (.ok (), w.setKid k fun kid =>
          { kid with toParent := kid.toParent ++ bs.take (max 1 ch.count) })
      else some (.error (.fault .ioError), w)
  | .gateRead k n =>
    match w.kids[k]? with
    | none => none
    | some kid =>
      let m := min n (min ch.count kid.toChild.length)
      if m = 0 then if kid.parentOpen then none else some (.ok [], w)
      else some (.ok (kid.toChild.take m), w.setKid k fun kid =>
        { kid with toChild := kid.toChild.drop m })
  | .gateClose k => some (.ok (), w.setKid k fun kid => { kid with childOpen := false })
  | .execvpe k => some (.ok (), w.setKid k fun kid => { kid with execs := kid.execs + 1 })

/-- Thread `i` has done the operation. -/
def record (i : ℕ) (o : UnitOp) (r : Except Exc o.Val) : UnitWorld :=
  { w with
    mem := Function.update w.mem i ((w.mem i).note o r)
    trace := ⟨i, w.id i, (w.mem i).call, o, r.isOk⟩ :: w.trace }

variable {w} {i j : ℕ} {o : UnitOp} {r : Except Exc o.Val}

@[simp] theorem record_trace :
    (w.record i o r).trace = ⟨i, w.id i, (w.mem i).call, o, r.isOk⟩ :: w.trace := rfl

@[simp] theorem record_mem_self : (w.record i o r).mem i = (w.mem i).note o r :=
  Function.update_self ..

theorem record_mem_ne (h : j ≠ i) : (w.record i o r).mem j = w.mem j := Function.update_of_ne h ..

variable (w)

/-- The faults an operation can meet, and whether its effect has taken place then.
    Closing the lock file frees the lock whatever `close` reports; a failed `Popen`
    counts as a child whose wrapper may never start; `state.json` is the supervisor's
    own file, so reading it is not refused. -/
def faultAt (ch : UnitEnv) : UnitOp → Option (Option (Fault × Bool))
  | .closeLock => some (ch.fault.map fun f => (f, true))
  | .popen _ => some (ch.fault.map fun f => (f, true))
  | .readState => if ch.fault = some .permission then
    none else some (ch.fault.map fun f => (f, ch.late))
  | _ => some (ch.fault.map fun f => (f, ch.late))

/-- The operation as thread `i` sees it. -/
def op (i : ℕ) (ch : UnitEnv) (o : UnitOp) : Option (Except Exc o.Val × UnitWorld) :=
  match faultAt ch o with
  | none => none
  | some none => (w.effect i ch o).map fun r => (r.1, r.2.record i o r.1)
  | some (some (f, true)) => (w.effect i ch o).map fun r => (.error (.fault f), r.2.record i o r.1)
  | some (some (f, false)) => some (.error (.fault f), w)

/-- The calls that can start: a pass over this unit, or the wrapper of a launch whose
    wrapper has not started. -/
def canStart (unit : String) : UnitCall → Bool
  | .reconcile spec _ _ => spec.unit = unit
  | .gate k _ => (w.kids[k]?.map fun kid => !kid.started).getD false
  | _ => true

def start (unit : String) (i : ℕ) (k : UnitCall) : Option UnitWorld :=
  if w.canStart unit k then
    let w' := match k with
      | .gate k _ => w.setKid k fun kid => { kid with started := true }
      | _ => w
    some { w' with
      calls := w.calls + 1
      id := Function.update w.id i w.calls
      mem := Function.update w.mem i { call := some k } }
  else none

/-- The end of a call, or of its process: its descriptors are closed. -/
def close (i : ℕ) : UnitWorld :=
  let w' := match (w.mem i).kid, (w.mem i).call with
    | some (k, _, _), _ => w.setKid k fun kid => { kid with parentOpen := false }
    | none, some (.gate k _) => w.setKid k fun kid => { kid with childOpen := false }
    | _, _ => w
  { w'.unlock i with mem := Function.update w.mem i {} }

/-- No call is running, nothing has been launched. -/
def init (environ : Env) (proc : ℕ → ℕ) (pid : Option PidFile) (state : Option Content)
    (tokens : List String) : UnitWorld where
  environ := environ
  proc := proc
  pid := pid
  durable := pid.map PidFile.content
  state := state
  ino := (pid.map PidFile.ino).getD 0 + 1
  tmp := fun _ => false
  lock := none
  tokens := tokens
  kids := []
  handles := fun _ => ∅
  calls := 1
  id := fun _ => 0
  mem := fun _ => {}
  trace := []

end UnitWorld

/-- The unit `unit` of a reconciler. -/
def fleet (unit : String) : Machine UnitOp.Val Exc UnitAnswer UnitWorld UnitCall UnitEnv where
  code := UnitCall.code unit
  op := fun i ch o w => w.op i ch o
  start := fun i k w => w.start unit i k
  finish := fun i _ _ w => w.close i
  die := fun i w => w.close i

abbrev UnitCfg := Cfg UnitOp.Val Exc UnitAnswer UnitWorld UnitCall

abbrev UnitAct := Act UnitCall UnitEnv

/-! ## What a step changes -/

/-- The exceptions an operation answers with: no `ProcessTombstoneError`, and reading
    `state.json` is not refused. -/
def UnitOp.answers : (o : UnitOp) → Except Exc o.Val → Prop
  | .readState, .error e => e = .notFound ∨ ∃ f, e = .fault f ∧ f ≠ .permission
  | _, .error e => ∀ msg, e ≠ .tombstone msg
  | _, .ok _ => True

theorem Mem.note_call {m : Mem} {o : UnitOp} (r : Except Exc o.Val) :
    (m.note o r).call = m.call := by
  cases o <;> first
    | (cases r <;> rfl)
    | (rcases r with e | _ <;> [cases e; skip] <;> rfl)

theorem Mem.note_kid {m : Mem} {o : UnitOp} (ho : ∀ l, o ≠ .popen l) (r : Except Exc o.Val) :
    (m.note o r).kid = m.kid := by
  cases o <;> first
    | (cases r <;> rfl)
    | (rcases r with e | _ <;> [cases e; skip] <;> rfl)
    | exact absurd rfl (ho _)

theorem Mem.note_fence {m : Mem} {o : UnitOp} (ho : o ≠ .createPid) (r : Except Exc o.Val) :
    (m.note o r).fence = m.fence := by
  cases o <;> first
    | contradiction
    | (cases r <;> rfl)
    | (rcases r with e | _ <;> [cases e; skip] <;> rfl)

theorem Mem.note_audited {m : Mem} {o : UnitOp} (ho : ∀ d, o ≠ .appendAudit d)
    (r : Except Exc o.Val) :
    (m.note o r).audited = m.audited := by
  cases o <;> first
    | (cases r <;> rfl)
    | (rcases r with e | _ <;> [cases e; skip] <;> rfl)
    | exact absurd rfl (ho _)

theorem Mem.note_unlinked {m : Mem} {o : UnitOp} (ho : o ≠ .unlinkPid) (r : Except Exc o.Val) :
    (m.note o r).unlinked = m.unlinked := by
  cases o <;> first
    | contradiction
    | (cases r <;> rfl)
    | (rcases r with e | _ <;> [cases e; skip] <;> rfl)

theorem Mem.note_pidRead {m : Mem} {o : UnitOp} (ho : o ≠ .readPid) (r : Except Exc o.Val) :
    (m.note o r).pidRead = m.pidRead := by
  cases o <;> first
    | contradiction
    | (cases r <;> rfl)
    | (rcases r with e | _ <;> [cases e; skip] <;> rfl)

theorem Mem.note_intent {m : Mem} {o : UnitOp} (ho : ∀ n d, o ≠ .writePid n d)
    (r : Except Exc o.Val) :
    (m.note o r).intent = m.intent := by
  cases o <;> first
    | (cases r <;> rfl)
    | (rcases r with e | _ <;> [cases e; skip] <;> rfl)
    | exact absurd rfl (ho _ _)

theorem Mem.note_loaded {m : Mem} {o : UnitOp} (ho : o ≠ .readState) (r : Except Exc o.Val) :
    (m.note o r).loaded = m.loaded := by
  cases o <;> first | (cases r <;> rfl) | contradiction

theorem Mem.note_saved {m : Mem} {o : UnitOp} (ho : ∀ d, o ≠ .replaceState d)
    (r : Except Exc o.Val) :
    (m.note o r).saved = m.saved := by
  cases o <;> first
    | (cases r <;> rfl)
    | (rcases r with e | _ <;> [cases e; skip] <;> rfl)
    | exact absurd rfl (ho _)

theorem Mem.note_locked {m : Mem} {o : UnitOp} (ho : o ≠ .flock) {r : Except Exc o.Val}
    (h : (m.note o r).locked = true) : m.locked = true := by
  cases o <;> first
    | contradiction
    | (cases r <;> first | exact h | cases h)
    | (rcases r with e | _ <;> [cases e; skip] <;> exact h)

/-- The step of an operation on the record of its call. -/
def UnitOp.upd (o : UnitOp) (m : Mem) (r : Except Exc o.Val) (m' : Mem) : Prop :=
  o.answers r ∧ (m' = m.note o r ∨ ∃ f, r = .error (.fault f) ∧ (m' = m ∨ ∃ r', m' = m.note o r'))

theorem UnitOp.answers.not_tombstone {o : UnitOp} {e : Exc}
    (h : o.answers (.error e)) (msg : String) :
    e ≠ .tombstone msg := by
  rintro rfl
  cases o <;> simp [UnitOp.answers] at h

theorem UnitOp.answers_fault {o : UnitOp} {f : Fault} (h : o = .readState → f ≠ .permission) :
    o.answers (.error (.fault f)) := by
  cases o <;> simp_all [UnitOp.answers]

namespace UnitWorld
variable {w w' : UnitWorld} {i : ℕ} {ch : UnitEnv} {o : UnitOp} {r : Except Exc o.Val}

/-- An operation has no effect, or the one of `effect`, and then it is recorded. -/
theorem op_cases (h : w.op i ch o = some (r, w')) :
    (w' = w ∧ ∃ f, r = .error (.fault f)) ∨
    ∃ r' v, w.effect i ch o = some (r', v) ∧ w' = v.record i o r' ∧
      (r = r' ∨ ∃ f, r = .error (.fault f)) := by
  simp only [op] at h
  split at h
  · cases h
  · obtain ⟨⟨r', v⟩, he, hr⟩ := Option.map_eq_some_iff.1 h
    cases hr
    exact .inr ⟨r', v, he, rfl, .inl rfl⟩
  · obtain ⟨⟨r', v⟩, he, hr⟩ := Option.map_eq_some_iff.1 h
    cases hr
    exact .inr ⟨r', v, he, rfl, .inr ⟨_, rfl⟩⟩
  · cases h
    exact .inl ⟨rfl, _, rfl⟩

/-- The effect itself leaves the records alone. -/
theorem effect_mem {v : UnitWorld} (h : w.effect i ch o = some (r, v)) :
    v.mem = w.mem ∧ v.trace = w.trace ∧ v.id = w.id ∧ v.calls = w.calls ∧ o.answers r := by
  cases o <;> simp only [effect] at h <;> (try split at h) <;> (try split at h) <;>
    (try split at h) <;> cases h <;> simp [unlock, fillPid, setKid, UnitOp.answers]

/-- The operation is the last entry of the trace and noted in the record of its call; the other
    records stay as they are. -/
structure Recorded (w : UnitWorld) (i : ℕ) (o : UnitOp) (r : Except Exc o.Val)
    (w' : UnitWorld) : Prop where
  trace : w'.trace = ⟨i, w.id i, (w.mem i).call, o, r.isOk⟩ :: w.trace
  self : w'.mem i = (w.mem i).note o r
  other : ∀ j, j ≠ i → w'.mem j = w.mem j
  id : w'.id = w.id
  calls : w'.calls = w.calls

theorem effect_recorded {v : UnitWorld} (h : w.effect i ch o = some (r, v)) :
    w.Recorded i o r (v.record i o r) := by
  obtain ⟨hm, ht, hid, hcalls, -⟩ := effect_mem h
  constructor
  · rw [record_trace, ht, hid, hm]
  · rw [record_mem_self, hm]
  · intro j hj
    rw [record_mem_ne hj, hm]
  · exact hid
  · exact hcalls

/-- No operation changes what a call is. -/
theorem Recorded.call (h : w.Recorded i o r w') (j : ℕ) : (w'.mem j).call = (w.mem j).call := by
  by_cases hj : j = i
  · rw [hj, h.self, Mem.note_call]
  · rw [h.other j hj]

/-- The entries before it are in the trace. -/
theorem Recorded.exists_entry (h : w.Recorded i o r w') {p : Entry → Prop}
    (he : ∃ e ∈ w.trace, p e) :
    ∃ e ∈ w'.trace, p e := by
  obtain ⟨e, he, hp⟩ := he
  exact ⟨e, h.trace ▸ List.mem_cons_of_mem _ he, hp⟩

theorem effect_state {v : UnitWorld} (h : w.effect i ch o = some (r, v)) :
    v.state = w.state ∨ ∃ d, o = .replaceState d ∧ v.state = some (.doc d) := by
  cases o <;> simp only [effect] at h <;> (try split at h) <;> (try split at h) <;>
    (try split at h) <;> cases h <;> simp [unlock, fillPid, setKid]

theorem effect_readState {v : UnitWorld} {r : Except Exc Content}
    (h : w.effect i ch .readState = some (r, v)) :
    v.state = w.state ∧ ((∃ c, w.state = some c ∧ r = .ok c) ∨ w.state = none ∧
      r = .error .notFound) := by
  simp only [effect] at h
  split at h <;> cases h
  · rename_i hs; exact ⟨rfl, .inr ⟨hs, rfl⟩⟩
  · rename_i c hs; exact ⟨rfl, .inl ⟨c, hs, rfl⟩⟩

theorem effect_lock {v : UnitWorld} (h : w.effect i ch o = some (r, v)) :
    (o = .flock ∧ w.lock = none ∧ v.lock = some i) ∨
    ((o = .funlock ∨ o = .closeLock) ∧ v.lock = if w.lock = some i then none else w.lock) ∨
    (o ≠ .flock ∧ o ≠ .funlock ∧ o ≠ .closeLock ∧ v.lock = w.lock) := by
  cases o <;> simp only [effect] at h <;> (try split at h) <;> (try split at h) <;>
    (try split at h) <;> cases h <;> simp_all [unlock, fillPid, setKid]

theorem op_answers (h : w.op i ch o = some (r, w')) : o.answers r := by
  have hf : ∀ f b, faultAt ch o = some (some (f, b)) → o = .readState → f ≠ .permission := by
    rintro f b h rfl rfl
    simp only [faultAt] at h
    split_ifs at h with hp
    simp only [Option.some.injEq, Option.map_eq_some_iff, Prod.mk.injEq] at h
    obtain ⟨f', hf', rfl, -⟩ := h
    exact hp hf'
  simp only [op] at h
  split at h
  · cases h
  · obtain ⟨⟨r', v⟩, he, hr⟩ := Option.map_eq_some_iff.1 h
    cases hr
    exact (effect_mem he).2.2.2.2
  · obtain ⟨⟨r', v⟩, he, hr⟩ := Option.map_eq_some_iff.1 h
    cases hr
    exact UnitOp.answers_fault (hf _ _ ‹_›)
  · cases h
    exact UnitOp.answers_fault (hf _ _ ‹_›)

theorem op_view (h : w.op i ch o = some (r, w')) :
    o.upd (w.mem i) r (w'.mem i) ∧ ∀ j ≠ i, w'.mem j = w.mem j := by
  have ha := op_answers h
  rcases op_cases h with ⟨rfl, f, rfl⟩ | ⟨r', v, he, rfl, hr⟩
  · exact ⟨⟨ha, .inr ⟨f, rfl, .inl rfl⟩⟩, fun _ _ => rfl⟩
  · obtain ⟨hm, -⟩ := effect_mem he
    have hi : (v.record i o r').mem i = (w.mem i).note o r' := by simp [record, hm]
    refine ⟨⟨ha, ?_⟩, fun j hj => by simp [record, hm, hj]⟩
    rw [hi]
    rcases hr with rfl | ⟨f, rfl⟩
    · exact .inl rfl
    · exact .inr ⟨f, rfl, .inr ⟨r', rfl⟩⟩

theorem start_view {unit : String} {k : UnitCall} (h : w.start unit i k = some w') :
    w'.mem i = { call := some k } ∧ ∀ j ≠ i, w'.mem j = w.mem j := by
  simp only [start] at h
  split_ifs at h
  cases h
  refine ⟨by simp, fun j hj => ?_⟩
  cases k <;> simp [hj]

theorem start_frame {unit : String} {k : UnitCall} (h : w.start unit i k = some w') :
    w'.trace = w.trace ∧ w'.state = w.state ∧ w'.pid = w.pid ∧ w'.durable = w.durable := by
  simp only [start] at h
  split_ifs at h
  cases h
  cases k <;> exact ⟨rfl, rfl, rfl, rfl⟩

theorem close_frame (i : ℕ) : (w.close i).trace = w.trace ∧ (w.close i).state = w.state ∧
    (w.close i).pid = w.pid ∧ (w.close i).durable = w.durable := by
  unfold close
  dsimp only
  split <;> exact ⟨rfl, rfl, rfl, rfl⟩

theorem close_view : ∀ j ≠ i, (w.close i).mem j = w.mem j := by
  intro j hj
  simp only [close, Function.update_of_ne hj, unlock]

/-- A call that believes to hold the unit lock holds it. -/
def LockOwned (w : UnitWorld) : Prop := ∀ i, (w.mem i).locked = true → w.lock = some i

theorem LockOwned.op (hw : w.LockOwned) (h : w.op i ch o = some (r, w')) : w'.LockOwned := by
  rcases op_cases h with ⟨rfl, -⟩ | ⟨r', v, he, rfl, -⟩
  · exact hw
  obtain ⟨hm, -⟩ := effect_mem he
  intro j hj
  by_cases hji : j = i
  · subst hji
    simp only [record, Function.update_self, hm] at hj
    rcases effect_lock he with ⟨rfl, -, hl⟩ | ⟨rfl | rfl, -⟩ | ⟨h₁, h₂, h₃, hl⟩
    · exact hl
    · simp only [effect, Option.some.injEq, Prod.mk.injEq] at he
      rw [← he.1] at hj; cases hj
    · simp only [effect, Option.some.injEq, Prod.mk.injEq] at he
      rw [← he.1] at hj; cases hj
    · have hkeep : ((w.mem j).note o r').locked = (w.mem j).locked := by
        cases o <;> first
          | (cases r' <;> rfl)
          | (rcases r' with e | _ <;> [cases e; skip] <;> rfl)
          | contradiction
      exact hl.trans (hw j (hkeep ▸ hj))
  · simp only [record, Function.update_of_ne hji, hm] at hj
    have hlj := hw j hj
    rcases effect_lock he with ⟨-, hl, -⟩ | ⟨-, hl⟩ | ⟨-, -, -, hl⟩
    · rw [hlj] at hl; cases hl
    · simp only [record, hl, hlj, Option.some.injEq, if_neg hji]
    · exact hl.trans hlj

theorem LockOwned.start {unit : String} {k : UnitCall} (hw : w.LockOwned)
    (h : w.start unit i k = some w') : w'.LockOwned := by
  obtain ⟨hi, hj⟩ := start_view h
  have hl : w'.lock = w.lock := by
    simp only [UnitWorld.start] at h
    split_ifs at h
    cases h
    cases k <;> rfl
  intro j hlj
  by_cases hji : j = i
  · subst hji; rw [hi] at hlj; cases hlj
  · rw [hj j hji] at hlj; exact hl.trans (hw j hlj)

theorem close_lock : (w.close i).lock = if w.lock = some i then none else w.lock := by
  unfold close
  dsimp only
  split <;> rfl

theorem LockOwned.close (hw : w.LockOwned) (i : ℕ) : (w.close i).LockOwned := by
  intro j hj
  by_cases hji : j = i
  · subst hji; simp [UnitWorld.close] at hj
  · rw [close_view j hji] at hj
    rw [close_lock, hw j hj, if_neg (by simpa using hji)]

theorem lockOwned_init {environ : Env} {proc : ℕ → ℕ} {pid : Option PidFile}
    {state : Option Content} {tokens : List String} :
    (init environ proc pid state tokens).LockOwned := by
  intro i hi; cases hi

/-- What a call has synced of its temporary file is on the disk. -/
def Flushed (w : UnitWorld) : Prop := ∀ i, (w.mem i).flushed = true → w.tmp i = true

theorem effect_tmp {v : UnitWorld} (h : w.effect i ch o = some (r, v)) :
    v.tmp = Function.update w.tmp i ((w.mem i).note o r).flushed ∨
    ((w.mem i).note o r).flushed = (w.mem i).flushed ∧ v.tmp = w.tmp := by
  cases o <;> simp only [effect] at h <;> (try split at h) <;> (try split at h) <;>
    (try split at h) <;> cases h <;> simp [Mem.note, unlock, fillPid, setKid]

theorem Flushed.op (hw : w.Flushed) (h : w.op i ch o = some (r, w')) : w'.Flushed := by
  rcases op_cases h with ⟨rfl, -⟩ | ⟨r', v, he, rfl, -⟩
  · exact hw
  have hrec := effect_recorded he
  intro j hj
  show v.tmp j = true
  by_cases hji : j = i
  · subst hji
    rw [hrec.self] at hj
    rcases effect_tmp he with ht | ⟨hn, ht⟩
    · rw [ht, Function.update_self, hj]
    · rw [ht]
      exact hw j (hn ▸ hj)
  · rw [hrec.other j hji] at hj
    have hkeep := hw j hj
    rcases effect_tmp he with ht | ⟨-, ht⟩
    · rwa [ht, Function.update_of_ne hji]
    · rwa [ht]

theorem Flushed.start {unit : String} {k : UnitCall} (hw : w.Flushed)
    (h : w.start unit i k = some w') : w'.Flushed := by
  obtain ⟨hi, hj⟩ := start_view h
  have ht : w'.tmp = w.tmp := by
    simp only [UnitWorld.start] at h
    split_ifs at h
    cases h
    cases k <;> rfl
  intro j hf
  by_cases hji : j = i
  · subst hji; rw [hi] at hf; cases hf
  · rw [hj j hji] at hf; exact ht ▸ hw j hf

theorem Flushed.close (hw : w.Flushed) (i : ℕ) : (w.close i).Flushed := by
  have ht : (w.close i).tmp = w.tmp := by
    unfold UnitWorld.close
    dsimp only
    split <;> rfl
  intro j hj
  by_cases hji : j = i
  · subst hji; simp [UnitWorld.close] at hj
  · rw [close_view j hji] at hj
    exact ht ▸ hw j hj

theorem flushed_init {environ : Env} {proc : ℕ → ℕ} {pid : Option PidFile} {state : Option Content}
    {tokens : List String} : (init environ proc pid state tokens).Flushed := by
  intro i hi; cases hi

end UnitWorld

/-! ### The children -/

/-- What every step keeps of a child. -/
structure Kid.Keeps (a b : Kid) : Prop where
  launch : b.launch = a.launch
  pid : b.pid = a.pid
  call : b.call = a.call

namespace UnitWorld
variable {w w' : UnitWorld} {i : ℕ} {ch : UnitEnv} {o : UnitOp} {r : Except Exc o.Val}

theorem modify_same {α : Type} (l : List α) : l.modify 0 (fun a => a) = l := by
  cases l <;> rfl

/-- An operation launches a child, or changes the state of one child; only `send`
    changes what the parent has sent. -/
theorem effect_kids {v : UnitWorld} (h : w.effect i ch o = some (r, v)) :
    (∃ l, o = .popen l ∧ v.kids = w.kids ++ [{ launch := l, pid := ch.pid, call := w.id i }]) ∨
    (∀ l, o ≠ .popen l) ∧ ∃ k f, v.kids = w.kids.modify k f ∧
      ∀ kid : Kid, kid.Keeps (f kid) ∧ ((∀ b, o ≠ .send k b) → (f kid).sent = kid.sent) := by
  have hid : ∀ l : List Kid, l = l.modify 0 fun kid => kid := fun l => (modify_same l).symm
  cases o <;> simp only [effect] at h <;> (try split at h) <;> (try split at h) <;>
    (try split at h) <;> cases h
  all_goals first
    | exact .inl ⟨_, rfl, rfl⟩
    | exact .inr ⟨by simp, 0, fun kid => kid, hid _, fun kid => ⟨⟨rfl, rfl, rfl⟩, fun _ => rfl⟩⟩
    | exact .inr ⟨by simp, _, _, rfl, fun kid => ⟨⟨rfl, rfl, rfl⟩, fun h => by
        first | rfl | exact absurd rfl (h _)⟩⟩

theorem getElem?_modify {l : List Kid} {k j : ℕ} {f : Kid → Kid} {b : Kid}
    (h : (l.modify k f)[j]? = some b) : ∃ a, l[j]? = some a ∧ (b = a ∨ j = k ∧ b = f a) := by
  rw [List.getElem?_modify] at h
  obtain ⟨a, ha, hb⟩ := Option.map_eq_some_iff.1 h
  refine ⟨a, ha, ?_⟩
  split_ifs at hb with hk
  · exact .inr ⟨hk.symm, hb.symm⟩
  · exact .inl hb.symm

theorem start_kids {unit : String} {k : UnitCall} (h : w.start unit i k = some w') :
    ∃ n f, w'.kids = w.kids.modify n f ∧ ∀ kid : Kid, kid.Keeps (f kid) ∧
    (f kid).sent = kid.sent := by
  simp only [start] at h
  split_ifs at h
  cases h
  cases k <;> first
    | exact ⟨_, _, rfl, fun kid => ⟨⟨rfl, rfl, rfl⟩, rfl⟩⟩
    | exact ⟨0, fun kid => kid, (modify_same _).symm, fun kid => ⟨⟨rfl, rfl, rfl⟩, rfl⟩⟩

theorem close_kids (w : UnitWorld) (i : ℕ) :
    ∃ n f, (w.close i).kids = w.kids.modify n f ∧
      ∀ kid : Kid, kid.Keeps (f kid) ∧ (f kid).sent = kid.sent := by
  unfold close
  dsimp only
  split <;> first
    | exact ⟨_, _, rfl, fun kid => ⟨⟨rfl, rfl, rfl⟩, rfl⟩⟩
    | exact ⟨0, fun kid => kid, (modify_same _).symm, fun kid => ⟨⟨rfl, rfl, rfl⟩, rfl⟩⟩

/-- The numbers of the calls that have launched a child. -/
def launchers (w : UnitWorld) : List ℕ := w.kids.map Kid.call

theorem map_call_modify {l : List Kid} {k : ℕ} {f : Kid → Kid}
    (hf : ∀ kid : Kid, kid.Keeps (f kid)) :
    (l.modify k f).map Kid.call = l.map Kid.call := by
  refine List.ext_getElem? fun j => ?_
  rw [List.getElem?_map, List.getElem?_map, List.getElem?_modify]
  cases l[j]? with
  | none => rfl
  | some a =>
    by_cases hk : k = j
    · simp [hk, (hf a).call]
    · simp [hk]

theorem effect_launchers {v : UnitWorld} (h : w.effect i ch o = some (r, v)) :
    (∃ l, o = .popen l ∧ v.launchers = w.launchers ++ [w.id i]) ∨
    (∀ l, o ≠ .popen l) ∧ v.launchers = w.launchers := by
  rcases effect_kids h with ⟨l, rfl, hk⟩ | ⟨ho, k, f, hk, hf⟩
  · exact .inl ⟨l, rfl, by simp [launchers, hk]⟩
  · exact .inr ⟨ho, by rw [launchers, hk, map_call_modify fun kid => (hf kid).1]; rfl⟩

theorem start_launchers {unit : String} {k : UnitCall} (h : w.start unit i k = some w') :
    w'.launchers = w.launchers := by
  obtain ⟨n, f, hk, hf⟩ := start_kids h
  rw [launchers, hk, map_call_modify fun kid => (hf kid).1]
  rfl

theorem close_launchers (w : UnitWorld) (i : ℕ) : (w.close i).launchers = w.launchers := by
  obtain ⟨n, f, hk, hf⟩ := close_kids w i
  rw [launchers, hk, map_call_modify fun kid => (hf kid).1]
  rfl

/-! ### Call numbers -/

theorem start_id {unit : String} {k : UnitCall} (h : w.start unit i k = some w') :
    w'.calls = w.calls + 1 ∧ w'.id i = w.calls ∧ ∀ j ≠ i, w'.id j = w.id j := by
  simp only [start] at h
  split_ifs at h
  cases h
  cases k <;> exact ⟨rfl, Function.update_self .., fun j hj => Function.update_of_ne hj ..⟩

theorem close_id (w : UnitWorld) (i : ℕ) : (w.close i).calls = w.calls ∧ (w.close i).id = w.id := by
  unfold close
  dsimp only
  split <;> exact ⟨rfl, rfl⟩

@[simp] theorem close_mem_self : (w.close i).mem i = {} := by
  simp [close]

/-- Calls have different numbers, below the number of the next one. -/
structure Numbered (w : UnitWorld) : Prop where
  idLt : ∀ i, w.id i < w.calls
  entryLt : ∀ e ∈ w.trace, e.id < w.calls
  inj : ∀ i j, (w.mem i).call ≠ none → (w.mem j).call ≠ none → w.id i = w.id j → i = j

theorem Numbered.op (hw : w.Numbered) (h : w.op i ch o = some (r, w')) : w'.Numbered := by
  have hcall : ∀ j, (w'.mem j).call = (w.mem j).call := by
    obtain ⟨hu, hj⟩ := op_view h
    intro j
    by_cases hji : j = i
    · subst hji
      rcases hu.2 with hm | ⟨f, -, hm | ⟨r', hm⟩⟩ <;> rw [hm] <;> exact Mem.note_call _
    · rw [hj j hji]
  rcases op_cases h with ⟨rfl, -⟩ | ⟨r', v, he, rfl, -⟩
  · exact hw
  obtain ⟨-, ht, hid, hcalls, -⟩ := effect_mem he
  refine ⟨fun j => ?_, fun e he' => ?_, fun j k hj hk hjk => ?_⟩
  · show v.id j < v.calls
    rw [hid, hcalls]
    exact hw.idLt j
  · show e.id < v.calls
    rw [hcalls]
    rcases List.mem_cons.1 he' with rfl | he'
    · rw [hid]; exact hw.idLt i
    · exact hw.entryLt e (ht ▸ he')
  · rw [hcall] at hj hk
    rw [show (v.record i o r').id = v.id from rfl, hid] at hjk
    exact hw.inj j k hj hk hjk

theorem Numbered.start {unit : String} {k : UnitCall} (hw : w.Numbered)
    (h : w.start unit i k = some w') : w'.Numbered := by
  obtain ⟨-, hj⟩ := start_view h
  obtain ⟨hcalls, hi, hid⟩ := start_id h
  have hold : ∀ j ≠ i, w'.id j < w'.id i := fun j hji => by
    rw [hid j hji, hi]; exact hw.idLt j
  refine ⟨fun j => ?_, fun e he => ?_, fun j k hjc hkc hjk => ?_⟩
  · by_cases hji : j = i
    · rw [hji, hi, hcalls]; omega
    · have := hold j hji
      omega
  · rw [hcalls]
    exact Nat.lt_succ_of_lt (hw.entryLt e ((start_frame h).1 ▸ he))
  · by_cases hji : j = i <;> by_cases hki : k = i
    · rw [hji, hki]
    · have := hold k hki
      rw [hji] at hjk
      omega
    · have := hold j hji
      rw [hki] at hjk
      omega
    · rw [hj j hji] at hjc
      rw [hj k hki] at hkc
      rw [hid j hji, hid k hki] at hjk
      exact hw.inj j k hjc hkc hjk

theorem Numbered.close (hw : w.Numbered) (i : ℕ) : (w.close i).Numbered := by
  obtain ⟨hcalls, hid⟩ := close_id w i
  refine ⟨fun j => ?_, fun e he => ?_, fun j k hjc hkc hjk => ?_⟩
  · rw [hcalls, hid]; exact hw.idLt j
  · rw [hcalls]
    exact hw.entryLt e ((close_frame i).1 ▸ he)
  · have hback : ∀ n, ((w.close i).mem n).call ≠ none → (w.mem n).call ≠ none := by
      intro n hn
      by_cases hni : n = i
      · subst hni; simp at hn
      · rwa [close_view n hni] at hn
    exact hw.inj j k (hback j hjc) (hback k hkc) (by rwa [hid] at hjk)

theorem numbered_init {environ : Env} {proc : ℕ → ℕ} {pid : Option PidFile} {state : Option Content}
    {tokens : List String} : (init environ proc pid state tokens).Numbered := by
  constructor <;> simp [init]

end UnitWorld

end DatasourceKit

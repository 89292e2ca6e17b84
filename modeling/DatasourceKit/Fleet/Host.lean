/-
  `FleetHost` (`fleet/host.py`): passes over a fixed fleet under the supervisor lock.

  * `FleetOp`: the calls of the host; the callbacks may answer anything or raise;
  * `FleetHost.runOnce`, `FleetHost.serve`: the source functions;
  * `FleetStep`: acquiring and releasing are runs of `acquireLock` and `releaseLock` on the
    lock file, which nobody else touches;
  * `FleetHost.script`: the calls in their order.  `fleet_trace`: a run follows the
    script up to its first exception, and releases the lock at the end.
-/
import DatasourceKit.Interleave.History
import DatasourceKit.Fleet.SupervisorLock

namespace DatasourceKit

open Interleave Interleave.Prog

/-! ## The source functions -/

structure FleetPass (R A : Type) where
  admission : A
  results : List R

inductive FleetExc (ε : Type) where
  | valueError (msg : String)
  | lock (e : Exc)
  | consumer (e : ε)

/-- The calls of a host. -/
inductive FleetOp (U R A : Type) where
  | lockPayload
  | acquire (payload : Dict)
  | admitUnits (units : List U)
  | reconcile (unit : U)
  | onPass (completed : FleetPass R A)
  | stopCondition
  | sleep (interval : ℚ)
  | release

abbrev FleetOp.Val {U R A : Type} : FleetOp U R A → Type
  | lockPayload => Dict
  | admitUnits _ => A
  | reconcile _ => R
  | stopCondition | release => Bool
  | acquire _ | onPass _ | sleep _ => Unit

abbrev FleetProg (U R A ε : Type) := Prog (FleetOp.Val (U := U) (R := R) (A := A)) (FleetExc ε)

/-- A host: its units, and is there a `lock_payload` callback? -/
structure FleetHost (U : Type) where
  units : List U
  lockPayload : Bool := false

namespace FleetHost
variable {U R A ε : Type} (f : FleetHost U)

/-- `tuple(self._reconcile(unit) for unit in units)`. -/
def reconcileAll : List U → FleetProg U R A ε (List R)
  | [] => return []
  | unit :: units => do
    let result ← perform (FleetOp.reconcile unit)
    let results ← reconcileAll units
    return result :: results

def reconcilePass : FleetProg U R A ε (FleetPass R A) := do
  let admission ← perform (FleetOp.admitUnits f.units)
  let results ← reconcileAll f.units
  return ⟨admission, results⟩

/-- The payload that `_acquire` passes on; `None` is as good as an empty one. -/
def payload : FleetProg U R A ε Dict := if f.lockPayload then
    perform FleetOp.lockPayload else return ∅

/-- `_acquire`. -/
def acquire : FleetProg U R A ε Unit := do
  let payload ← f.payload
  perform (FleetOp.acquire payload)

/-- The `finally` block. -/
def release : FleetProg U R A ε Unit := do let _ ← perform FleetOp.release

def runOnce : FleetProg U R A ε (FleetPass R A) := do
  f.acquire
  f.reconcilePass.ensure release

/-- `on_pass(completed)`, if the callback is set. -/
def report (hasOnPass : Bool) (completed : FleetPass R A) : FleetProg U R A ε Unit :=
  if hasOnPass then perform (FleetOp.onPass completed) else return ()

/-- `stop_condition is not None and stop_condition()`. -/
def stops (hasStop : Bool) : FleetProg U R A ε Bool :=
  if hasStop then perform FleetOp.stopCondition else return false

/-- One round of the loop of `serve`. -/
def round (interval : ℚ) (hasOnPass hasStop : Bool) : FleetProg U R A ε (Unit ⊕ Unit) := do
  let completed ← f.reconcilePass
  report hasOnPass completed
  if ← stops hasStop then return .inr ()
  else
    perform (FleetOp.sleep interval)
    return .inl ()

/-- `serve`, up to `rounds` rounds of its loop; `none` if it is still serving then. -/
def serve (interval : ℚ) (hasOnPass hasStop : Bool) (rounds : ℕ) :
    FleetProg U R A ε (Option Unit) :=
  if interval ≤ 0 then raise (.valueError "interval must be positive")
  else do
    f.acquire
    match ← (iterate (fun _ => f.round interval hasOnPass hasStop) rounds ()).catching with
    | .ok none => return none
    | .ok (some _) => do
      release
      return some ()
    | .error e => do
      release
      raise e

end FleetHost

/-- A call of one of the two. -/
inductive FleetCommand where
  | runOnce
  | serve (interval : ℚ) (hasOnPass hasStop : Bool) (rounds : ℕ)

/-- The program of a command; `none`: it is still serving. -/
def FleetCommand.code {U R A ε : Type} (f : FleetHost U) :
    FleetCommand → FleetProg U R A ε (Option (Option (FleetPass R A)))
  | .runOnce => do return some (some (← f.runOnce))
  | .serve interval hasOnPass hasStop rounds => do
    return (← f.serve interval hasOnPass hasStop rounds).map fun _ => none

/-! ## The lock file -/

/-- A step of process `i` on the lock file, which nobody else touches. -/
def Solo (i : ℕ) (o : LockOp) (w : LockWorld) (r : Except Exc o.Val) (w' : LockWorld) : Prop :=
  ∃ ch, w.op i ch o = some (r, w')

/-- The same, without an I/O error. -/
def Sound (i : ℕ) (o : LockOp) (w : LockWorld) (r : Except Exc o.Val) (w' : LockWorld) : Prop :=
  ∃ ch : LockEnv, ch.fault = none ∧ w.op i ch o = some (r, w')

abbrev FleetHist (U R A ε : Type) := Hist (FleetOp.Val (U := U) (R := R) (A := A)) (FleetExc ε)

/-- The calls so far, and the lock file. -/
structure FleetState (U R A ε : Type) where
  trace : FleetHist U R A ε
  world : LockWorld

section
variable {U R A ε : Type}

/-- The effect of a call on the lock file.  A release does not raise. -/
def LockEffect (i : ℕ) :
    (o : FleetOp U R A) → LockWorld → Except (FleetExc ε) o.Val → LockWorld → Prop
  | .acquire payload, w, r, w' => ∃ fuel r',
    Steps (Solo i) (acquireLock payload fuel) w w' (Prog.ofExcept r') ∧
    r = (r'.map fun _ => ()).mapError .lock
  | .release, w, r, w' => ∃ b, r = .ok b ∧ Steps (Sound i) releaseLock w w' (.ret b)
  | _, w, _, w' => w' = w

/-- A call of the host, as process `i`. -/
def FleetStep (i : ℕ) (o : FleetOp U R A) (s : FleetState U R A ε) (r : Except (FleetExc ε) o.Val)
    (s' : FleetState U R A ε) : Prop :=
  s'.trace = ⟨o, r⟩ :: s.trace ∧ LockEffect i o s.world r s'.world

end

/-- Process `i` has the pid, and the lock file is its own. -/
structure OwnLock (i : ℕ) (pid : ℤ) (w : LockWorld) : Prop where
  live : w.procs.lookup i = some pid
  file : ∃ n d, w.file = some (n, .doc d) ∧ d.get "pid" = .int pid

section
variable {w w' : LockWorld} {i : ℕ} {pid : ℤ} {ch : LockEnv} {o : LockOp} {r : Except Exc o.Val}

theorem procs_of_op (h : w.op i ch o = some (r, w')) : w'.procs = w.procs := by
  cases hfault : ch.fault with
  | some f =>
    cases o with
    | dump fd body =>
      simp only [LockWorld.op, hfault, Option.some.injEq, Prod.mk.injEq] at h
      obtain ⟨-, rfl⟩ := h
      split_ifs <;> rfl
    | _ =>
      simp only [LockWorld.op, hfault, Option.some.injEq, Prod.mk.injEq] at h
      obtain ⟨-, rfl⟩ := h
      rfl
  | none =>
    cases o with
    | getpid =>
      simp only [LockWorld.op, hfault, Option.map_eq_some_iff, Prod.mk.injEq] at h
      obtain ⟨_, _, -, rfl⟩ := h
      rfl
    | create | read | probe | unlink =>
      simp only [LockWorld.op, hfault] at h
      split at h <;> simp only [Option.some.injEq, Prod.mk.injEq] at h <;>
        obtain ⟨-, rfl⟩ := h <;> rfl
    | _ =>
      simp only [LockWorld.op, hfault, Option.some.injEq, Prod.mk.injEq] at h
      obtain ⟨-, rfl⟩ := h
      rfl

/-- No program of the lock changes the pid of its process. -/
theorem always_live {α : Type} (p : LockProg α) (h : w.procs.lookup i = some pid) :
    p.Always (Solo i) (fun _ _ => True) (fun _ w => w.procs.lookup i = some pid)
      (fun _ w => w.procs.lookup i = some pid) w := by
  induction p generalizing w with
  | ret a => exact h
  | raise e => exact h
  | call o k ih =>
    refine ⟨trivial, fun r w' hs => ih r ?_⟩
    obtain ⟨ch, hop⟩ := hs
    rw [procs_of_op hop, h]

theorem always_acquireLoop_solo {body : Dict} (hb : body.get "pid" = .int pid) (fuel : ℕ)
    (h : w.procs.lookup i = some pid) :
    (acquireLoop body fuel).Always (Solo i) (fun _ _ => True) (fun _ => OwnLock i pid)
    (fun _ _ => True) w := by
  induction fuel generalizing w with
  | zero => trivial
  | succ fuel ih =>
    refine always_bind.2 (always_attempt.2 ⟨trivial, ?_⟩)
    rintro r w₁ ⟨ch, hop⟩
    have h₁ : w₁.procs.lookup i = some pid := by rw [procs_of_op hop, h]
    rcases r with e | fd
    · cases e with
      | fileExists =>
        -- somebody's lock file: it is removed, or the call raises
        refine always_bind.2 (Always.mono (fun _ _ h => h) (fun owner w₂ h₂ => ?_)
          (fun _ _ _ => trivial) (always_live (readJson (attempt LockOp.read)) h₁))
        refine always_bind.2 (Always.mono (fun _ _ h => h) (fun live w₃ h₃ => ?_)
          (fun _ _ _ => trivial) (always_live (lockIsLive owner) h₂))
        cases live with
        | true => trivial
        | false =>
          refine always_bind.2 (always_attempt.2 ⟨trivial, ?_⟩)
          rintro r w₄ ⟨ch', hop'⟩
          have h₄ : w₄.procs.lookup i = some pid := by rw [procs_of_op hop', h₃]
          rcases r with e | u
          · cases e with
            | notFound => exact ih h₄
            | _ => trivial
          · exact ih h₄
      | _ => trivial
    · refine always_bind.2 ((always_perform (o := LockOp.dump fd body)).2
        ⟨trivial, ?_, fun _ _ _ => trivial⟩)
      rintro u w₂ ⟨ch', hop'⟩
      refine ⟨by rw [procs_of_op hop', h₁], fd, body, ?_, hb⟩
      have hfile : w₁.file = some (fd, .malformed) := by
        cases hfault : ch.fault with
        | some f => simp [LockWorld.op, hfault] at hop
        | none =>
          simp only [LockWorld.op, hfault] at hop
          split at hop <;> simp only [Option.some.injEq, Prod.mk.injEq] at hop <;>
            obtain ⟨hr, rfl⟩ := hop
          · cases hr
          · cases hr
            rfl
      cases hfault : ch'.fault with
      | some f => simp [LockWorld.op, hfault] at hop'
      | none =>
        simp only [LockWorld.op, hfault, Option.some.injEq, Prod.mk.injEq] at hop'
        obtain ⟨-, rfl⟩ := hop'
        simp [LockWorld.fill, LockWorld.setStage, hfile]

theorem always_acquireLock_solo (payload : Dict) (fuel : ℕ) (h : w.procs.lookup i = some pid) :
    (acquireLock payload fuel).Always (Solo i) (fun _ _ => True) (fun _ => OwnLock i pid)
    (fun _ _ => True) w := by
  refine always_bind.2 (Always.mono (fun _ _ h => h) (fun _ w₁ h₁ => ?_) (fun _ _ _ => trivial)
    (always_live (perform LockOp.mkdir) h))
  refine always_bind.2 (Always.mono (fun _ _ h => h) (fun now w₂ h₂ => ?_) (fun _ _ _ => trivial)
    (always_live (perform LockOp.time) h₁))
  refine always_bind.2 (always_perform.2 ⟨trivial, ?_, fun _ _ _ => trivial⟩)
  rintro own w₃ ⟨ch, hop⟩
  have h₃ : w₃.procs.lookup i = some pid := by rw [procs_of_op hop, h₂]
  have hown : own = pid := by
    cases hfault : ch.fault with
    | some f => simp [LockWorld.op, hfault] at hop
    | none =>
      simp only [LockWorld.op, hfault, h₂, Option.map_some, Option.some.injEq, Prod.mk.injEq,
        Except.ok.injEq] at hop
      exact hop.1.symm
  refine always_bind.2 (Always.mono (fun _ _ h => h) (fun host w₄ h₄ => ?_) (fun _ _ _ => trivial)
    (always_live (perform LockOp.gethostname) h₃))
  exact always_acquireLoop_solo
    (by rw [Dict.get_set_ne _ _ (by decide), Dict.get_set_self, hown]) fuel h₄

/-- Releasing one's own lock file removes it. -/
theorem always_releaseLock_sound (h : OwnLock i pid w) :
    releaseLock.Always (Sound i) (fun _ _ => True) (fun b w' => b = true ∧ w'.file = none)
      (fun _ _ => True) w := by
  obtain ⟨n, d, hfile, hd⟩ := h.file
  refine always_bind.2 (always_bind.2 ((always_attempt (o := LockOp.read)).2 ⟨trivial, ?_⟩))
  rintro r w₁ ⟨ch, hfault, hop⟩
  simp only [LockWorld.op, hfault, hfile, Option.some.injEq, Prod.mk.injEq] at hop
  obtain ⟨rfl, rfl⟩ := hop
  refine always_bind.2 (always_perform.2 ⟨trivial, ?_, fun _ _ _ => trivial⟩)
  rintro own w₂ ⟨ch', hfault', hop'⟩
  have hlive : (w.setSeen i (some (n, .doc d))).procs.lookup i = some pid := h.live
  simp only [LockWorld.op, hfault', hlive, Option.map_some, Option.some.injEq, Prod.mk.injEq,
    Except.ok.injEq] at hop'
  obtain ⟨rfl, rfl⟩ := hop'
  have heq : (d.get "pid").eqInt pid = true := by simp [hd, Json.eqInt]
  simp only [heq, Bool.not_true, Bool.false_eq_true, if_false]
  refine always_bind.2 (always_attempt.2 ⟨trivial, ?_⟩)
  rintro r w₃ ⟨ch'', hfault'', hop''⟩
  have hfile' : (w.setSeen i (some (n, .doc d))).file = some (n, .doc d) := hfile
  simp only [LockWorld.op, hfault'', hfile', Option.some.injEq, Prod.mk.injEq] at hop''
  obtain ⟨rfl, rfl⟩ := hop''
  exact ⟨rfl, rfl⟩

end

/-! ## The order of the calls -/

/-- The calls but the release. -/
inductive FleetCall (U : Type) where
  | lockPayload | acquire
  | admitUnits (units : List U)
  | reconcile (unit : U)
  | onPass | stopCondition
  | sleep (interval : ℚ)

section
variable {U R A ε : Type} (f : FleetHost U) (cmd : FleetCommand)

def FleetOp.call : FleetOp U R A → Option (FleetCall U)
  | lockPayload => some .lockPayload
  | acquire _ => some .acquire
  | admitUnits units => some (.admitUnits units)
  | reconcile unit => some (.reconcile unit)
  | onPass _ => some .onPass
  | stopCondition => some .stopCondition
  | sleep interval => some (.sleep interval)
  | release => none

/-- The calls of a history, the first one first. -/
def fleetCalls (t : FleetHist U R A ε) : List (FleetCall U) :=
  (t.filterMap fun e => e.1.call).reverse

/-- What follows the reconciliations of a pass. -/
def FleetCommand.afterPass : FleetCommand → List (FleetCall U)
  | .runOnce => []
  | .serve interval hasOnPass hasStop _ =>
    (if hasOnPass then [.onPass] else []) ++
      (if hasStop then [.stopCondition] else []) ++ [.sleep interval]

/-- The calls of a pass. -/
def FleetHost.passScript : List (FleetCall U) :=
  .admitUnits f.units :: f.units.map .reconcile ++ cmd.afterPass

/-- The calls before the first pass. -/
def FleetHost.prelude : List (FleetCall U) :=
  (if f.lockPayload then [.lockPayload] else []) ++ [.acquire]

/-- The calls of `n` passes. -/
def FleetHost.script (n : ℕ) : List (FleetCall U) :=
  f.prelude ++ (List.replicate n (f.passScript cmd)).flatten

/-- The lock has been acquired. -/
def Acquired (t : FleetHist U R A ε) : Prop := ∃ payload, ⟨.acquire payload, .ok ()⟩ ∈ t

/-- The call has raised. -/
def FleetRaises (e : Event (FleetOp.Val (U := U) (R := R) (A := A)) (FleetExc ε)) : Prop :=
  ∃ exc, e.2 = .error exc

/-- The history follows the script: nothing is called after an exception but the release,
    and nothing after the release. -/
structure FleetTrace (t : FleetHist U R A ε) : Prop where
  order : ∃ n, (cmd = .runOnce → n ≤ 1) ∧ fleetCalls t <+: f.script cmd n
  raised : ∀ t₁ e t₂, t = t₁ ++ e :: t₂ → FleetRaises e → t₁ = [] ∨ ∃ r, t₁ = [⟨.release, r⟩]
  released : ∀ t₁ r t₂, t = t₁ ++ ⟨.release, r⟩ :: t₂ → t₁ = [] ∧ Acquired t₂

/-- The calls before the lock is acquired. -/
def FleetOp.isEntry : FleetOp U R A → Bool
  | lockPayload | acquire _ => true
  | _ => false

/-- The command refuses to begin. -/
def FleetCommand.Rejected : FleetCommand → Prop
  | .serve interval _ _ _ => interval ≤ 0
  | .runOnce => False

/-- How a command returns: `run_once` has made its pass, and `serve` has been told to stop. -/
def Concluded (f : FleetHost U) : FleetCommand → FleetHist U R A ε → Prop
  | .runOnce, t => fleetCalls t = f.script .runOnce 1
  | .serve _ _ _ _, t => ∃ t', t = ⟨.stopCondition, .ok true⟩ :: t'

/-- What holds when a command has ended: the lock is released if it was acquired, no unit has
    been touched if it was not, and an exception is that of the last call before the release;
    no exception is lost. -/
structure FleetDone (r : Except (FleetExc ε) (Option (Option (FleetPass R A))))
    (s : FleetState U R A ε) : Prop where
  released : Acquired s.trace → s.world.file = none ∧ ∃ t, s.trace = ⟨.release, .ok true⟩ :: t
  refused : ¬ Acquired s.trace → ∀ e ∈ s.trace, e.1.isEntry = true
  unchanged : ∀ e, r = .error e → cmd.Rejected ∧ e = .valueError "interval must be positive" ∨
    ∃ o t, s.trace = ⟨o, .error e⟩ :: t ∨ s.trace = ⟨.release, .ok true⟩ :: ⟨o, .error e⟩ :: t
  raised : ∀ o e, ⟨o, .error e⟩ ∈ s.trace → r = .error e
  returned : ∀ v, r = .ok v → ∃ t, s.trace = ⟨.release, .ok true⟩ :: t ∧ Concluded f cmd t

/-! ## Following the script -/

/-- Before the release. -/
structure Following (t : FleetHist U R A ε) : Prop where
  order : ∃ n, (cmd = .runOnce → n ≤ 1) ∧ fleetCalls t <+: f.script cmd n
  unreleased : ∀ e ∈ t, e.1.call ≠ none
  answered : ∀ e ∈ t.tail, ¬ FleetRaises e

/-- When the host makes a call. -/
def FleetGuard (o : FleetOp U R A) (s : FleetState U R A ε) : Prop :=
  ((∀ e ∈ s.trace, ¬ FleetRaises e) ∧ ∀ r, Following f cmd (⟨o, r⟩ :: s.trace)) ∨
    o = .release ∧ Following f cmd s.trace ∧ Acquired s.trace

/-- The calls are `cs`, all answered, and the lock is held. -/
structure InRun (i : ℕ) (pid : ℤ) (cs : List (FleetCall U)) (s : FleetState U R A ε) : Prop where
  calls : fleetCalls s.trace = cs
  unreleased : ∀ e ∈ s.trace, e.1.call ≠ none
  answered : ∀ e ∈ s.trace, ¬ FleetRaises e
  acquired : Acquired s.trace
  own : OwnLock i pid s.world

/-- `serve` is still serving: all its rounds are whole passes without an exception, and the lock
    is held. -/
def StillServing (i : ℕ) (pid : ℤ) (s : FleetState U R A ε) : Prop :=
  ∃ interval hasOnPass hasStop rounds, cmd = .serve interval hasOnPass hasStop rounds ∧
    InRun i pid (f.script cmd rounds) s

/-- The last call has raised, and the lock is held. -/
structure Aborted (i : ℕ) (pid : ℤ) (e : FleetExc ε) (s : FleetState U R A ε) : Prop where
  following : Following f cmd s.trace
  acquired : Acquired s.trace
  own : OwnLock i pid s.world
  last : ∃ o t, s.trace = ⟨o, .error e⟩ :: t

/-- The last call has told `serve` to stop, and the lock is held. -/
structure Halted (i : ℕ) (pid : ℤ) (s : FleetState U R A ε) : Prop where
  following : Following f cmd s.trace
  answered : ∀ e ∈ s.trace, ¬ FleetRaises e
  acquired : Acquired s.trace
  own : OwnLock i pid s.world
  last : ∃ t, s.trace = ⟨.stopCondition, .ok true⟩ :: t

variable {f cmd} {t : FleetHist U R A ε} {s s' : FleetState U R A ε} {i : ℕ} {pid : ℤ} {k : ℕ}
  {pre post cs : List (FleetCall U)} {c : FleetCall U}

theorem Acquired.cons {e : Event (FleetOp.Val (U := U) (R := R) (A := A)) (FleetExc ε)}
    (h : Acquired t) :
    Acquired (e :: t) :=
  h.imp fun _ hmem => List.mem_cons_of_mem e hmem

theorem Following.trace (h : Following f cmd t) : FleetTrace f cmd t := by
  refine ⟨h.order, fun t₁ e t₂ ht he => ?_, fun t₁ r t₂ ht => ?_⟩
  · cases t₁ with
    | nil => exact .inl rfl
    | cons x t₁ =>
      subst ht
      exact absurd he (h.answered e (by simp))
  · subst ht
    exact absurd rfl (h.unreleased ⟨.release, r⟩ (by simp))

theorem Following.release (h : Following f cmd t) (ha : Acquired t) (r : Except (FleetExc ε) Bool) :
    FleetTrace f cmd (⟨.release, r⟩ :: t) := by
  refine ⟨h.order, fun t₁ e t₂ ht he => ?_, fun t₁ r' t₂ ht => ?_⟩
  · cases t₁ with
    | nil => exact .inl rfl
    | cons x t₁ =>
      cases ht
      rcases h.trace.raised t₁ e t₂ rfl he with rfl | ⟨r', rfl⟩
      · exact .inr ⟨r, rfl⟩
      · exact absurd rfl (h.unreleased ⟨.release, r'⟩ (by simp))
  · cases t₁ with
    | nil =>
      cases ht
      exact ⟨rfl, ha⟩
    | cons x t₁ =>
      cases ht
      exact absurd rfl (h.unreleased ⟨.release, r'⟩ (by simp))

/-- The last call is the only one that has raised. -/
theorem Following.raises {o o' : FleetOp U R A} {e e' : FleetExc ε} {t' : FleetHist U R A ε}
    (h : Following f cmd t) (ht : t = ⟨o, .error e⟩ :: t')
    (hmem : ⟨o', .error e'⟩ ∈ t) : e' = e := by
  subst ht
  rcases List.mem_cons.1 hmem with heq | hmem
  · cases heq
    rfl
  · exact absurd ⟨e', rfl⟩ (h.answered _ hmem)

theorem fleetCalls_cons {o : FleetOp U R A} {r : Except (FleetExc ε) o.Val} (hc : o.call = some c) :
    fleetCalls (⟨o, r⟩ :: t) = fleetCalls t ++ [c] := by
  simp [fleetCalls, hc]

/-- A call that is next in the script. -/
theorem following_cons {o : FleetOp U R A} (hc : o.call = some c)
    (hn : ∃ n, (cmd = .runOnce → n ≤ 1) ∧ fleetCalls t ++ [c] <+: f.script cmd n)
    (hun : ∀ e ∈ t, e.1.call ≠ none) (hans : ∀ e ∈ t, ¬ FleetRaises e)
    (r : Except (FleetExc ε) o.Val) :
    Following f cmd (⟨o, r⟩ :: t) := by
  refine ⟨by rwa [fleetCalls_cons hc], fun e he => ?_, hans⟩
  rcases List.mem_cons.1 he with rfl | he
  · rw [hc]
    simp
  · exact hun e he

theorem script_succ (n : ℕ) : f.script cmd (n + 1) = f.script cmd n ++ f.passScript cmd := by
  simp [FleetHost.script, List.replicate_succ']

/-- A callback that is next in the pass. -/
theorem always_callback {o : FleetOp U R A} (hc : o.call = some c)
    (ho : ∀ payload, o ≠ .acquire payload) (hk : cmd = .runOnce → k = 0)
    (h : InRun i pid (f.script cmd k ++ pre) s) (hsplit : f.passScript cmd = pre ++ c :: post)
    {Q : o.Val → FleetState U R A ε → Prop}
    (hQ : ∀ v s', s'.trace = ⟨o, .ok v⟩ :: s.trace →
      InRun i pid (f.script cmd k ++ (pre ++ [c])) s' → Q v s') :
    (perform o).Always (FleetStep i) (FleetGuard f cmd) Q (Aborted f cmd i pid) s := by
  have hnext : ∃ n, (cmd = .runOnce → n ≤ 1) ∧ fleetCalls s.trace ++ [c] <+: f.script cmd n := by
    refine ⟨k + 1, fun h => by rw [hk h], post, ?_⟩
    rw [h.calls, script_succ, hsplit]
    simp
  have hfollow := following_cons hc hnext h.unreleased h.answered
  have hworld : ∀ r s', FleetStep i o s r s' → s'.world = s.world := by
    rintro r s' ⟨-, heff⟩
    cases o <;> first | exact heff | exact absurd rfl (ho _) | cases hc
  refine always_perform.2 ⟨.inl ⟨h.answered, hfollow⟩, fun v s' hs =>
    hQ v s' hs.1 ?_, fun e s' hs => ?_⟩
  · have hf := hfollow (.ok v)
    rw [← hs.1] at hf
    refine ⟨?_, hf.unreleased, ?_, hs.1 ▸ h.acquired.cons, hworld _ _ hs ▸ h.own⟩
    · rw [hs.1, fleetCalls_cons hc, h.calls, List.append_assoc]
    · rw [hs.1]
      rintro e (_ | ⟨_, he⟩)
      · rintro ⟨exc, hexc⟩
        cases hexc
      · exact h.answered e he
  · have hf := hfollow (.error e)
    rw [← hs.1] at hf
    exact ⟨hf, hs.1 ▸ h.acquired.cons, hworld _ _ hs ▸ h.own, o, s.trace, hs.1⟩

theorem always_reconcileAll (hk : cmd = .runOnce → k = 0) (units : List U)
    (h : InRun i pid (f.script cmd k ++ pre) s)
    (hsplit : f.passScript cmd = pre ++ units.map .reconcile ++ post) :
    (FleetHost.reconcileAll units).Always (FleetStep i) (FleetGuard f cmd)
      (fun (_ : List R) => InRun i pid (f.script cmd k ++ (pre ++ units.map .reconcile)))
      (Aborted (R := R) (A := A) f cmd i pid) s := by
  induction units generalizing s pre with
  | nil => simpa [FleetHost.reconcileAll] using h
  | cons unit units ih =>
    have hnext : f.passScript cmd = pre ++ .reconcile unit :: (units.map .reconcile ++ post) := by
      simpa using hsplit
    refine always_bind.2 (always_callback rfl (by simp) hk h hnext fun result s' _ h' => ?_)
    refine always_bind.2 (Always.mono (fun _ _ h => h) (fun results s'' h'' => ?_) (fun _ _ h => h)
      (ih h' (by simpa using hsplit)))
    simpa using h''

theorem always_reconcilePass (hk : cmd = .runOnce → k = 0) (h : InRun i pid (f.script cmd k) s) :
    (f.reconcilePass).Always (FleetStep i) (FleetGuard f cmd)
      (fun (_ : FleetPass R A) =>
        InRun i pid (f.script cmd k ++ (.admitUnits f.units :: f.units.map .reconcile)))
      (Aborted f cmd i pid) s := by
  have hadmit : f.passScript cmd = [] ++ .admitUnits f.units ::
      (f.units.map .reconcile ++ cmd.afterPass) := rfl
  have hrest : f.passScript cmd = [] ++ [.admitUnits f.units] ++
      f.units.map .reconcile ++ cmd.afterPass := rfl
  refine always_bind.2 (always_callback rfl (by simp) hk (by simpa using h) hadmit
    fun admission s' _ h' => ?_)
  refine always_bind.2 (Always.mono (fun _ _ h => h) (fun results s'' h'' => h'') (fun _ _ h => h)
    (always_reconcileAll hk f.units h' hrest))

theorem always_report (hk : cmd = .runOnce → k = 0) {hasOnPass : Bool} {completed : FleetPass R A}
    (h : InRun i pid (f.script cmd k ++ pre) s)
    (hsplit : f.passScript cmd = pre ++ (if hasOnPass then [.onPass] else []) ++ post) :
    (FleetHost.report hasOnPass completed).Always (FleetStep i) (FleetGuard f cmd)
      (fun _ => InRun i pid (f.script cmd k ++ (pre ++ if hasOnPass then [.onPass] else [])))
      (Aborted (ε := ε) f cmd i pid) s := by
  unfold FleetHost.report
  split_ifs with hon
  · refine always_callback (c := .onPass) rfl (by simp) hk h (by simpa [hon] using hsplit)
      fun _ s' _ h' => ?_
    simpa [hon] using h'
  · simpa [hon] using h

theorem always_stops (hk : cmd = .runOnce → k = 0) {hasStop : Bool}
    (h : InRun i pid (f.script cmd k ++ pre) s)
    (hsplit : f.passScript cmd = pre ++ (if hasStop then [.stopCondition] else []) ++ post) :
    (FleetHost.stops hasStop).Always (FleetStep i) (FleetGuard f cmd)
      (fun stop s => InRun i pid
        (f.script cmd k ++ (pre ++ if hasStop then [.stopCondition] else [])) s ∧
        (stop = true → ∃ t, s.trace = ⟨.stopCondition, .ok true⟩ :: t))
      (Aborted (R := R) (A := A) (ε := ε) f cmd i pid) s := by
  unfold FleetHost.stops
  split_ifs with hst
  · refine always_callback (c := .stopCondition) rfl (by simp) hk h (by simpa [hst] using hsplit)
      fun stop s' htrace h' => ⟨by simpa [hst] using h', ?_⟩
    rintro rfl
    exact ⟨_, htrace⟩
  · exact ⟨by simpa [hst] using h, fun hstop => by cases hstop⟩

/-- The lock is held and the script followed, as far as `k` passes and a part of the next. -/
theorem InRun.following (h : InRun i pid (f.script cmd k ++ pre) s) (hk : cmd = .runOnce → k = 0)
    (hsplit : f.passScript cmd = pre ++ post) : Following f cmd s.trace := by
  refine ⟨⟨k + 1, fun h => by rw [hk h], post, ?_⟩, h.unreleased, fun e he =>
    h.answered e (List.mem_of_mem_tail he)⟩
  rw [h.calls, script_succ, hsplit, List.append_assoc]

/-- Where the lock is held, it is released. -/
theorem always_release (hf : Following f cmd s.trace) (ha : Acquired s.trace)
    (hown : OwnLock i pid s.world) {Q : Unit → FleetState U R A ε → Prop}
    {E : FleetExc ε → FleetState U R A ε → Prop}
    (hQ : ∀ s', FleetTrace f cmd s'.trace → s'.world.file = none →
      s'.trace = ⟨.release, .ok true⟩ :: s.trace → Q () s') :
    FleetHost.release.Always (FleetStep i) (FleetGuard f cmd) Q E s := by
  refine always_bind.2 (always_perform.2 ⟨.inr ⟨rfl, hf, ha⟩, ?_, ?_⟩)
  · rintro b s' ⟨htrace, b', hb, hsteps⟩
    cases hb
    obtain ⟨rfl, hfile⟩ := (always_releaseLock_sound hown).steps hsteps
    exact hQ s' (htrace ▸ hf.release ha _) hfile htrace
  · rintro e s' ⟨htrace, b', hb, hsteps⟩
    cases hb

/-- The command has not got the lock. -/
structure Refused (f : FleetHost U) (cmd : FleetCommand) (e : FleetExc ε)
    (s : FleetState U R A ε) : Prop where
  following : Following f cmd s.trace
  acquired : ¬ Acquired s.trace
  entry : ∀ e ∈ s.trace, e.1.isEntry = true
  last : ∃ o t, s.trace = ⟨o, .error e⟩ :: t

/-- Before the lock is acquired; the payload has been asked for. -/
structure Entered (f : FleetHost U) (i : ℕ) (pid : ℤ) (s : FleetState U R A ε) : Prop where
  calls : fleetCalls s.trace = if f.lockPayload then [.lockPayload] else []
  payload : ∀ e ∈ s.trace, e.1 = .lockPayload
  answered : ∀ e ∈ s.trace, ¬ FleetRaises e
  live : s.world.procs.lookup i = some pid

theorem not_acquired_of_payload (h : ∀ e ∈ t, e.1 = .lockPayload) : ¬ Acquired t := by
  rintro ⟨payload, hmem⟩
  cases h _ hmem

theorem always_payload {w : LockWorld} (hpid : w.procs.lookup i = some pid) :
    f.payload.Always (FleetStep i) (FleetGuard f cmd) (fun _ => Entered f i pid)
      (Refused (R := R) (A := A) (ε := ε) f cmd) ⟨[], w⟩ := by
  unfold FleetHost.payload
  split_ifs with hpay
  · have hnext : ∃ n, (cmd = .runOnce → n ≤ 1) ∧
        fleetCalls ([] : FleetHist U R A ε) ++ [.lockPayload] <+: f.script cmd n :=
      ⟨0, fun _ => Nat.zero_le _, by simp [fleetCalls, FleetHost.script, FleetHost.prelude, hpay]⟩
    have hfollow := following_cons (t := ([] : FleetHist U R A ε)) (o := .lockPayload) rfl
      hnext (by simp) (by simp)
    refine always_perform.2 ⟨.inl ⟨by simp, hfollow⟩, ?_, ?_⟩
    · rintro d s' ⟨htrace, hworld⟩
      refine ⟨?_, ?_, ?_, ?_⟩
      · simp [htrace, hpay, fleetCalls, FleetOp.call]
      · simp [htrace]
      · simp [htrace, FleetRaises]
      · rw [hworld]
        exact hpid
    · rintro e s' ⟨htrace, hworld⟩
      refine ⟨htrace ▸ hfollow _, ?_, ?_, ⟨_, _, htrace⟩⟩
      · exact not_acquired_of_payload (by simp [htrace])
      · simp [htrace, FleetOp.isEntry]
  · exact ⟨by simp [fleetCalls, hpay], by simp, by simp, hpid⟩

theorem always_acquire_host {w : LockWorld} (hpid : w.procs.lookup i = some pid) :
    f.acquire.Always (FleetStep i) (FleetGuard f cmd) (fun _ => InRun i pid (f.script cmd 0))
      (Refused (R := R) (A := A) (ε := ε) f cmd) ⟨[], w⟩ := by
  refine always_bind.2 (Always.mono (fun _ _ h => h) ?_ (fun _ _ h => h) (always_payload hpid))
  intro payload s h
  have hnext : ∃ n, (cmd = .runOnce → n ≤ 1) ∧
      fleetCalls s.trace ++ [.acquire] <+: f.script cmd n :=
    ⟨0, fun _ => Nat.zero_le _, by simp [h.calls, FleetHost.script, FleetHost.prelude]⟩
  have hun : ∀ e ∈ s.trace, e.1.call ≠ none := fun e he => by
    rw [h.payload e he]
    simp [FleetOp.call]
  have hfollow := following_cons (o := .acquire payload) rfl hnext hun h.answered
  refine always_perform.2 ⟨.inl ⟨h.answered, hfollow⟩, ?_, ?_⟩
  · rintro v s' ⟨htrace, fuel, r', hsteps, hr⟩
    have hf := hfollow (.ok v)
    cases r' with
    | error e => cases hr
    | ok body =>
      have hown := (always_acquireLock_solo payload fuel h.live).steps hsteps
      refine ⟨?_, htrace ▸ hf.unreleased, ?_, ⟨payload, by simp [htrace]⟩, hown⟩
      · rw [htrace, fleetCalls_cons rfl, h.calls]
        simp [FleetHost.script, FleetHost.prelude]
      · rw [htrace]
        rintro e (_ | ⟨_, he⟩)
        · rintro ⟨exc, hexc⟩
          cases hexc
        · exact h.answered e he
  · rintro e s' ⟨htrace, -⟩
    refine ⟨htrace ▸ hfollow _, ?_, ?_, ⟨_, _, htrace⟩⟩
    · rintro ⟨payload', hmem⟩
      rw [htrace] at hmem
      rcases List.mem_cons.1 hmem with hmem | hmem
      · cases hmem
      · cases h.payload _ hmem
    · rw [htrace]
      rintro e (_ | ⟨_, he⟩)
      · rfl
      · rw [h.payload e he]
        rfl

/-- One round of `serve`: a whole pass, or one that ends at the stop check. -/
theorem always_fleetRound {interval : ℚ} {hasOnPass hasStop : Bool} {rounds : ℕ}
    (h : InRun i pid (f.script (.serve interval hasOnPass hasStop rounds) k) s) :
    (f.round interval hasOnPass hasStop).Always (FleetStep i)
      (FleetGuard f (.serve interval hasOnPass hasStop rounds))
      (fun x s => match x with
        | .inl _ => InRun i pid (f.script (.serve interval hasOnPass hasStop rounds) (k + 1)) s
        | .inr _ => Halted f (.serve interval hasOnPass hasStop rounds) i pid s)
      (Aborted (R := R) (A := A) (ε := ε) f (.serve interval hasOnPass hasStop rounds) i pid)
          s := by
  have hk : FleetCommand.serve interval hasOnPass hasStop rounds = .runOnce →
      k = 0 := fun h => by cases h
  -- the pass, cut after the reconciliations, the report, the stop check and the sleep
  have hpass : f.passScript (.serve interval hasOnPass hasStop rounds) =
      .admitUnits f.units :: f.units.map .reconcile ++ (if hasOnPass then [.onPass] else []) ++
        ((if hasStop then [.stopCondition] else []) ++ [.sleep interval]) := by
    simp [FleetHost.passScript, FleetCommand.afterPass]
  have hstops := hpass.trans (List.append_assoc _ _ [FleetCall.sleep interval]).symm
  refine always_bind.2 (Always.mono (fun _ _ h => h) (fun completed s₁ h₁ => ?_) (fun _ _ h => h)
    (always_reconcilePass hk h))
  refine always_bind.2 (Always.mono (fun _ _ h => h) (fun _ s₂ h₂ => ?_) (fun _ _ h => h)
    (always_report hk h₁ hpass))
  refine always_bind.2 (Always.mono (fun _ _ h => h) ?_ (fun _ _ h => h)
    (always_stops hk h₂ hstops))
  rintro stop s₃ ⟨h₃, hlast⟩
  split_ifs with hstop
  · exact ⟨h₃.following hk hstops, h₃.answered, h₃.acquired, h₃.own, hlast hstop⟩
  · refine always_bind.2 (always_callback rfl (by simp) hk h₃ hstops fun _ s₄ _ h₄ => ?_)
    show InRun i pid (f.script _ (k + 1)) s₄
    rw [script_succ, hstops]
    exact h₄

/-- The release at the end of a command. -/
theorem always_fleetFinally {r : Except (FleetExc ε) (Option (Option (FleetPass R A)))}
    {E : FleetExc ε → FleetState U R A ε → Prop} (hf : Following f cmd s.trace)
    (ha : Acquired s.trace) (hown : OwnLock i pid s.world)
    (hr : ∀ e, r = .error e → ∃ o t, s.trace = ⟨o, .error e⟩ :: t)
    (hok : ∀ v, r = .ok v → (∀ e ∈ s.trace, ¬ FleetRaises e) ∧ Concluded f cmd s.trace) :
    FleetHost.release.Always (FleetStep i) (FleetGuard f cmd)
      (fun _ s => FleetTrace f cmd s.trace ∧ FleetDone f cmd r s) E s := by
  refine always_release hf ha hown fun s' htrace hfile hs' =>
    ⟨htrace, fun _ => ⟨hfile, _, hs'⟩, fun hn => ?_,
    fun e he => ?_, fun o e hmem => ?_, fun v hv => ⟨_, hs', (hok v hv).2⟩⟩
  · exact absurd (hs' ▸ ha.cons) hn
  · obtain ⟨o, t, ht⟩ := hr e he
    exact .inr ⟨o, t, .inr (ht ▸ hs')⟩
  · rw [hs'] at hmem
    rcases List.mem_cons.1 hmem with heq | hmem
    · cases heq
    · cases r with
      | ok v => exact absurd ⟨e, rfl⟩ ((hok v rfl).1 _ hmem)
      | error e' =>
        obtain ⟨o', t, ht⟩ := hr e' rfl
        rw [hf.raises ht hmem]

theorem Aborted.finally {e : FleetExc ε} (h : Aborted f cmd i pid e s)
    {E : FleetExc ε → FleetState U R A ε → Prop} :
    FleetHost.release.Always (FleetStep i) (FleetGuard f cmd)
      (fun _ s => FleetTrace f cmd s.trace ∧ FleetDone f cmd (.error e) s) E s :=
  always_fleetFinally h.following h.acquired h.own (fun e' he => by cases he; exact h.last)
    (fun v hv => by cases hv)

theorem Refused.done {e : FleetExc ε} (h : Refused f cmd e s) :
    FleetTrace f cmd s.trace ∧ FleetDone f cmd (.error e) s := by
  obtain ⟨o, t, ht⟩ := h.last
  refine ⟨h.following.trace, fun ha => absurd ha h.acquired, fun _ => h.entry, fun e' he => ?_,
    fun o' e' hmem => by rw [h.following.raises ht hmem], fun v hv => by cases hv⟩
  cases he
  exact .inr ⟨o, t, .inl ht⟩

theorem rejected_done {interval : ℚ} {hasOnPass hasStop : Bool} {rounds : ℕ} (hpos : interval ≤ 0)
    (w : LockWorld) :
    FleetTrace f (.serve interval hasOnPass hasStop rounds) ([] : FleetHist U R A ε) ∧
      FleetDone f (.serve interval hasOnPass hasStop rounds)
        (.error (.valueError "interval must be positive")) (⟨[], w⟩ : FleetState U R A ε) := by
  refine ⟨⟨⟨0, fun _ => Nat.zero_le _, List.nil_prefix⟩, fun t₁ e t₂ ht => ?_,
    fun t₁ r t₂ ht => ?_⟩,
    fun ⟨_, hmem⟩ => ?_, fun _ e he => ?_, fun e he => .inl ⟨hpos, by cases he; rfl⟩,
    fun _ _ hmem => ?_, fun v hv => ?_⟩
  · simp at ht
  · simp at ht
  · cases hmem
  · cases he
  · cases hmem
  · cases hv

/-- What holds when the program of a command ends. -/
theorem always_command {w : LockWorld} (hpid : w.procs.lookup i = some pid) :
    (cmd.code f).Always (FleetStep i) (FleetGuard f cmd)
      (fun r s => FleetTrace f cmd s.trace ∧ (r ≠ none → FleetDone f cmd (.ok r) s) ∧
        (r = none → StillServing f cmd i pid s))
      (fun e s => FleetTrace f cmd s.trace ∧
        FleetDone (R := R) (A := A) (ε := ε) f cmd (.error e) s)
      ⟨[], w⟩ := by
  cases cmd with
  | runOnce =>
    refine always_bind.2 (always_bind.2
      (Always.mono (fun _ _ h => h) (fun _ s h => ?_) (fun _ _ h => h.done)
      (always_acquire_host hpid)))
    refine always_ensure.2 (Always.mono (fun _ _ h => h) (fun completed s h => ?_)
      (fun e s h => h.finally) (always_reconcilePass (fun _ => rfl) h))
    have hf : Following f .runOnce s.trace := h.following (fun _ => rfl) rfl
    have hpass : Concluded f .runOnce s.trace := by
      show fleetCalls s.trace = f.script .runOnce (0 + 1)
      rw [h.calls, script_succ, FleetHost.passScript, FleetCommand.afterPass, List.append_nil]
    refine Always.mono (fun _ _ h => h) (fun _ s h => ⟨h.1, fun _ => h.2, fun h => by cases h⟩)
      (fun _ _ h => h) (always_fleetFinally (r := .ok (some (some completed))) hf h.acquired h.own
        (fun e he => by cases he) fun _ _ => ⟨h.answered, hpass⟩)
  | serve interval hasOnPass hasStop rounds =>
    refine always_bind.2 ?_
    unfold FleetHost.serve
    split_ifs with hpos
    · exact rejected_done hpos w
    refine always_bind.2 (Always.mono (fun _ _ h => h) (fun _ s h => ?_) (fun _ _ h => h.done)
      (always_acquire_host hpid))
    -- the loop has made as many passes as it has had rounds
    have hloop : (iterate (fun _ => f.round interval hasOnPass hasStop) rounds ()).Always
        (FleetStep i) (FleetGuard f (.serve interval hasOnPass hasStop rounds))
        (fun x s => match x with
          | none => InRun i pid (f.script (.serve interval hasOnPass hasStop rounds) rounds) s
          | some _ => Halted f (.serve interval hasOnPass hasStop rounds) i pid s)
        (Aborted (R := R) (A := A) (ε := ε) f (.serve interval hasOnPass hasStop rounds) i pid) s :=
      always_iterate_counted (k := 0)
        (I := fun k _ s => InRun i pid (f.script (.serve interval hasOnPass hasStop rounds) k) s)
        (fun k _ s hk => (always_fleetRound hk).mono (fun _ _ h => h)
          (fun x s hx => by cases x <;> exact hx) (fun _ _ h => h))
        (fun _ s hn => Nat.zero_add rounds ▸ hn) h
    refine always_bind.2 (always_catching.2
      (Always.mono (fun _ _ h => h) (fun x s hx => ?_) (fun e s h => ?_) hloop))
    · cases x with
      | none =>
        have hrun : InRun i pid (f.script (.serve interval hasOnPass hasStop rounds) rounds) s := hx
        have hbegun : InRun i pid
            (f.script (.serve interval hasOnPass hasStop rounds) rounds ++ []) s := by
          rwa [List.append_nil]
        have hfollow := hbegun.following (fun h => by cases h) rfl
        exact ⟨hfollow.trace, fun h => absurd rfl h, fun _ => ⟨_, _, _, _, rfl, hrun⟩⟩
      | some _ =>
        have hhalt : Halted f (.serve interval hasOnPass hasStop rounds) i pid s := hx
        refine always_bind.2 (Always.mono (fun _ _ h => h)
          (fun _ s h => ⟨h.1, fun _ => h.2, fun h => by cases h⟩) (fun _ _ h => h)
          (always_fleetFinally (r := .ok (some none)) hhalt.following hhalt.acquired hhalt.own
            (fun e he => by cases he) fun _ _ => ⟨hhalt.answered, hhalt.last⟩))
    · exact always_bind.2 h.finally

end

/-- Two units. -/
def twoUnits : FleetHost ℕ := { units := [1, 2] }

/-- The passes reported so far. -/
def passesReported (t : FleetHist ℕ ℕ Unit Unit) : ℕ :=
  t.countP fun e => match e.1 with
    | .onPass _ => true
    | _ => false

/-- Callbacks that answer, but for the unit 0, and a lock file that meets no I/O error; the
    stop condition holds after two reports. -/
def fleetAnswers (o : FleetOp ℕ ℕ Unit) (s : FleetState ℕ ℕ Unit Unit) :
    Option (Except (FleetExc Unit) o.Val × FleetState ℕ ℕ Unit Unit) :=
  match o with
  | .lockPayload => some (.ok ∅, ⟨⟨.lockPayload, .ok ∅⟩ :: s.trace, s.world⟩)
  | .acquire payload =>
    ((acquireLock payload 1).drive (fun o w => w.op 0 {} o) s.world).map fun x =>
      ((x.1.map fun _ => ()).mapError .lock,
        ⟨⟨.acquire payload, (x.1.map fun _ => ()).mapError .lock⟩ :: s.trace, x.2⟩)
  | .admitUnits units => some (.ok (), ⟨⟨.admitUnits units, .ok ()⟩ :: s.trace, s.world⟩)
  | .reconcile unit =>
    let r := if unit = 0 then .error (.consumer ()) else .ok unit
    some (r, ⟨⟨.reconcile unit, r⟩ :: s.trace, s.world⟩)
  | .onPass completed => some (.ok (), ⟨⟨.onPass completed, .ok ()⟩ :: s.trace, s.world⟩)
  | .stopCondition =>
    let r := .ok (decide (2 ≤ passesReported s.trace))
    some (r, ⟨⟨.stopCondition, r⟩ :: s.trace, s.world⟩)
  | .sleep interval => some (.ok (), ⟨⟨.sleep interval, .ok ()⟩ :: s.trace, s.world⟩)
  | .release =>
    match releaseLock.drive (fun o w => w.op 0 {} o) s.world with
    | some (.ok b, w) => some (.ok b, ⟨⟨.release, .ok b⟩ :: s.trace, w⟩)
    | _ => none

theorem fleetStep_of_answers (o : FleetOp ℕ ℕ Unit) (s : FleetState ℕ ℕ Unit Unit)
    (r : Except (FleetExc Unit) o.Val) (s' : FleetState ℕ ℕ Unit Unit)
    (h : fleetAnswers o s = some (r, s')) :
        FleetStep 0 o s r s' := by
  cases o with
  | acquire payload =>
    obtain ⟨⟨r', w⟩, hd, hx⟩ := Option.map_eq_some_iff.1 h
    cases hx
    exact ⟨rfl, 1, r', Steps.of_drive (fun o w r w' h => ⟨{}, h⟩) hd, rfl⟩
  | release =>
    simp only [fleetAnswers] at h
    split at h
    · rename_i b w hd
      cases h
      exact ⟨rfl, b, rfl, Steps.of_drive (fun o w r w' h => ⟨{}, rfl, h⟩) hd⟩
    · cases h
  | _ =>
    cases h
    exact ⟨rfl, rfl⟩

/-- Process 0 runs, with the pid 7; there is no lock file. -/
def freshWorld : LockWorld :=
  { LockWorld.init "host" none with procs := (∅ : AList fun _ : ℕ => ℤ).insert 0 7 }

end DatasourceKit

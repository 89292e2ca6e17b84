/-
  The supervisor lock (`fleet/state.py`): `lock_is_live`, `acquire_lock`,
  `release_lock` over the atomic steps on the lock file.

  * `LockOp`, `lockIsLive`, `acquireLock`, `releaseLock`: the source functions as
    programs;
  * `lock`: any number of processes on one host, each running one call at a time
    and dying at any step.  The pid of a dead process may be used again;
  * `Settled`: the file an `unlink` removes is the one the call has read, with
    the body it has read, and no live process is about to write it;
  * `LockInv`, `lock_exclusive`: in runs whose `unlink`s are all settled, two
    live processes never hold the lock at once; `lock_not_exclusive`: in other
    runs they can.
-/
import Mathlib.Data.List.AList
import DatasourceKit.Interleave.Pool
import DatasourceKit.Value

namespace DatasourceKit

open Interleave Interleave.Prog Interleave.Machine

/-! ## The source functions -/

/-- The atomic steps of the lock functions. -/
inductive LockOp where
  | mkdir                          -- lock_path.parent.mkdir
  | time | getpid | gethostname
  | create                         -- os.open with O_CREAT | O_EXCL
  | dump (fd : ℕ) (body : Dict)    -- json.dump and close
  | read                           -- read_text of the lock file
  | probe (pid : ℤ)                -- os.kill(pid, 0), and no zombie
  | unlink

abbrev LockOp.Val : LockOp → Type
  | time => ℚ
  | getpid => ℤ
  | gethostname => String
  | create => ℕ
  | read => Content
  | probe _ => Bool
  | mkdir | dump _ _ | unlink => Unit

abbrev LockProg := Prog LockOp.Val Exc

/-- `_pid_alive`. -/
def pidAlive (pid : ℤ) : LockProg Bool :=
  if pid ≤ 0 then return false
  else if maxPid < pid then raise .overflow
  else perform (LockOp.probe pid)

def lockIsLive : Option Dict → LockProg Bool
  | none => return false
  | some owner =>
    match (owner.get "pid").asInt with
    | none => return false
    | some pid => do
      let own ← perform LockOp.getpid
      if pid = own then return false
      let host ← perform LockOp.gethostname
      if !(owner.get "hostname").eqStr host then return true
      pidAlive pid

/-- The `while True` of `acquire_lock`, interrupted after `fuel` rounds. -/
def acquireLoop (body : Dict) : ℕ → LockProg Dict
  | 0 => raise (.fault .interrupt)
  | fuel + 1 => do
    match ← attempt LockOp.create with
    | .ok fd =>
      perform (LockOp.dump fd body)
      return body
    | .error .fileExists =>
      let owner ← readJson (attempt LockOp.read)
      if ← lockIsLive owner then
        raise (.lockHeld ((owner.bind fun d => (d.get "pid").asInt).getD 0))
      match ← attempt LockOp.unlink with
      | .ok _ => acquireLoop body fuel
      | .error .notFound => acquireLoop body fuel
      | .error e => raise e
    | .error e => raise e

def acquireLock (payload : Dict) (fuel : ℕ) : LockProg Dict := do
  perform LockOp.mkdir
  let now ← perform LockOp.time
  let pid ← perform LockOp.getpid
  let host ← perform LockOp.gethostname
  let body := payload.setDefault "started_at" (.float now)
  let body := body.set "pid" (.int pid)
  let body := body.set "hostname" (.str host)
  acquireLoop body fuel

def releaseLock : LockProg Bool := do
  match ← readJson (attempt LockOp.read) with
  | none => return false
  | some owner =>
    if !(owner.get "pid").eqInt (← perform LockOp.getpid) then return false
    match ← attempt LockOp.unlink with
    | .ok _ => return true
    | .error .notFound => return false
    | .error e => raise e

/-! ## Processes and the lock file -/

/-- How far a process is with a lock file it has created. -/
inductive Stage where
  | none
  | created (fd : ℕ)
  | written (fd : ℕ)
deriving DecidableEq

/-- The lock file as (inode, content), the host, and the processes.  `held`:
    `acquire_lock` has returned and `release_lock` has not been called since.
    `stage`, `seen`, `gone` record what the running or last call of a process has
    created, read, and found to be the pid of no live process. -/
structure LockWorld where
  file : Option (ℕ × Content)
  next : ℕ
  host : String
  /-- the pids of the live processes -/
  procs : AList fun _ : ℕ => ℤ
  held : ℕ → Bool
  stage : ℕ → Stage
  seen : ℕ → Option (ℕ × Content)
  gone : ℕ → Option ℤ

/-- The environment's part of a step: an exception instead of the effect (`dump`:
    after it, if `late`), the clock, and whether a pid that no process of the
    model has belongs to some other process. -/
structure LockEnv where
  fault : Option Fault := none
  late : Bool := false
  now : ℚ := 0
  other : Bool := false

/-- What a process does: it starts with a pid no live process has, and calls the
    lock functions. -/
inductive LockCall where
  | boot (pid : ℤ)
  | acquire (payload : Dict) (fuel : ℕ)
  | release

namespace LockWorld
variable (w : LockWorld)

def setStage (i : ℕ) (st : Stage) : LockWorld := { w with stage := Function.update w.stage i st }

def setHeld (i : ℕ) (b : Bool) : LockWorld := { w with held := Function.update w.held i b }

/-- The call of `i` has read `x`. -/
def setSeen (i : ℕ) (x : Option (ℕ × Content)) : LockWorld :=
  { w with seen := Function.update w.seen i x, gone := Function.update w.gone i none }

variable {w} {i j : ℕ}

@[simp] theorem stage_setStage {st : Stage} :
    (w.setStage i st).stage j = if j = i then st else w.stage j := Function.update_apply ..

@[simp] theorem held_setHeld {b : Bool} :
    (w.setHeld i b).held j = if j = i then b else w.held j := Function.update_apply ..

@[simp] theorem seen_setSeen {x : Option (ℕ × Content)} :
    (w.setSeen i x).seen j = if j = i then x else w.seen j := Function.update_apply ..

@[simp] theorem gone_setSeen {x : Option (ℕ × Content)} :
    (w.setSeen i x).gone j = if j = i then none else w.gone j := Function.update_apply ..

variable (w)

/-- Some live process has the pid. -/
def hasPid (pid : ℤ) : Bool := w.procs.entries.any fun e => e.2 == pid

/-- The file `fd` gets the content `c`, if it still is the lock file. -/
def fill (fd : ℕ) (c : Content) : LockWorld :=
  { w with file := w.file.map fun f => if f.1 = fd then (fd, c) else f }

theorem fill_self {n : ℕ} {c : Content} (h : w.file = some (n, c)) : w.fill n c = w := by
  cases w
  simp only at h
  simp [fill, h]

/-- The effect of an operation. -/
def op (i : ℕ) (ch : LockEnv) (o : LockOp) :
    Option (Except Exc o.Val × LockWorld) :=
  match ch.fault, o with
  | some f, .dump fd body =>
    some (.error (.fault f), (if ch.late then w.fill fd (.doc body) else w).setStage i .none)
  | some f, .read => some (.error (.fault f), w.setSeen i none)
  | some f, _ => some (.error (.fault f), w)
  | none, .mkdir => some (.ok (), w)
  | none, .time => some (.ok ch.now, w)
  | none, .getpid => (w.procs.lookup i).map fun pid => (.ok pid, w)
  | none, .gethostname => some (.ok w.host, w)
  | none, .create =>
    match w.file with
    | some _ => some (.error .fileExists, w)
    | none =>
      some (.ok w.next,
        { w with file := some (w.next, .malformed), next := w.next + 1 }.setStage i
        (.created w.next))
  | none, .dump fd body => some (.ok (), (w.fill fd (.doc body)).setStage i (.written fd))
  | none, .read =>
    match w.file with
    | some (n, c) => some (.ok c, w.setSeen i (some (n, c)))
    | none => some (.error .notFound, w.setSeen i none)
  | none, .probe pid =>
    if w.hasPid pid || ch.other then some (.ok true, w)
    else some (.ok false, { w with gone := Function.update w.gone i (some pid) })
  | none, .unlink =>
    match w.file with
    | some _ => some (.ok (), { w with file := none })
    | none => some (.error .notFound, w)

def start (i : ℕ) : LockCall → Option LockWorld
  | .boot pid =>
    if (w.procs.lookup i).isNone && decide (0 < pid) && !w.hasPid pid then
      some { w with procs := w.procs.insert i pid }
    else none
  | .acquire _ _ => if (w.procs.lookup i).isSome then some (w.setSeen i none) else none
  | .release =>
    if (w.procs.lookup i).isSome then some (((w.setSeen i none).setStage i .none).setHeld i false)
    else none

def finish (i : ℕ) : LockCall → Except Exc Unit → LockWorld
  | .acquire _ _, .ok _ => w.setHeld i true
  | _, _ => w

def die (i : ℕ) : LockWorld :=
  { (((w.setSeen i none).setStage i .none).setHeld i false) with procs := w.procs.erase i }

/-- No process is alive; the lock file is arbitrary. -/
def init (host : String) (file : Option Content) : LockWorld where
  file := file.map fun c => (0, c)
  next := 1
  host := host
  procs := ∅
  held := fun _ => false
  stage := fun _ => .none
  seen := fun _ => none
  gone := fun _ => none

/-- A live process that has returned from `acquire_lock` and not called
    `release_lock` since. -/
def Holder (i : ℕ) : Prop := (w.procs.lookup i).isSome ∧ w.held i = true

end LockWorld

/-- The program of a call; values returned to the caller are not used again. -/
def LockCall.code : LockCall → LockProg Unit
  | .boot _ => return ()
  | .acquire payload fuel => do let _ ← acquireLock payload fuel
  | .release => do let _ ← releaseLock

def lock : Machine LockOp.Val Exc Unit LockWorld LockCall LockEnv where
  code := LockCall.code
  op := fun i ch o w => w.op i ch o
  start := fun i k w => w.start i k
  finish := fun i k r w => w.finish i k r
  die := fun i w => w.die i

/-! ## The view of one process -/

/-- What only the steps of the process itself change. -/
structure LockView where
  pid : Option ℤ
  stage : Stage
  seen : Option (ℕ × Content)
  gone : Option ℤ

def LockWorld.view (i : ℕ) (w : LockWorld) : LockView :=
  ⟨w.procs.lookup i, w.stage i, w.seen i, w.gone i⟩

/-- The owner the process has read is not another live process. -/
def LockView.Stale (l : LockView) : Prop :=
  ∀ n d, l.seen = some (n, .doc d) → (d.get "pid").asInt = none ∨
    (∃ p, (d.get "pid").eqInt p = true ∧ l.pid = some p) ∨
    ∃ p, (d.get "pid").asInt = some p ∧ (p ≤ 0 ∨ l.gone = some p)

/-- The step of an operation on the view. -/
def LockOp.upd : (o : LockOp) → LockView → Except Exc o.Val → LockView → Prop
  | .getpid, l, .ok pid, l' => l.pid = some pid ∧ l' = l
  | .create, l, .ok n, l' => l' = { l with stage := .created n }
  | .dump n _, l, .ok _, l' => l' = { l with stage := .written n }
  | .dump _ _, l, .error _, l' => l' = { l with stage := .none }
  | .read, l, .ok c, l' => ∃ n, l' = { l with seen := some (n, c), gone := none }
  | .read, l, .error _, l' => l' = { l with seen := none, gone := none }
  | .probe pid, l, .ok b, l' => l' = if b then l else { l with gone := some pid }
  | _, l, _, l' => l' = l

/-- When the code performs an operation. -/
def LockOp.ok : LockOp → LockView → Prop
  | .dump n body, l => l.stage = .created n ∧ ∃ p, l.pid = some p ∧ body.get "pid" = .int p
  | .create, l => l.pid.isSome
  | .unlink, l => l.Stale
  | _, _ => True

/-- The view when a call ends. -/
def LockCall.fin : LockCall → Except Exc Unit → LockView → Prop
  | .acquire _ _, .ok _, l => ∃ n, l.stage = .written n
  | _, _, _ => True

theorem always_lockIsLive {owner : Option Dict} {l : LockView}
    (h : ∀ n d, l.seen = some (n, .doc d) → owner = some d) :
    (lockIsLive owner).Always LockOp.upd LockOp.ok
      (fun b l' => l'.pid = l.pid ∧ (b = false → l'.Stale)) (fun _ _ => True) l := by
  cases owner with
  | none => exact ⟨rfl, fun _ n d hs => by cases h n d hs⟩
  | some owner =>
    simp only [lockIsLive]
    split
    · rename_i hp
      exact ⟨rfl, fun _ n d hs => .inl (by cases h n d hs; exact hp)⟩
    · rename_i pid hp
      refine always_bind.2 (always_perform.2 ⟨trivial, ?_, fun _ _ _ => trivial⟩)
      rintro own l' ⟨hown, rfl⟩
      split_ifs with hpid
      · refine ⟨rfl, fun _ n d hs => .inr (.inl ⟨own, ?_, hown⟩)⟩
        cases h n d hs
        exact Json.eqInt_asInt (hpid ▸ hp)
      · refine always_bind.2 (always_perform.2 ⟨trivial, ?_, fun _ _ _ => trivial⟩)
        rintro host l' rfl
        split_ifs with hhost
        · exact ⟨rfl, fun hb => by cases hb⟩
        · simp only [pidAlive]
          split_ifs with hpos hmax
          · refine ⟨rfl, fun _ n d hs => .inr (.inr ⟨pid, ?_, .inl hpos⟩)⟩
            cases h n d hs; exact hp
          · exact trivial
          · refine always_perform.2 ⟨trivial, ?_, fun _ _ _ => trivial⟩
            rintro b l'' rfl
            cases b with
            | true => exact ⟨rfl, fun hb => by cases hb⟩
            | false =>
              refine ⟨rfl, fun _ n d hs => .inr (.inr ⟨pid, ?_, .inr rfl⟩)⟩
              cases h n d hs; exact hp

/-- Reading the lock file gives the object in it. -/
theorem always_readLock {l : LockView} {Q : Option Dict → LockView → Prop}
    (h : ∀ l' r, l'.pid = l.pid → (∀ n d, l'.seen = some (n, .doc d) → r = some d) → Q r l') :
    (readJson (attempt LockOp.read)).Always LockOp.upd LockOp.ok Q (fun _ _ => True) l := by
  refine always_readJson (always_attempt.2 ⟨trivial, fun r l' hr => ⟨?_, fun hn => ⟨?_, ?_⟩⟩⟩)
  · rintro d rfl
    obtain ⟨n, rfl⟩ := hr
    exact h _ _ rfl fun n' d' hs => by cases hs; rfl
  · cases r with
    | error e => cases hr; exact h _ _ rfl fun n d hs => by cases hs
    | ok c =>
      obtain ⟨n, rfl⟩ := hr
      exact h _ _ rfl fun n' d hs => by cases hs; exact absurd rfl (hn d)
  · exact fun _ => trivial

theorem always_acquireLoop {body : Dict} {fuel : ℕ} {l : LockView} {p : ℤ} (hp : l.pid = some p)
    (hb : body.get "pid" = .int p) :
    (acquireLoop body fuel).Always LockOp.upd LockOp.ok (fun _ l' => ∃ n, l'.stage = .written n)
      (fun _ _ => True) l := by
  induction fuel generalizing l with
  | zero => exact trivial
  | succ fuel ih =>
    refine always_bind.2 (always_attempt.2 ⟨by simp [LockOp.ok, hp], fun r l' hr => ?_⟩)
    rcases r with e | fd
    · cases hr
      cases e with
      | fileExists =>
        refine always_bind.2 (always_readLock fun l₁ owner hl₁ hs => ?_)
        refine always_bind.2 ((always_lockIsLive hs).mono (fun _ _ h => h) (fun b l₂ h => ?_)
          fun _ _ h => h)
        obtain ⟨hl₂, hst⟩ := h
        cases b with
        | true => exact trivial
        | false =>
          refine always_bind.2 (always_attempt.2 ⟨hst rfl, fun r l₃ hr => ?_⟩)
          have hl₃ : l₃ = l₂ := by cases r <;> exact hr
          subst hl₃
          have hp₃ : l₃.pid = some p := by rw [hl₂, hl₁, hp]
          rcases r with e | u
          · cases e with
            | notFound => exact ih hp₃
            | _ => exact trivial
          · exact ih hp₃
      | _ => exact trivial
    · cases hr
      refine always_bind.2 (always_perform.2 ⟨⟨rfl, p, hp, hb⟩, ?_, fun _ _ _ => trivial⟩)
      rintro u l' rfl
      exact ⟨fd, rfl⟩

theorem always_acquireLock (payload : Dict) (fuel : ℕ) (l : LockView) :
    (acquireLock payload fuel).Always LockOp.upd LockOp.ok (fun _ l' => ∃ n, l'.stage = .written n)
      (fun _ _ => True) l := by
  refine always_bind.2 (always_perform.2 ⟨trivial, ?_, fun _ _ _ => trivial⟩)
  rintro _ l rfl
  refine always_bind.2 (always_perform.2 ⟨trivial, ?_, fun _ _ _ => trivial⟩)
  rintro now l rfl
  refine always_bind.2 (always_perform.2 ⟨trivial, ?_, fun _ _ _ => trivial⟩)
  rintro pid l ⟨hpid, rfl⟩
  refine always_bind.2 (always_perform.2 ⟨trivial, ?_, fun _ _ _ => trivial⟩)
  rintro host l rfl
  exact always_acquireLoop hpid (by rw [Dict.get_set_ne _ _ (by decide), Dict.get_set_self])

theorem always_releaseLock (l : LockView) :
    releaseLock.Always LockOp.upd LockOp.ok (fun _ _ => True) (fun _ _ => True) l := by
  refine always_bind.2 (always_readLock fun l₁ owner _ hs => ?_)
  cases owner with
  | none => exact trivial
  | some owner =>
    refine always_bind.2 (always_perform.2 ⟨trivial, ?_, fun _ _ _ => trivial⟩)
    rintro own l₂ ⟨hown, rfl⟩
    simp only [Bool.not_eq_true']
    split_ifs with heq
    · exact trivial
    · refine always_bind.2 (always_attempt.2
        ⟨fun n d hd => .inr (.inl ⟨own, ?_, hown⟩), fun r l₃ _ => ?_⟩)
      · cases hs n d hd; simpa using heq
      · rcases r with e | u
        · cases e <;> exact trivial
        · exact trivial

theorem always_lockCall (k : LockCall) (l : LockView) :
    k.code.Always LockOp.upd LockOp.ok (fun v => k.fin (.ok v)) (fun e => k.fin (.error e)) l := by
  cases k with
  | boot pid => exact trivial
  | acquire payload fuel => exact always_bind.2 (always_acquireLock payload fuel l)
  | release => exact always_bind.2 (always_releaseLock l)

/-! ## The invariant -/

/-- What holds of the lock file and the processes between any two steps. -/
structure LockInv (w : LockWorld) : Prop where
  fresh : ∀ f, w.file = some f → f.1 < w.next
  seenFresh : ∀ i f, w.seen i = some f → f.1 < w.next
  pos : ∀ i p, w.procs.lookup i = some p → 0 < p
  pids : ∀ i j p, w.procs.lookup i = some p → w.procs.lookup j = some p → i = j
  unique : ∀ i j, w.stage i ≠ .none → w.stage j ≠ .none → i = j
  created : ∀ i n, w.stage i = .created n → w.file = some (n, .malformed) ∧ i ∈ w.procs
  written : ∀ i n, w.stage i = .written n → ∃ d p, w.file = some (n, .doc d) ∧
    w.procs.lookup i = some p ∧ d.get "pid" = .int p
  held : ∀ i, w.held i = true → ∃ n, w.stage i = .written n
  seenDoc : ∀ i n d, w.seen i = some (n, .doc d) →
    (∀ j, w.stage j ≠ .created n) ∧ ∀ c, w.file = some (n, c) → c = .doc d
  gone : ∀ i p n d, w.gone i = some p → w.seen i = some (n, .doc d) →
    (d.get "pid").asInt = some p → ∀ j, w.stage j ≠ .written n

namespace LockInv
variable {w : LockWorld} (h : LockInv w)
include h

/-- A process that has created a lock file keeps it in place. -/
theorem file_of_stage {i : ℕ} (hi : w.stage i ≠ .none) : w.file.isSome := by
  cases hs : w.stage i with
  | none => exact absurd hs hi
  | created n => rw [(h.created i n hs).1]; rfl
  | written n => obtain ⟨d, p, hf, -⟩ := h.written i n hs; rw [hf]; rfl

theorem exclusive {i j : ℕ} (hi : w.held i = true) (hj : w.held j = true) : i = j := by
  obtain ⟨n, hi⟩ := h.held i hi
  obtain ⟨m, hj⟩ := h.held j hj
  exact h.unique i j (by rw [hi]; simp) (by rw [hj]; simp)

theorem setSeen (i : ℕ) {x : Option (ℕ × Content)} (hx : ∀ f, x = some f → w.file = some f) :
    LockInv (w.setSeen i x) where
  __ := h
  seenFresh := by
    intro j f hf
    rw [LockWorld.seen_setSeen] at hf
    split_ifs at hf
    · exact h.fresh f (hx f hf)
    · exact h.seenFresh j f hf
  seenDoc := by
    intro j n d hs
    rw [LockWorld.seen_setSeen] at hs
    split_ifs at hs
    · have hf := hx _ hs
      refine ⟨fun k hk => ?_, fun c hc => ?_⟩
      · rw [(h.created k n hk).1] at hf; cases hf
      · rw [show w.file = some (n, c) from hc] at hf; cases hf; rfl
    · exact h.seenDoc j n d hs
  gone := by
    intro j p n d hg hs
    rw [LockWorld.gone_setSeen] at hg
    rw [LockWorld.seen_setSeen] at hs
    split_ifs at hg hs
    exact h.gone j p n d hg hs

/-- A process gives up its lock file, which stays where it is. -/
theorem abandon (i : ℕ) : LockInv ((w.setStage i .none).setHeld i false) := by
  have hst : ∀ j st, (w.setStage i .none).stage j = st → st ≠ .none → w.stage j = st := by
    intro j st hj hne
    rw [LockWorld.stage_setStage] at hj
    split_ifs at hj
    · exact absurd hj.symm hne
    · exact hj
  refine { h with unique := ?_, created := ?_, written := ?_, held := ?_,
                  seenDoc := ?_, gone := ?_ }
  · exact fun j k hj hk => h.unique j k (hst j _ rfl hj ▸ hj) (hst k _ rfl hk ▸ hk)
  · exact fun j n hj => h.created j n (hst j _ hj (by simp))
  · exact fun j n hj => h.written j n (hst j _ hj (by simp))
  · intro j hj
    rw [LockWorld.held_setHeld] at hj
    split_ifs at hj with hji
    obtain ⟨n, hn⟩ := h.held j hj
    exact ⟨n, (LockWorld.stage_setStage.trans (if_neg hji)).trans hn⟩
  · intro j n d hs
    obtain ⟨hc, hf⟩ := h.seenDoc j n d hs
    exact ⟨fun k hk => hc k (hst k _ hk (by simp)), hf⟩
  · exact fun j p n d hg hs hp k hk => h.gone j p n d hg hs hp k (hst k _ hk (by simp))

theorem create {i : ℕ} (hi : i ∈ w.procs) (hf : w.file = none) : LockInv
    ({ w with file := some (w.next, .malformed), next := w.next + 1 }.setStage i
      (.created w.next)) := by
  have hno : ∀ j, w.stage j = .none := fun j => by
    by_contra hj
    have := h.file_of_stage hj
    rw [hf] at this; cases this
  have hst : ∀ j st, (w.setStage i (.created w.next)).stage j = st → st ≠ .none →
      j = i ∧ st = .created w.next := by
    intro j st hj hne
    rw [LockWorld.stage_setStage] at hj
    split_ifs at hj with hji
    · exact ⟨hji, hj.symm⟩
    · exact absurd (hj.symm.trans (hno j)) hne
  refine { h with fresh := ?_, seenFresh := ?_, unique := ?_, created := ?_, written := ?_,
                  held := ?_, seenDoc := ?_, gone := ?_ }
  · rintro f hf; cases hf; exact Nat.lt_succ_self _
  · exact fun j f hj => Nat.lt_succ_of_lt (h.seenFresh j f hj)
  · exact fun j k hj hk => (hst j _ rfl hj).1.trans (hst k _ rfl hk).1.symm
  · intro j n hj
    obtain ⟨rfl, hn⟩ := hst j _ hj (by simp)
    cases hn
    exact ⟨rfl, hi⟩
  · intro j n hj
    cases (hst j _ hj (by simp)).2
  · intro j hj
    obtain ⟨n, hn⟩ := h.held j hj
    rw [hno j] at hn; cases hn
  · intro j n d hs
    have hn := h.seenFresh j _ hs
    refine ⟨fun k hk => ?_, fun c hc => ?_⟩
    · cases (hst k _ hk (by simp)).2
      exact absurd hn (lt_irrefl _)
    · cases hc
      exact absurd hn (lt_irrefl _)
  · intro j p n d _ _ _ k hk
    cases (hst k _ hk (by simp)).2

/-- The process that has created the lock file fills it and completes or abandons
    it. -/
theorem dump {i n : ℕ} {st : Stage} {c : Content} (hi : w.stage i = .created n)
    (hst : st = .none ∨ st = .written n ∧ ∃ d p, c = .doc d ∧ w.procs.lookup i = some p ∧
      d.get "pid" = .int p) : LockInv ((w.fill n c).setStage i st) := by
  have hfile : ((w.fill n c).setStage i st).file = some (n, c) := by
    simp [LockWorld.fill, LockWorld.setStage, (h.created i n hi).1]
  have hno : ∀ j, j ≠ i → w.stage j = .none := fun j hj => by
    by_contra hne
    exact hj (h.unique j i hne (by rw [hi]; simp))
  have hup : ∀ j, ((w.fill n c).setStage i st).stage j ≠ .none → j = i := by
    intro j hj
    by_contra hji
    rw [LockWorld.stage_setStage, if_neg hji] at hj
    exact hj (hno j hji)
  have hat : ((w.fill n c).setStage i st).stage i = st := by simp
  have hseen : ∀ j d, w.seen j ≠ some (n, .doc d) := fun j d hs => (h.seenDoc j n d hs).1 i hi
  refine { h with fresh := ?_, unique := ?_, created := ?_, written := ?_, held := ?_,
                  seenDoc := ?_, gone := ?_ }
  · intro f hf
    rw [hfile] at hf
    cases hf
    exact h.fresh (n, .malformed) (h.created i n hi).1
  · exact fun j k hj hk => (hup j hj).trans (hup k hk).symm
  · intro j m hj
    cases hup j (by rw [hj]; simp)
    rw [hat] at hj
    rcases hst with rfl | ⟨rfl, -⟩ <;> cases hj
  · intro j m hj
    cases hup j (by rw [hj]; simp)
    rw [hat] at hj
    rcases hst with rfl | ⟨rfl, d, p, rfl, hp, hd⟩ <;> cases hj
    exact ⟨d, p, hfile, hp, hd⟩
  · intro j hj
    obtain ⟨m, hm⟩ := h.held j hj
    have hji : j ≠ i := by
      rintro rfl
      rw [hi] at hm; cases hm
    rw [hno j hji] at hm; cases hm
  · intro j m d hs
    have hm : m ≠ n := by rintro rfl; exact hseen j d hs
    refine ⟨fun k hk => ?_, fun c' hc => ?_⟩
    · cases hup k (by rw [hk]; simp)
      rw [hat] at hk
      rcases hst with rfl | ⟨rfl, -⟩ <;> cases hk
    · rw [hfile] at hc
      cases hc
      exact absurd rfl hm
  · intro j p m d _ hs _ k hk
    cases hup k (by rw [hk]; simp)
    rw [hat] at hk
    rcases hst with rfl | ⟨rfl, -⟩ <;> cases hk
    exact hseen j d hs

/-- A pid that no live process has is recorded as gone. -/
theorem setGone (i : ℕ) {pid : ℤ} (hpid : w.hasPid pid = false) :
    LockInv { w with gone := Function.update w.gone i (some pid) } := by
  have hlive : ∀ j, w.procs.lookup j ≠ some pid := by
    intro j hj
    have := AList.mem_lookup_iff.1 (Option.mem_def.2 hj)
    simp only [LockWorld.hasPid, List.any_eq_false, beq_iff_eq] at hpid
    exact hpid _ this rfl
  refine { h with gone := ?_ }
  intro j p n d hg hs hp k hk
  by_cases hj : j = i
  · subst hj
    obtain rfl : pid = p := by simpa using hg
    obtain ⟨d', p', hf, hp', hd⟩ := h.written k n hk
    cases (h.seenDoc j n d hs).2 _ hf
    rw [hd] at hp
    cases hp
    exact hlive k hp'
  · exact h.gone j p n d (by simpa [Function.update_of_ne hj] using hg) hs hp k hk

theorem unlink (hno : ∀ j, w.stage j = .none) : LockInv { w with file := none } where
  __ := h
  fresh := fun f hf => by cases hf
  created := fun i n hi => by cases (hno i).symm.trans hi
  written := fun i n hi => by cases (hno i).symm.trans hi
  seenDoc := fun i n d hs => ⟨(h.seenDoc i n d hs).1, fun c hc => by cases hc⟩

theorem boot {i : ℕ} {pid : ℤ} (hi : w.procs.lookup i = none) (hpos : 0 < pid)
    (hpid : w.hasPid pid = false) : LockInv { w with procs := w.procs.insert i pid } := by
  have hlive : ∀ j, w.procs.lookup j ≠ some pid := by
    intro j hj
    have := AList.mem_lookup_iff.1 (Option.mem_def.2 hj)
    simp only [LockWorld.hasPid, List.any_eq_false, beq_iff_eq] at hpid
    exact hpid _ this rfl
  have hl : ∀ j p, (w.procs.insert i pid).lookup j = some p →
      j = i ∧ p = pid ∨ j ≠ i ∧ w.procs.lookup j = some p := by
    intro j p hj
    by_cases hji : j = i
    · subst hji
      rw [AList.lookup_insert] at hj
      exact .inl ⟨rfl, by simpa using hj.symm⟩
    · exact .inr ⟨hji, by rwa [AList.lookup_insert_ne hji] at hj⟩
  refine { h with pos := ?_, pids := ?_, created := ?_, written := ?_ }
  · intro j p hj
    rcases hl j p hj with ⟨-, rfl⟩ | ⟨-, hj⟩
    · exact hpos
    · exact h.pos j p hj
  · intro j k p hj hk
    rcases hl j p hj with ⟨hji, hp⟩ | ⟨-, hj'⟩ <;> rcases hl k p hk with ⟨hki, hp'⟩ | ⟨-, hk'⟩
    · rw [hji, hki]
    · exact absurd (hp ▸ hk') (hlive k)
    · exact absurd (hp' ▸ hj') (hlive j)
    · exact h.pids j k p hj' hk'
  · exact fun j n hj => ⟨(h.created j n hj).1, (AList.mem_insert _).2 (.inr (h.created j n hj).2)⟩
  · intro j n hj
    obtain ⟨d, p, hf, hp, hd⟩ := h.written j n hj
    refine ⟨d, p, hf, ?_, hd⟩
    rw [AList.lookup_insert_ne, hp]
    rintro rfl
    rw [hi] at hp; cases hp

theorem die (i : ℕ) : LockInv (w.die i) := by
  have h' := (h.setSeen i (x := none) (by simp)).abandon i
  have hl : ∀ j p, (w.procs.erase i).lookup j = some p → w.procs.lookup j = some p := by
    intro j p hj
    by_cases hji : j = i
    · subst hji; rw [AList.lookup_erase] at hj; cases hj
    · rwa [AList.lookup_erase_ne hji] at hj
  have hne : ∀ j, (w.die i).stage j ≠ .none → j ≠ i := by
    rintro j hj rfl
    exact hj (LockWorld.stage_setStage.trans (if_pos rfl))
  refine { h' with pos := ?_, pids := ?_, created := ?_, written := ?_ }
  · exact fun j p hj => h.pos j p (hl j p hj)
  · exact fun j k p hj hk => h.pids j k p (hl j p hj) (hl k p hk)
  · intro j n hj
    obtain ⟨hf, hp⟩ := h'.created j n hj
    exact ⟨hf, AList.mem_erase.2 ⟨hne j (by rw [hj]; simp), hp⟩⟩
  · intro j n hj
    obtain ⟨d, p, hf, hp, hd⟩ := h'.written j n hj
    exact ⟨d, p, hf, (AList.lookup_erase_ne (hne j (by rw [hj]; simp))).trans hp, hd⟩

end LockInv

/-! ## Mutual exclusion -/

/-- A step that, if it is an `unlink`, is of a process that has no lock file of its
    own, and finds the lock file as the call has read it and no live process about
    to write it. -/
def Settled (c : Cfg LockOp.Val Exc Unit LockWorld LockCall) : Act LockCall LockEnv → Prop
  | .op i _ => c.next i = some .unlink → c.sh.stage i = .none ∧
      ∀ f, c.sh.file = some f → c.sh.seen i = some f ∧ ∀ j ∈ c.sh.procs, c.sh.stage j ≠ .created f.1
  | _ => True

/-- Where an `unlink` is settled, nobody has created the lock file and kept it. -/
theorem LockInv.stage_of_stale {w : LockWorld} (h : LockInv w) {i : ℕ} (hi : w.stage i = .none)
    (hf : ∀ f, w.file = some f → w.seen i = some f ∧ ∀ j ∈ w.procs, w.stage j ≠ .created f.1)
    (hs : (w.view i).Stale) (j : ℕ) : w.stage j = .none := by
  cases hj : w.stage j with
  | none => rfl
  | created n =>
    obtain ⟨hfile, hlive⟩ := h.created j n hj
    exact absurd hj ((hf _ hfile).2 j hlive)
  | written n =>
    obtain ⟨d, p, hfile, hp, hd⟩ := h.written j n hj
    have hseen := (hf _ hfile).1
    rcases hs n d hseen with hnone | ⟨q, hq, hown⟩ | ⟨q, hq, hgone⟩
    · rw [hd] at hnone; cases hnone
    · rw [hd] at hq
      obtain rfl : p = q := by simpa [Json.eqInt] using hq
      cases h.pids i j p hown hp
      rw [hi] at hj; cases hj
    · rw [hd] at hq
      cases hq
      rcases hgone with hpos | hgone
      · exact absurd (h.pos j p hp) (Int.not_lt.2 hpos)
      · exact absurd hj (h.gone i p n d hgone hseen (by rw [hd]; rfl) j)

theorem view_of_frame {w w' : LockWorld} {i : ℕ} (hp : w'.procs = w.procs)
    (hst : ∀ j ≠ i, w'.stage j = w.stage j) (hs : ∀ j ≠ i, w'.seen j = w.seen j)
    (hg : ∀ j ≠ i, w'.gone j = w.gone j) : ∀ j ≠ i, w'.view j = w.view j := by
  intro j hj
  simp only [LockWorld.view, hp, hst j hj, hs j hj, hg j hj]

/-- One operation keeps the invariant, moves the view of its process by `upd`, and
    no other view. -/
theorem LockInv.op {w w' : LockWorld} (h : LockInv w) {i : ℕ} {ch : LockEnv} {o : LockOp}
    {r : Except Exc o.Val} (hok : o.ok (w.view i))
    (hun : o = .unlink → w.stage i = .none ∧
      ∀ f, w.file = some f → w.seen i = some f ∧ ∀ j ∈ w.procs, w.stage j ≠ .created f.1)
    (hop : w.op i ch o = some (r, w')) :
    LockInv w' ∧ o.upd (w.view i) r (w'.view i) ∧ ∀ j ≠ i, w'.view j = w.view j := by
  have hset : ∀ x, ∀ j ≠ i, (w.setSeen i x).view j = w.view j := fun x =>
    view_of_frame rfl (fun _ _ => rfl) (fun j hj => by simp [hj]) (fun j hj => by simp [hj])
  have hsta : ∀ w' : LockWorld, w'.procs = w.procs → w'.stage = w.stage → w'.seen = w.seen →
      w'.gone = w.gone → ∀ st, ∀ j ≠ i, (w'.setStage i st).view j = w.view j :=
    fun w' h₁ h₂ h₃ h₄ st => view_of_frame h₁ (fun j hj => by simp [hj, h₂])
      (fun j _ => congrFun h₃ j) (fun j _ => congrFun h₄ j)
  cases hfault : ch.fault with
  | some f =>
    cases o with
    | dump fd body =>
      obtain ⟨hcr, p, hp, hb⟩ := hok
      simp only [LockWorld.op, hfault, Option.some.injEq, Prod.mk.injEq] at hop
      obtain ⟨rfl, rfl⟩ := hop
      refine ⟨?_, ?_, hsta _ ?_ ?_ ?_ ?_ _⟩
      · split_ifs
        · exact h.dump hcr (.inl rfl)
        · have hd : LockInv ((w.fill fd .malformed).setStage i .none) := h.dump hcr (.inl rfl)
          rwa [LockWorld.fill_self _ (h.created i fd hcr).1] at hd
      · split_ifs <;> simp [LockOp.upd, LockWorld.view, LockWorld.fill, LockWorld.setStage]
      all_goals split_ifs <;> rfl
    | read =>
      simp only [LockWorld.op, hfault, Option.some.injEq, Prod.mk.injEq] at hop
      obtain ⟨rfl, rfl⟩ := hop
      refine ⟨h.setSeen i (by simp), ?_, hset none⟩
      simp [LockOp.upd, LockWorld.view, LockWorld.setSeen]
    | _ =>
      simp only [LockWorld.op, hfault, Option.some.injEq, Prod.mk.injEq] at hop
      obtain ⟨rfl, rfl⟩ := hop
      exact ⟨h, rfl, fun _ _ => rfl⟩
  | none =>
    cases o with
    | mkdir | time | gethostname =>
      simp only [LockWorld.op, hfault, Option.some.injEq, Prod.mk.injEq] at hop
      obtain ⟨rfl, rfl⟩ := hop
      exact ⟨h, rfl, fun _ _ => rfl⟩
    | getpid =>
      simp only [LockWorld.op, hfault, Option.map_eq_some_iff, Prod.mk.injEq] at hop
      obtain ⟨p, hp, rfl, rfl⟩ := hop
      exact ⟨h, ⟨hp, rfl⟩, fun _ _ => rfl⟩
    | create =>
      simp only [LockWorld.op, hfault] at hop
      split at hop <;> simp only [Option.some.injEq, Prod.mk.injEq] at hop <;>
        obtain ⟨rfl, rfl⟩ := hop
      · exact ⟨h, rfl, fun _ _ => rfl⟩
      · rename_i hfile
        refine ⟨h.create (AList.lookup_isSome.1 hok) hfile, ?_, hsta _ rfl rfl rfl rfl _⟩
        simp [LockOp.upd, LockWorld.view, LockWorld.setStage]
    | dump fd body =>
      obtain ⟨hcr, p, hp, hb⟩ := hok
      simp only [LockWorld.op, hfault, Option.some.injEq, Prod.mk.injEq] at hop
      obtain ⟨rfl, rfl⟩ := hop
      refine ⟨h.dump hcr (.inr ⟨rfl, body, p, rfl, hp, hb⟩), ?_, hsta _ rfl rfl rfl rfl _⟩
      simp [LockOp.upd, LockWorld.view, LockWorld.fill, LockWorld.setStage]
    | read =>
      simp only [LockWorld.op, hfault] at hop
      split at hop <;> simp only [Option.some.injEq, Prod.mk.injEq] at hop <;>
        obtain ⟨rfl, rfl⟩ := hop
      · rename_i n c hfile
        refine ⟨h.setSeen i (by rintro f hf; rw [hfile, hf]), ⟨n, ?_⟩, hset _⟩
        simp [LockWorld.view, LockWorld.setSeen]
      · refine ⟨h.setSeen i (by simp), ?_, hset none⟩
        simp [LockOp.upd, LockWorld.view, LockWorld.setSeen]
    | probe pid =>
      simp only [LockWorld.op, hfault] at hop
      split_ifs at hop with hpid <;> simp only [Option.some.injEq, Prod.mk.injEq] at hop <;>
        obtain ⟨rfl, rfl⟩ := hop
      · exact ⟨h, rfl, fun _ _ => rfl⟩
      · simp only [Bool.or_eq_true, not_or, Bool.not_eq_true] at hpid
        refine ⟨h.setGone i hpid.1, ?_, view_of_frame rfl (fun _ _ => rfl) (fun _ _ => rfl)
          fun j hj => Function.update_of_ne hj ..⟩
        simp [LockOp.upd, LockWorld.view]
    | unlink =>
      simp only [LockWorld.op, hfault] at hop
      split at hop <;> simp only [Option.some.injEq, Prod.mk.injEq] at hop <;>
        obtain ⟨rfl, rfl⟩ := hop
      · obtain ⟨hst, hf⟩ := hun rfl
        exact ⟨h.unlink (h.stage_of_stale hst hf hok), rfl, fun _ _ => rfl⟩
      · exact ⟨h, rfl, fun _ _ => rfl⟩

theorem LockInv.start {w w' : LockWorld} (h : LockInv w) {i : ℕ} {k : LockCall}
    (hs : w.start i k = some w') : LockInv w' ∧ ∀ j ≠ i, w'.view j = w.view j := by
  cases k with
  | boot pid =>
    simp only [LockWorld.start] at hs
    split_ifs at hs with hb
    simp only [Bool.and_eq_true, Option.isNone_iff_eq_none, decide_eq_true_eq,
      Bool.not_eq_true'] at hb
    cases hs
    refine ⟨h.boot hb.1.1 hb.1.2 hb.2, fun j hj => ?_⟩
    simp only [LockWorld.view, AList.lookup_insert_ne hj]
  | acquire payload fuel =>
    simp only [LockWorld.start] at hs
    split_ifs at hs
    cases hs
    exact ⟨h.setSeen i (by simp), view_of_frame rfl (fun _ _ => rfl) (fun j hj => by simp [hj])
      fun j hj => by simp [hj]⟩
  | release =>
    simp only [LockWorld.start] at hs
    split_ifs at hs
    cases hs
    refine ⟨(h.setSeen i (by simp)).abandon i, view_of_frame rfl (fun j hj => ?_) (fun j hj => ?_)
      fun j hj => ?_⟩
    all_goals simp [LockWorld.setStage, LockWorld.setHeld, LockWorld.setSeen, hj]

theorem lock_rely : Rely lock Settled LockInv LockWorld.view LockOp.upd LockOp.ok LockCall.fin where
  start := by
    intro c i k s _ hI _ hs
    obtain ⟨hI', hv⟩ := hI.start hs
    exact ⟨hI', always_lockCall k _, hv⟩
  op := by
    intro c i ch k o f r s hP hI hr hok hop
    exact hI.op hok (fun ho => hP (ho ▸ Cfg.next_call hr)) hop
  finish := by
    intro c i k r _ hI _ hfin
    match k, r, hfin with
    | .acquire _ _, .ok _, ⟨n, hn⟩ =>
      refine ⟨{ hI with held := fun j hj => ?_ }, fun _ _ => rfl⟩
      by_cases hji : j = i
      · exact ⟨n, hji ▸ hn⟩
      · exact hI.held j (by simpa [lock, LockWorld.finish, hji] using hj)
    | .acquire _ _, .error _, _ => exact ⟨hI, fun _ _ => rfl⟩
    | .boot _, _, _ => exact ⟨hI, fun _ _ => rfl⟩
    | .release, _, _ => exact ⟨hI, fun _ _ => rfl⟩
  die := by
    intro c i _ hI
    refine ⟨hI.die i, fun j hj => ?_⟩
    simp [lock, LockWorld.die, LockWorld.view, LockWorld.setStage, LockWorld.setHeld,
      LockWorld.setSeen, hj, AList.lookup_erase_ne hj]

theorem lockInv_init (host : String) (file : Option Content) : LockInv (.init host file) where
  fresh := by
    rintro f hf
    obtain ⟨c, -, rfl⟩ := Option.map_eq_some_iff.1 hf
    exact Nat.one_pos
  seenFresh := fun i f hf => by cases hf
  pos := fun i p hp => by simp [LockWorld.init] at hp
  pids := fun i j p hp => by simp [LockWorld.init] at hp
  unique := fun i j hi => absurd rfl hi
  created := fun i n hi => by cases hi
  written := fun i n hi => by cases hi
  held := fun i hi => by cases hi
  seenDoc := fun i n d hs => by cases hs
  gone := fun i p n d hg => by cases hg

/-- **Mutual exclusion where the `unlink`s are settled**: whatever the lock file was at
    the start, no two live processes hold the lock in a state reached so. -/
theorem lock_exclusive (host : String) (file : Option Content)
    {c : Cfg LockOp.Val Exc Unit LockWorld LockCall}
    (h : lock.Reach Settled (idle (.init host file)) c) {i j : ℕ} (hi : c.sh.Holder i)
    (hj : c.sh.Holder j) : i = j :=
  (lock_rely.inv (lockInv_init host file) h).1.exclusive hi.2 hj.2

/-- Process `i` starts with the pid and calls `acquire_lock`, up to its first `open`. -/
def lockPrelude (i : ℕ) (pid : ℤ) : List (Act LockCall LockEnv) :=
  [.start i (.boot pid), .finish i, .start i (.acquire ∅ 2), .op i {}, .op i {}, .op i {}, .op i {}]

/-- Where an `unlink` finds a file without an object, and nobody about to write it. -/
def settledCorrupt (c : Cfg LockOp.Val Exc Unit LockWorld LockCall) :
    Act LockCall LockEnv → Bool
  | .op i _ =>
    match c.next i with
    | some .unlink => c.sh.stage i == .none &&
      match c.sh.file, c.sh.seen i with
      | some (n, .malformed), some (m, .malformed) =>
        n == m && c.sh.procs.keys.all fun j => c.sh.stage j != .created n
      | _, _ => false
    | _ => true
  | _ => true

theorem settled_of_corrupt {c : Cfg LockOp.Val Exc Unit LockWorld LockCall}
    {a : Act LockCall LockEnv} (h : settledCorrupt c a = true) : Settled c a := by
  cases a with
  | op i ch =>
    intro hnext
    simp only [settledCorrupt, hnext, Bool.and_eq_true, beq_iff_eq] at h
    obtain ⟨hst, h⟩ := h
    refine ⟨hst, fun f hf => ?_⟩
    split at h
    · rename_i n m hfile hseen
      simp only [Bool.and_eq_true, beq_iff_eq, List.all_eq_true, bne_iff_ne] at h
      rw [hfile] at hf
      cases hf
      exact ⟨h.1 ▸ hseen, fun j hj => h.2 j (AList.mem_keys.1 hj)⟩
    · cases h
  | _ => trivial

/-- Process 0 takes over a corrupt lock file; process 1 fails to acquire it. -/
theorem lock_exclusive_corrupt :
    ∃ c, lock.Reach Settled (idle (.init "host" (some .malformed))) c ∧ c.sh.Holder 0 ∧
      1 ∈ c.sh.procs ∧ ¬ c.sh.Holder 1 := by
  obtain ⟨c, hc, hb, -⟩ := Reach.exists_of_run lock (idle (.init "host" (some .malformed)))
    settledCorrupt
    (lockPrelude 0 7 ++ [.op 0 {}, .op 0 {}, .op 0 {}, .op 0 {}, .op 0 {}, .finish 0] ++
      lockPrelude 1 8 ++ [.op 1 {}, .op 1 {}, .op 1 {}, .op 1 {}, .op 1 {}, .finish 1])
    (fun c => (c.sh.procs.lookup 0).isSome && c.sh.held 0 && (c.sh.procs.lookup 1).isSome)
    (fun _ _ => settled_of_corrupt) rfl
  simp only [Bool.and_eq_true] at hb
  exact ⟨c, hc, hb.1, AList.lookup_isSome.1 hb.2,
    fun h₁ => absurd (lock_exclusive _ _ hc hb.1 h₁) (by decide)⟩

/-- Process 1 reads the lock file that process 0 has created and not yet written, and
    unlinks it. -/
def raceRun : List (Act LockCall LockEnv) :=
  lockPrelude 0 7 ++ [.op 0 {}] ++ lockPrelude 1 8 ++
    [.op 1 {}, .op 1 {}, .op 1 {}, .op 1 {}, .op 1 {}, .finish 1, .op 0 {}, .finish 0]

/-- **`acquire_lock` is not exclusive**: an empty lock file counts as abandoned, also
    while its creator is about to write it. -/
theorem lock_not_exclusive : ¬ ∀ (host : String) (file : Option Content)
    (c : Cfg LockOp.Val Exc Unit LockWorld LockCall),
    lock.Reach (fun _ _ => True) (idle (.init host file)) c →
      ∀ i j, c.sh.Holder i → c.sh.Holder j → i = j := by
  intro h
  obtain ⟨c, hc, hb, -⟩ := Reach.exists_of_run lock (idle (.init "host" none)) (fun _ _ => true)
    raceRun
    (fun c => ((c.sh.procs.lookup 0).isSome && c.sh.held 0) &&
      ((c.sh.procs.lookup 1).isSome && c.sh.held 1)) (fun _ _ _ => trivial) rfl
  simp only [Bool.and_eq_true] at hb
  exact absurd (h _ _ c hc 0 1 hb.1 hb.2) (by decide)

end DatasourceKit

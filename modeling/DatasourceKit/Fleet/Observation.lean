/-
  Observing a unit: `_pid_alive`, `_read_pid`, `liveness` (`fleet/process.py`) and
  `observe_unit` (`fleet/control.py`).

  * `ProcessTable`: what `os.kill(pid, 0)` and `ps` answer;
  * `ReadableRecord`: the contents of `pid.json` that an observation gets through, and on
    which it reports as running only an integer pid;
  * `observes_iff`: liveness and observation do what they promise exactly on these.
-/
import DatasourceKit.Fleet.Outcome

namespace DatasourceKit

open Interleave Interleave.Prog

/-! ## Processes -/

inductive KillAnswer where
  | sent
  | noProcess           -- ProcessLookupError
  | notPermitted        -- PermissionError
  | failed              -- another OSError
deriving DecidableEq

/-- The answers of `os.kill(pid, 0)`, and the output of `ps -o stat= -p pid` if it ran and
    exited with 0. -/
structure ProcessTable where
  kill : ℤ → KillAnswer
  ps : ℤ → Option String

namespace ProcessTable
variable (t : ProcessTable)

def pidIsZombie (pid : ℤ) : Bool := (t.ps pid).any fun out => out.toList.contains 'Z'

def pidAlive (pid : ℤ) : Except Exc Bool :=
  if pid ≤ 0 then .ok false
  else if maxPid < pid then .error .overflow
  else
    match t.kill pid with
    | .noProcess => .ok false
    | .failed => .ok false
    | .sent => .ok !t.pidIsZombie pid
    | .notPermitted => .ok !t.pidIsZombie pid

end ProcessTable

/-! ## The source functions -/

/-- What `_read_pid` returns: an object, or another value. -/
abbrev PidData := Dict ⊕ Json

def readPidData : UnitProg (Option PidData) := do
  match ← attempt UnitOp.readPid with
  | .ok (.doc d) => return some (.inl d)
  | .ok (.value .null) => return none
  | .ok (.value v) => return some (.inr v)
  | .ok .malformed => return none
  | .ok .undecodable => raise .unicode
  | .ok .overlong => raise (.valueError "Exceeds the limit for integer string conversion")
  | .error .notFound => return none
  | .error (.fault .permission) => return none
  | .error e => raise e

/-- `int(data["pid"])`. -/
def PidData.pid : PidData → Except Exc ℤ
  | .inl d =>
    match d.lookup "pid" with
    | some v => pyInt v
    | none => .error (.keyError "pid")
  | .inr _ => .error .typeError

/-- `isinstance(e, (KeyError, TypeError, ValueError))`. -/
def Exc.isCorruptPid : Exc → Bool
  | keyError _ | typeError | valueError _ | unicode => true
  | _ => false

structure Liveness where
  pid : ℤ
  state : String

def liveness (pidProbe : ℤ → Except Exc Bool) : UnitProg Liveness := do
  match ← readPidData with
  | none => raise .notFound
  | some data =>
    match data.pid with
    | .error e => if e.isCorruptPid then return ⟨0, "stale"⟩ else raise e
    | .ok pid =>
      if ← liftExcept (pidProbe pid) then return ⟨pid, "running"⟩
      return ⟨pid, "stale"⟩

/-- `UnitObservation`; `desired` is the value whose `str` the source returns. -/
structure UnitObservation where
  unit : String
  desired : Json
  actual : String
  generation : ℤ
  pid : Option ℤ
  heartbeat : Dict

/-- The keys of a state that are not core keys, with their values. -/
def heartbeatOf (state : Dict) : Dict := coreStateKeys.foldl (fun d k => d.erase k) state

def observeUnit (units : List String) (pidProbe : ℤ → Except Exc Bool) (unit : String) :
    UnitProg UnitObservation := do
  if unit ∉ units then raise (.keyError unit)
  let state ← loadState unit
  let (actual, pid) ← match ← attempt UnitOp.lstatPid with
    | .error .notFound => pure ("stopped", none)
    | .error e => if e.isOSError then pure ("unknown", none) else raise e
    | .ok _ => do
      let live ← handle (do return some (← liveness pidProbe)) fun e =>
        if e.isOSError then return none else raise e
      match live with
      | some live => pure (if live.state = "running" then ("running", some live.pid)
        else ("unknown", none))
      | none => pure ("unknown", none)
  return ⟨unit, state.get "desired", actual, ← liftExcept (pyInt (state.get "generation")),
    pid, heartbeatOf state⟩

/-! ## Damaged records -/

/-- `int(v)` is a pid that can be probed, and an integer in the record if it is alive; or
    it fails otherwise than by an `OverflowError`. -/
def SafePid (t : ProcessTable) (v : Json) : Prop :=
  match pyInt v with
  | .ok n => n ≤ maxPid ∧ (v = .int n ∨ t.pidAlive n = .ok false)
  | .error e => e ≠ .overflow

/-- The bytes decode, no integer literal is over-long, and the pid of an object is safe. -/
def ReadableRecord (t : ProcessTable) : Content → Prop
  | .doc d => ∀ v, d.lookup "pid" = some v → SafePid t v
  | .value _ => True
  | .malformed => True
  | .undecodable => False
  | .overlong => False

/-- The integer is the pid in the record, and names a live process. -/
def Running (t : ProcessTable) (c : Content) (n : ℤ) : Prop :=
  ∃ d, c = .doc d ∧ d.lookup "pid" = some (.int n) ∧ t.pidAlive n = .ok true

theorem pidAlive_ok {t : ProcessTable} {n : ℤ} (h : n ≤ maxPid) : ∃ b, t.pidAlive n = .ok b := by
  unfold ProcessTable.pidAlive
  split_ifs with h₁ h₂
  · exact ⟨_, rfl⟩
  · omega
  · split <;> exact ⟨_, rfl⟩

theorem le_of_pidAlive {t : ProcessTable} {n : ℤ} {b : Bool} (h : t.pidAlive n = .ok b) :
    n ≤ maxPid := by
  unfold ProcessTable.pidAlive at h
  split_ifs at h with h₁ h₂
  · have : (0 : ℤ) ≤ maxPid := by decide
    omega
  · omega

theorem pidAlive_ne_notFound {t : ProcessTable} {n : ℤ} : t.pidAlive n ≠ .error .notFound := by
  unfold ProcessTable.pidAlive
  split_ifs
  · simp
  · simp
  · split <;> simp

theorem pyInt_error_cases {v : Json} {e : Exc} (h : pyInt v = .error e) :
    e = .overflow ∨ e.isCorruptPid = true := by
  unfold pyInt at h
  split at h
  case h_5 => cases h; exact .inl rfl
  case h_6 =>
    split at h
    · split_ifs at h
      cases h
      exact .inr rfl
    · cases h
      exact .inr rfl
  all_goals cases h <;> exact .inr rfl

section
variable {a : Own} {f : PidFile} {t : ProcessTable}

/-- What reading a regular `pid.json` answers. -/
theorem readPid_calm (hf : a.pid = some f) (hk : f.kind = .regular) {r : Except Exc Content}
    {a' : Own} (h : CalmStep .readPid a r a') : a' = a ∧ r = .ok f.content := by
  obtain ⟨⟨rfl, ⟨hn, -⟩ | ⟨f', hf', hr⟩⟩, -⟩ := h
  · rw [hf] at hn
    cases hn
  · obtain rfl := Option.some.inj (hf.symm.trans hf')
    rw [if_neg (by rw [hk]; decide)] at hr
    exact ⟨rfl, hr⟩

/-- `liveness` of an object. -/
theorem always_livenessOf {d : Dict} {c : Content} (hd : c = .doc d) (hc : ReadableRecord t c) :
    (match PidData.pid (.inl d) with
      | .error e => if e.isCorruptPid then return ⟨0, "stale"⟩ else raise e
      | .ok pid => do
        if ← liftExcept (t.pidAlive pid) then return ⟨pid, "running"⟩
        return ⟨pid, "stale"⟩ : UnitProg Liveness).Always CalmStep (fun _ _ => True)
      (fun l a' => a' = a ∧ (l.state = "running" ∧ Running t c l.pid ∨ l.state = "stale"))
      (fun e a' => a' = a ∧ e = .notFound) a := by
  subst hd
  simp only [PidData.pid]
  cases hl : d.lookup "pid" with
  | none => exact ⟨rfl, .inr rfl⟩
  | some v =>
    have hsafe := hc v hl
    unfold SafePid at hsafe
    dsimp only
    cases hv : pyInt v with
    | error e =>
      rw [hv] at hsafe
      rcases pyInt_error_cases hv with rfl | he
      · exact absurd rfl hsafe
      · simp only [he, if_true]
        exact ⟨rfl, .inr rfl⟩
    | ok n =>
      rw [hv] at hsafe
      obtain ⟨b, hb⟩ := pidAlive_ok (t := t) hsafe.1
      simp only [hb]
      cases b with
      | false => exact ⟨rfl, .inr rfl⟩
      | true =>
        refine ⟨rfl, .inl ⟨rfl, d, rfl, ?_, hb⟩⟩
        rcases hsafe.2 with rfl | hdead
        · exact hl
        · rw [hb] at hdead
          cases hdead

/-- `liveness` gets through a readable record. -/
theorem always_liveness (hf : a.pid = some f) (hk : f.kind = .regular)
    (hc : ReadableRecord t f.content) :
    (liveness t.pidAlive).Always CalmStep (fun _ _ => True)
      (fun l a' => a' = a ∧ (l.state = "running" ∧ Running t f.content l.pid ∨ l.state = "stale"))
      (fun e a' => a' = a ∧ e = .notFound) a := by
  refine always_bind.2 (always_bind.2 ⟨trivial, fun r a' h => ?_⟩)
  obtain ⟨rfl, rfl⟩ := readPid_calm hf hk h
  cases hcon : f.content with
  | doc d => exact always_livenessOf rfl (hcon ▸ hc)
  | value v => cases v <;> first | exact ⟨rfl, rfl⟩ | exact ⟨rfl, .inr rfl⟩
  | malformed => exact ⟨rfl, rfl⟩
  | undecodable => rw [hcon] at hc; exact hc.elim
  | overlong => rw [hcon] at hc; exact hc.elim

/-- An undisturbed load of a state, if there is one. -/
theorem always_loadCalm {unit : String} {Q : Dict → Own → Prop} {E : Exc → Own → Prop}
    (ha : StateNumbered a) (hQ : Q (stateOf unit a.state) a) :
    (loadState unit).Always CalmStep (fun _ _ => True) Q E a := by
  refine always_bind.2 (always_bind.2 ⟨trivial, fun r a' h => ?_⟩)
  obtain ⟨⟨rfl, ⟨hs, rfl⟩ | ⟨c, hs, rfl⟩⟩, -⟩ := h <;> rw [hs] at hQ
  · exact hQ
  · rcases ha with hn | ⟨d, hd, -⟩
    · rw [hs] at hn
      cases hn
    · rw [hs] at hd
      cases hd
      exact hQ

/-- The observation of a unit with a readable record. -/
theorem always_observeUnit {units : List String} {unit : String} (hu : unit ∈ units)
    (ha : StateNumbered a) (hf : a.pid = some f) (hk : f.kind = .regular)
    (hc : ReadableRecord t f.content) :
    (observeUnit units t.pidAlive unit).Always CalmStep (fun _ _ => True)
      (fun o _ => (o.actual = "running" ∧ ∃ n, o.pid = some n ∧ Running t f.content n) ∨
        o.actual = "unknown" ∧ o.pid = none) (fun _ _ => False) a := by
  have hend : ∀ (actual : String) (pid : Option ℤ),
      (actual = "running" ∧ (∃ n, pid = some n ∧ Running t f.content n) ∨
      actual = "unknown" ∧ pid = none) → (do
        return ⟨unit, (stateOf unit a.state).get "desired", actual,
          ← liftExcept (pyInt ((stateOf unit a.state).get "generation")), pid,
          heartbeatOf (stateOf unit a.state)⟩ :
          UnitProg UnitObservation).Always CalmStep (fun _ _ => True)
        (fun o _ => (o.actual = "running" ∧ ∃ n, o.pid = some n ∧ Running t f.content n) ∨
          o.actual = "unknown" ∧ o.pid = none) (fun _ _ => False) a := by
    intro actual pid h
    obtain ⟨g, hg⟩ := ha.stateOf unit
    rw [hg]
    exact h
  simp only [observeUnit, not_true_eq_false, hu, if_false]
  refine always_bind.2 (always_loadCalm ha ?_)
  refine always_bind.2 ⟨trivial, fun r a' h => ?_⟩
  obtain ⟨⟨rfl, ⟨hn, -⟩ | ⟨f', hf', rfl⟩⟩, -⟩ := h
  · rw [hf] at hn
    cases hn
  refine always_bind.2 (always_handle.2
    (always_bind.2 ((always_liveness hf hk hc).mono (fun _ _ h => h) ?_ ?_)))
  · rintro l a' ⟨rfl, hl⟩
    simp only [pure_eq, always_ret, bind_eq, ret_bind]
    split_ifs with hrun
    · refine hend _ _ (.inl ⟨rfl, _, rfl, ?_⟩)
      exact (hl.resolve_right fun h => by rw [hrun] at h; exact absurd h (by decide)).2
    · exact hend _ _ (.inr ⟨rfl, rfl⟩)
  · rintro e a' ⟨rfl, rfl⟩
    exact hend _ _ (.inr ⟨rfl, rfl⟩)

end

/-- `liveness` and `observe_unit` end as they promise on a unit whose record has the
    content `c`, and report as running only a live process that an integer names. -/
structure Observes (t : ProcessTable) (units : List String) (unit : String) (w : UnitWorld)
    (c : Content) : Prop where
  liveness : (liveness t.pidAlive).Always UnitWorld.Undisturbed (fun _ _ => True)
    (fun l _ => l.state = "running" ∧ Running t c l.pid ∨ l.state = "stale")
      (fun e _ => e = .notFound) w
  observation : (observeUnit units t.pidAlive unit).Always UnitWorld.Undisturbed (fun _ _ => True)
    (fun o _ => (o.actual = "running" ∧ ∃ n, o.pid = some n ∧ Running t c n) ∨
      o.actual = "unknown" ∧ o.pid = none)
    (fun _ _ => False) w

/-- On an unreadable record `liveness` does not end so. -/
theorem readable_of_liveness {t : ProcessTable} {w : UnitWorld} {f : PidFile} (hf : w.pid = some f)
    (hk : f.kind = .regular)
    (h : (liveness t.pidAlive).Always UnitWorld.Undisturbed (fun _ _ => True)
      (fun l _ => l.state = "running" ∧ Running t f.content l.pid ∨ l.state = "stale")
      (fun e _ => e = .notFound) w) :
    ReadableRecord t f.content := by
  have hread : UnitWorld.Undisturbed .readPid w (.ok f.content)
      (w.record 0 .readPid (.ok f.content)) :=
    ⟨{}, rfl, rfl, by rw [UnitWorld.op_undisturbed rfl]; simp [UnitWorld.effect, hf, hk]⟩
  have hrest := h.2 _ _ hread
  cases hcon : f.content with
  | value v => trivial
  | malformed => trivial
  | undecodable => rw [hcon] at hrest; cases hrest
  | overlong => rw [hcon] at hrest; cases hrest
  | doc d =>
    rw [hcon] at hrest
    intro v hv
    unfold SafePid
    change Always _ _ _ _ (match PidData.pid (.inl d) with
      | .error e => if e.isCorruptPid then return ⟨0, "stale"⟩ else raise e
      | .ok pid => do
        if ← liftExcept (t.pidAlive pid) then return ⟨pid, "running"⟩
        return ⟨pid, "stale"⟩ : UnitProg Liveness) _ at hrest
    simp only [PidData.pid, hv] at hrest
    cases hpid : pyInt v with
    | error e =>
      rw [hpid] at hrest
      rintro rfl
      cases hrest
    | ok n =>
      simp only [hpid] at hrest
      cases halive : t.pidAlive n with
      | error e =>
        rw [halive] at hrest
        cases hrest
        exact absurd halive pidAlive_ne_notFound
      | ok b =>
        rw [halive] at hrest
        refine ⟨le_of_pidAlive halive, ?_⟩
        cases b with
        | false => exact .inr halive
        | true =>
          obtain ⟨-, d', hd', hl, -⟩ | hstale := hrest
          · cases hd'
            rw [hv] at hl
            exact .inl (Option.some.inj hl)
          · simp at hstale

/-- **Observation is total exactly over the readable records.** -/
theorem observes_iff {t : ProcessTable} {units : List String} {unit : String} {w : UnitWorld}
    {f : PidFile} (hu : unit ∈ units) (hf : w.pid = some f) (hk : f.kind = .regular)
    (hs : StateNumbered w.own) :
    Observes t units unit w f.content ↔ ReadableRecord t f.content := by
  constructor
  · exact fun h => readable_of_liveness hf hk h.liveness
  · intro hc
    refine ⟨?_, UnitWorld.always_undisturbed (always_observeUnit hu hs hf hk hc)⟩
    exact (UnitWorld.always_undisturbed (always_liveness hf hk hc)).mono (fun _ _ h => h)
      (fun _ _ h => h.2) fun _ _ h => h.2

/-- A unit `u` without state, whose `pid.json` has the content `c`. -/
def UnitWorld.holding (c : Content) : UnitWorld :=
  .init ∅ (fun i => i) (some ⟨0, .regular, c, true⟩) none []

/-- Process 7 is alive, and no other. -/
def seven : ProcessTable := ⟨fun pid => if pid = 7 then .sent else .noProcess, fun _ => some "S"⟩

theorem observes_seven :
    Observes seven ["u"] "u" (.holding (.doc (Dict.update ∅ [("pid", .int 7)])))
    (.doc (Dict.update ∅ [("pid", .int 7)])) := by
  refine (observes_iff (f := ⟨0, .regular, .doc (Dict.update ∅ [("pid", .int 7)]), true⟩)
    (by decide) rfl rfl (.inl rfl)).2 ?_
  intro v hv
  obtain rfl : Json.int 7 = v := Option.some.inj hv
  exact ⟨by decide, .inl rfl⟩

/-- **Bytes that are no UTF-8 stop every observation.** -/
theorem observation_stopped :
    ¬ ∀ (t : ProcessTable) (units : List String) (unit : String) (w : UnitWorld) (f : PidFile),
    unit ∈ units → w.pid = some f → f.kind = .regular → StateNumbered w.own →
    Observes t units unit w f.content :=
  fun h => readable_of_liveness (w := .holding .undecodable) rfl rfl
    (h seven ["u"] "u" (.holding .undecodable) ⟨0, .regular, .undecodable, true⟩ (by decide) rfl rfl
        (.inl rfl)).liveness

end DatasourceKit

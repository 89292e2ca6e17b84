/-
  What a pass reports and what it leaves in `state.json`.

  * `ReconcileOutcome.RecordedIn`: the state and the outcome agree;
  * `CleanPass`: the unit has a `pid.json`, or its state carries no mark of an earlier
    degradation that the pass would leave standing;
  * `outcome_recorded`: in every run whose passes are clean, the state after a pass agrees
    with its outcome; `outcome_stale`: after a degradation that has been cleared it need
    not.
-/
import DatasourceKit.Fleet.InTurn
import DatasourceKit.Fleet.Operations

namespace DatasourceKit

open Interleave Interleave.Prog Interleave.Machine

/-! ## Programs that save no state -/

def UnitOp.isSave : UnitOp → Bool
  | .replaceState _ => true
  | _ => false

theorem isSave_of_plain (o : UnitOp) (ho : o.isPlain = true) : o.isSave = false := by
  cases o <;> first | rfl | cases ho

/-! ## What a pass leaves -/

/-- The state records the outcome of a pass. -/
structure ReconcileOutcome.RecordedIn (o : ReconcileOutcome) (d : Dict) : Prop where
  desired : d.get "desired" = o.desired
  actual : d.get "actual" = .str o.actual
  generation : d.get "generation" = .int o.generation
  reason : d.get "degraded_reason" = (o.degradedReason.map Json.str).getD .null
  flag : d.get "operator_verification_required" = .bool true ↔ o.degradedReason.isSome

/-- The state has an integer for the generation. -/
def Numbered (d : Dict) : Prop := ∃ g, d.get "generation" = .int g

/-- There is no state yet, or a numbered one. -/
def StateNumbered (a : Own) : Prop := a.state = none ∨ ∃ d, a.state = some (.doc d) ∧ Numbered d

/-- Only numbered states are saved. -/
def SavesNumbered (o : UnitOp) (_ : Own) : Prop := ∀ d, o = .replaceState d → Numbered d

theorem savesNumbered_of_quiet (o : UnitOp) (a : Own) (ho : o.isQuiet = true) :
    SavesNumbered o a := by
  rintro d rfl
  cases ho

/-- What the operations beside a save leave. -/
theorem OwnStep.unsaved {o : UnitOp} {a a' : Own} {r : Except Exc o.Val} (ho : o.isSave = false)
    (h : OwnStep o a r a') : a'.state = a.state ∧ a'.call = a.call ∧ a'.saves = a.saves := by
  have hact : ∀ r a', o.acts a r a' → a'.state = a.state ∧ a'.call = a.call ∧
      a'.saves = a.saves := by
    intro r a' h
    cases o
    case replaceState => cases ho
    case uuid4 => obtain ⟨_, -, -, rfl⟩ := h; exact ⟨rfl, rfl, rfl⟩
    case createPid => rcases h with ⟨-, -, rfl⟩ | ⟨-, -, rfl⟩ <;> exact ⟨rfl, rfl, rfl⟩
    case replacePid => rcases h with ⟨-, rfl, -⟩ | ⟨-, -, _, rfl⟩ <;> exact ⟨rfl, rfl, rfl⟩
    case unlinkPid => rcases h with ⟨-, rfl⟩ | ⟨-, rfl⟩ <;> exact ⟨rfl, rfl, rfl⟩
    case popen => obtain ⟨_, -, rfl⟩ := h; exact ⟨rfl, rfl, rfl⟩
    case poll => obtain ⟨_, -, -, rfl⟩ := h; exact ⟨rfl, rfl, rfl⟩
    case writePid | syncPid | wait | setHandle | popHandle =>
      obtain ⟨-, rfl⟩ := h; exact ⟨rfl, rfl, rfl⟩
    all_goals rw [UnitOp.acts_quiet rfl h]; exact ⟨rfl, rfl, rfl⟩
  obtain ⟨-, h | ⟨f, -, rfl | ⟨r', h⟩⟩⟩ := h
  · exact hact r a' h
  · exact ⟨rfl, rfl, rfl⟩
  · exact hact r' a' h

theorem OwnStep.state {o : UnitOp} {a a' : Own} {r : Except Exc o.Val} (ho : o.isSave = false)
    (h : OwnStep o a r a') : a'.state = a.state := (h.unsaved ho).1

/-- A program that saves no state leaves the state. -/
theorem always_unsaved {α : Type} {p : UnitProg α} {a : Own} (hp : p.Uses (·.isSave = false)) :
    p.Always OwnStep SavesNumbered (fun _ a' => a'.state = a.state)
    (fun _ a' => a'.state = a.state) a :=
  Always.of_uses hp (fun o a' ho ha =>
    ⟨fun d hd => (by subst hd; cases ho), fun _ _ h => (h.state ho).trans ha⟩) rfl

theorem SavesNumbered.keeps {o : UnitOp} {a a' : Own} {r : Except Exc o.Val}
    (hg : SavesNumbered o a) (ha : StateNumbered a) (h : OwnStep o a r a') : StateNumbered a' := by
  by_cases ho : o.isSave = true
  swap
  · rw [StateNumbered, h.state (Bool.not_eq_true _ ▸ ho)]
    exact ha
  cases o <;> simp only [UnitOp.isSave, Bool.false_eq_true] at ho
  rename_i d
  have hnew : ∀ r a', (UnitOp.replaceState d).acts a r a' → StateNumbered a' := by
    rintro r a' ⟨-, rfl⟩
    exact .inr ⟨d, rfl, hg d rfl⟩
  obtain ⟨-, h | ⟨f, -, rfl | ⟨r', h⟩⟩⟩ := h
  · exact hnew _ _ h
  · exact ha
  · exact hnew _ _ h

section
variable {a : Own}

theorem always_unsaved' {α : Type} {p : UnitProg α} {Q : α → Own → Prop} {E : Exc → Own → Prop}
    (hp : p.Uses (·.isSave = false)) (hQ : ∀ v a', Q v a') (hE : ∀ e a', E e a') :
    p.Always OwnStep SavesNumbered Q E a :=
  (always_unsaved hp).mono (fun _ _ h => h) (fun v a _ => hQ v a) fun e a _ => hE e a

theorem always_saveOwn {encoded : Except Exc Dict} {Q : Unit → Own → Prop}
    (hnum : ∀ d, encoded = .ok d → Numbered d)
    (hQ : ∀ d a', encoded = .ok d → a'.state = some (.doc d) → Q () a') :
    (saveState encoded).Always OwnStep SavesNumbered Q (fun _ _ => True) a := by
  refine always_writeJson (J := fun _ => True) savesNumbered_of_quiet trivial
    (fun d hd => ⟨?_, fun _ _ _ => trivial⟩) fun d v a' hd h => ?_
  · rintro d' ⟨⟩
    exact hnum d hd
  · obtain ⟨-, rfl⟩ := h
    exact hQ d _ hd rfl

theorem always_lift {α : Type} {G : UnitOp → Own → Prop} {x : Except Exc α} {Q : α → Own → Prop}
    {E : Exc → Own → Prop} (hQ : ∀ v, x = .ok v → Q v a) (hE : ∀ e, x = .error e → E e a) :
    (liftExcept x).Always OwnStep G Q E a := by
  cases x with
  | ok v => exact hQ v rfl
  | error e => exact hE e rfl

/-- The outcome of the pass is recorded in the state. -/
def Recorded (o : ReconcileOutcome) (a : Own) : Prop :=
  ∃ d, a.state = some (.doc d) ∧ o.RecordedIn d

theorem Numbered.pyInt {s : Dict} {g : ℤ} (hs : Numbered s)
    (hg : pyInt (s.get "generation") = .ok g) :
    s.get "generation" = .int g := by
  obtain ⟨n, hn⟩ := hs
  rw [hn] at hg ⊢
  cases hg
  rfl

theorem recorded_tombstone {s : Dict} {actual : String} {b : Bool} {o : ReconcileOutcome}
    (hd : o.desired = (tombstoneState s actual b).get "desired") (ha : o.actual = actual)
    (hg : (tombstoneState s actual b).get "generation" = .int o.generation)
    (hr : o.degradedReason = some tombstoneReason) : o.RecordedIn (tombstoneState s actual b) where
  desired := hd.symm
  actual := by cases b <;> simp [tombstoneState, Dict.update, Dict.get_set_ne, ha]
  generation := hg
  reason := by cases b <;> simp [tombstoneState, Dict.update, Dict.get_set_ne, hr]
  flag := by cases b <;> simp [tombstoneState, Dict.update, Dict.get_set_ne, hr]

theorem Numbered.tombstoneState {s : Dict} (hs : Numbered s) (actual : String) (b : Bool) :
    Numbered (tombstoneState s actual b) := by
  obtain ⟨g, hg⟩ := hs
  exact ⟨g, (get_tombstoneState (by decide)).trans hg⟩

/-- A pass that finds a tombstone records its outcome. -/
theorem always_tombstonePass {spec : ProcessSpec} {s : Dict} {actual : String} {wantRunning : Bool}
    (hs : Numbered s) :
    (tombstonePass spec s actual wantRunning).Always OwnStep SavesNumbered Recorded
    (fun _ _ => True) a := by
  have hrest : ∀ (b : Bool) (a : Own), (do
      let state := DatasourceKit.tombstoneState s actual b
      saveState (dumps state)
      return ⟨spec.unit, "noop", state.get "desired", actual,
        ← liftExcept (pyInt (state.get "generation")), (state.get "pid").asInt,
        actual = "running", some tombstoneReason⟩ :
        UnitProg ReconcileOutcome).Always OwnStep SavesNumbered
          Recorded (fun _ _ => True) a := by
    intro b a
    refine always_bind.2 (always_saveOwn (fun d hd => ?_) fun d a' hd ha' => ?_)
    · exact dumps_ok hd ▸ hs.tombstoneState actual b
    · obtain rfl := dumps_ok hd
      refine always_bind.2 (always_lift (fun g hg => ?_) fun _ _ => trivial)
      exact ⟨_, ha', recorded_tombstone rfl rfl ((hs.tombstoneState actual b).pyInt hg) rfl⟩
  unfold tombstonePass
  cases wantRunning with
  | true => exact hrest false a
  | false =>
    refine always_bind.2 (always_handle.2 (always_bind.2 ?_))
    refine always_unsaved' (uses_stop isSave_of_plain fun _ => rfl)
      (fun r a' => hrest r.signalled a') fun e a' => ?_
    cases e <;> first | exact hrest false a' | exact trivial

/-- A pass that has nothing to stop records its outcome, if the state is not marked. -/
theorem always_stoppedPass {spec : ProcessSpec} {s : Dict} (hs : Numbered s)
    (hreason : s.get "degraded_reason" = .null)
    (hflag : s.get "operator_verification_required" ≠ .bool true) :
    (stoppedPass spec s).Always OwnStep SavesNumbered Recorded (fun _ _ => True) a := by
  have hnum : Numbered (s.set "actual" (.str "stopped")) := by
    obtain ⟨g, hg⟩ := hs
    exact ⟨g, (Dict.get_set_ne _ _ (by decide)).trans hg⟩
  refine always_bind.2 (always_saveOwn (fun d hd => ?_) fun d a' hd ha' => ?_)
  · exact dumps_ok hd ▸ hnum
  · obtain rfl := dumps_ok hd
    refine always_bind.2 (always_lift (fun g hg => ?_) fun _ _ => trivial)
    refine ⟨_, ha', rfl, Dict.get_set_self .., hnum.pyInt hg, ?_, ?_⟩
    · rw [Dict.get_set_ne _ _ (by decide), hreason]
      rfl
    · rw [Dict.get_set_ne _ _ (by decide)]
      simp [hflag]

theorem recorded_launched {s : Dict} {g : ℤ} {r : SpawnResult} {unit : String}
    (hreason : r.alive = true → s.get "degraded_reason" = .null) :
    ReconcileOutcome.RecordedIn ⟨unit, "spawned", (launchedState s g r).get "desired",
      if r.alive then "running" else "unknown", g, some r.pid, r.alive, if r.alive then
      none else some exitedReason⟩
      (launchedState s g r) where
  desired := rfl
  actual := by cases h : r.alive <;> simp [launchedState, Dict.update, Dict.get_set_ne, h]
  generation := generation_launchedState
  reason := by
    cases h : r.alive
    · simp [launchedState, h]
    · simp [launchedState, Dict.update, Dict.get_set_ne, h, hreason h]
  flag := by cases h : r.alive <;> simp [launchedState, Dict.update, Dict.get_set_ne, h]

/-- A pass that launches records its outcome, if the state names no degradation. -/
theorem always_launchPass {spec : ProcessSpec} {s : Dict} {rounds : ℕ} (hs : Numbered s)
    (hreason : s.get "degraded_reason" = .null) :
    (launchPass spec s rounds).Always OwnStep SavesNumbered Recorded (fun _ _ => True) a := by
  refine always_bind.2 (always_lift (fun g _ => ?_) fun _ _ => trivial)
  have hnone : ∀ a : Own, (do
      let state := tombstoneState s "unknown" false
      saveState (dumps state)
      return ⟨spec.unit, "noop", state.get "desired", "unknown",
        ← liftExcept (pyInt (state.get "generation")), none, false, some tombstoneReason⟩ :
          UnitProg ReconcileOutcome).Always OwnStep SavesNumbered Recorded (fun _ _ => True) a := by
    intro a
    refine always_bind.2 (always_saveOwn (fun d hd => ?_) fun d a' hd ha' => ?_)
    · exact dumps_ok hd ▸ hs.tombstoneState _ _
    · obtain rfl := dumps_ok hd
      refine always_bind.2 (always_lift (fun g hg => ?_) fun _ _ => trivial)
      exact ⟨_, ha', recorded_tombstone rfl rfl ((hs.tombstoneState _ _).pyInt hg) rfl⟩
  have hsome : ∀ (r : SpawnResult) (a : Own), (do
      let state := launchedState s (g + 1) r
      saveState (dumps state)
      return ⟨spec.unit, "spawned", state.get "desired", if r.alive then "running" else "unknown",
        g + 1, some r.pid, r.alive, if r.alive then none else some exitedReason⟩ :
          UnitProg ReconcileOutcome).Always OwnStep SavesNumbered Recorded (fun _ _ => True) a := by
    intro r a
    refine always_bind.2 (always_saveOwn (fun d hd => ?_) fun d a' hd ha' => ?_)
    · exact dumps_ok hd ▸ ⟨g + 1, generation_launchedState⟩
    · obtain rfl := dumps_ok hd
      exact ⟨_, ha', recorded_launched fun _ => hreason⟩
  refine always_bind.2 (always_handle.2 (always_bind.2 ?_))
  refine always_unsaved' (uses_spawn isSave_of_plain (fun _ _ => rfl) (fun _ _ _ _ _ _ => rfl)
    fun _ _ _ _ _ _ _ => rfl)
      (fun r a' => hsome r a') fun e a' => ?_
  cases e <;> first | exact hnone a' | exact trivial

end

/-- The state that a call works with is numbered. -/
theorem StateNumbered.stateOf {a : Own} (h : StateNumbered a) (unit : String) :
    Numbered (stateOf unit a.state) := by
  rcases h with h | ⟨d, h, g, hg⟩ <;> rw [h]
  · exact ⟨0, by simp [DatasourceKit.stateOf, backfill, defaultState, Dict.update, Dict.get_set_ne]⟩
  · exact ⟨g, get_backfill (by decide) (lookup_of_get hg (by simp))⟩

/-! ## Every run -/

/-- The unit has a tombstone, or its state names no degradation and, if the pass is to
    launch nothing, asks for no verification. -/
def CleanPass (unit : String) (policy : Dict → Except Exc Bool) (pid : Option PidFile)
    (state : Option Content) :
    Prop :=
  pid.isSome ∨ ((stateOf unit state).get "degraded_reason" = .null ∧
    (policy (stateOf unit state) = .ok true ∨
      (stateOf unit state).get "operator_verification_required" ≠ .bool true))

section
variable {a : Own}

theorem always_reconcileUnit {spec : ProcessSpec} {policy : Dict → Except Exc Bool} {rounds : ℕ}
    (ha : StateNumbered a) (hclean : CleanPass spec.unit policy a.pid a.state) :
    (reconcileUnit spec policy rounds).Always OwnStep SavesNumbered Recorded
    (fun _ _ => True) a := by
  refine always_locked (J := fun _ => True) savesNumbered_of_quiet trivial ?_
  suffices hbody : ∀ want actual, policy (stateOf spec.unit a.state) = .ok want →
      (actual = "stopped" → a.pid = none) → (if actual ≠ "stopped" then
          tombstonePass spec ((stateOf spec.unit a.state).set "actual" (.str actual)) actual want
        else if want then launchPass spec
        ((stateOf spec.unit a.state).set "actual" (.str actual)) rounds
        else stoppedPass spec ((stateOf spec.unit a.state).set "actual" (.str actual))).Always
        OwnStep SavesNumbered Recorded (fun _ _ => True) a by
    refine always_bind.2 (always_loadOwn savesNumbered_of_quiet ?_ fun _ => trivial)
    refine always_bind.2 (always_lift (fun want hwant => ?_) fun _ _ => trivial)
    refine always_bind.2 (always_observe savesNumbered_of_quiet (fun actual hactual => ?_)
      fun _ => trivial)
    exact (hbody want actual hwant hactual).mono (fun _ _ h => h) (fun _ _ h => ⟨trivial, h⟩)
      fun _ _ h => h
  intro want actual hwant hactual
  obtain ⟨g, hg⟩ := ha.stateOf spec.unit
  have hnum : Numbered ((stateOf spec.unit a.state).set "actual" (.str actual)) :=
    ⟨g, (Dict.get_set_ne _ _ (by decide)).trans hg⟩
  split_ifs with hne hw
  · exact always_tombstonePass hnum
  all_goals
    rw [ne_eq, not_not] at hne
    rcases hclean with hpid | ⟨hreason, hflag⟩
    · rw [hactual hne] at hpid
      cases hpid
  · exact always_launchPass hnum ((Dict.get_set_ne _ _ (by decide)).trans hreason)
  · refine always_stoppedPass hnum ((Dict.get_set_ne _ _ (by decide)).trans hreason) ?_
    rw [Dict.get_set_ne _ _ (by decide)]
    refine hflag.resolve_left ?_
    rw [hwant]
    rintro ⟨⟩
    exact hw rfl

theorem always_setDesiredOwn {unit desired : String} (ha : StateNumbered a) :
    (setDesired unit desired).Always OwnStep SavesNumbered (fun _ _ => True)
    (fun _ _ => True) a := by
  unfold setDesired
  split_ifs
  swap
  · exact trivial
  refine always_bind.2 (always_loadOwn savesNumbered_of_quiet ?_ fun _ => trivial)
  refine always_bind.2 (always_saveOwn (fun d hd => ?_) fun _ _ _ _ => trivial)
  obtain ⟨g, hg⟩ := ha.stateOf unit
  exact dumps_ok hd ▸ ⟨g, (Dict.get_set_ne _ _ (by decide)).trans hg⟩

theorem always_mergeHeartbeat {unit : String} {hb : PyDict} (ha : StateNumbered a) :
    (mergeHeartbeat unit hb).Always OwnStep SavesNumbered (fun _ _ => True)
    (fun _ _ => True) a := by
  refine always_bind.2 (always_loadOwn savesNumbered_of_quiet ?_ fun _ => trivial)
  split
  · exact trivial
  refine always_bind.2 (always_lift (fun n _ => ?_) fun _ _ => trivial)
  split_ifs
  · exact trivial
  refine always_bind.2 (always_saveOwn (fun d hd => ?_) fun d a' _ _ => ?_)
  · obtain ⟨g, hg⟩ := ha.stateOf unit
    exact ⟨g, (get_of_dumpsWith hd (opaqueEntries_ne (by decide))).trans hg⟩
  · exact always_lift (fun _ _ => trivial) fun _ _ => trivial

end

/-- What the end of a call shows of the state. -/
def UnitCall.recorded (_ : UnitCall) (r : Except Exc UnitAnswer) (a : Own) : Prop :=
  ∀ o, r = .ok (.outcome o) → Recorded o a

/-- The calls are made in turn, and every pass is clean. -/
def CleanPasses (c : UnitCfg) (act : UnitAct) : Prop :=
  InTurn c act ∧ ∀ spec policy rounds, act = .start 0 (.reconcile spec policy rounds) →
    CleanPass spec.unit policy c.sh.pid c.sh.state

theorem always_recorded {unit : String} {k : UnitCall} {a : Own} (ha : StateNumbered a)
    (hk : ∀ spec policy rounds, k = .reconcile spec policy rounds →
      CleanPass spec.unit policy a.pid a.state) :
    (k.code unit).Always OwnStep SavesNumbered (fun v => k.recorded (.ok v))
    (fun e => k.recorded (.error e)) a := by
  have hdone : ∀ {α : Type} {p : UnitProg α} {f : α → UnitAnswer}, (∀ v o, f v ≠ .outcome o) →
      p.Always OwnStep SavesNumbered (fun _ _ => True) (fun _ _ => True) a →
      (p.bind fun v => ret (f v)).Always OwnStep SavesNumbered (fun v => k.recorded (.ok v))
        (fun e => k.recorded (.error e)) a := fun hf hp =>
    always_bind.2 (hp.mono (fun _ _ h => h) (fun v _ _ o ho => absurd (Except.ok.inj ho) (hf v o))
      fun _ _ _ o ho => by cases ho)
  cases k with
  | reconcile spec policy rounds =>
    refine always_bind.2 ((always_reconcileUnit ha (hk _ _ _ rfl)).mono (fun _ _ h => h) ?_
        fun _ _ _ o ho => by cases ho)
    rintro o a ho o' ⟨⟩
    exact ho
  | setDesired desired => exact hdone (fun _ _ => by simp) (always_setDesiredOwn ha)
  | heartbeat hb => exact hdone (fun _ _ => by simp) (always_mergeHeartbeat ha)
  | spawn spec generation rounds =>
    exact hdone (fun _ _ => by simp) (always_unsaved' (uses_spawn isSave_of_plain (fun _ _ => rfl)
        (fun _ _ _ _ _ _ => rfl) fun _ _ _ _ _ _ _ => rfl) (fun _ _ => trivial) fun _ _ => trivial)
  | stop => exact hdone (fun _ _ => by simp) (always_unsaved'
    (uses_stop isSave_of_plain fun _ => rfl) (fun _ _ => trivial) fun _ _ => trivial)
  | clear q => exact hdone (fun _ _ => by simp) (always_unsaved' (uses_clear isSave_of_plain rfl)
    (fun _ _ => trivial) fun _ _ => trivial)
  | gate k fuel =>
    refine hdone (fun _ _ => by simp)
      (always_unsaved' (uses_execGate.mono fun o ho => ?_) (fun _ _ => trivial)
        fun _ _ => trivial)
    cases o <;> first | rfl | cases ho

theorem recorded_solo (unit : String) :
    Sole (fleet unit) CleanPasses 0 UnitWorld.own OwnStep (·.ofGate = true) StateNumbered
    SavesNumbered UnitCall.recorded := by
  refine fleet_solo (fun _ _ h => h.1) (fun c k hp _ hJ => ?_) fun a h => h
  refine (always_recorded (a := { c.sh.own with call := some k }) hJ ?_).keeping
    (fun o a r a' ha hg h => SavesNumbered.keeps hg ha h) hJ
  rintro spec policy rounds rfl
  exact hp.2 spec policy rounds rfl

/-- **After every pass the state agrees with its outcome**, in runs whose passes all find
    a tombstone or a state without marks. -/
theorem outcome_recorded {unit : String} {environ : Env} {proc : ℕ → ℕ} {pid : Option PidFile}
    {tokens : List String} {c : UnitCfg} {spec : ProcessSpec}
    {policy : Dict → Except Exc Bool} {rounds : ℕ} {o : ReconcileOutcome}
    (h : (fleet unit).Reach CleanPasses (idle (.init environ proc pid none tokens)) c)
    (hr : c.run 0 = some (.reconcile spec policy rounds, .ret (.outcome o))) :
    ∃ d, c.sh.state = some (.doc d) ∧ o.RecordedIn d :=
  (((recorded_solo unit).inv (.inl rfl) h).left _ _ hr).2 o rfl

def Json.isNull : Json → Bool
  | .null => true
  | _ => false

theorem Json.eq_null {v : Json} (h : v.isNull = true) : v = .null := by
  cases v <;> first | rfl | cases h

def cleanPass (unit : String) (policy : Dict → Except Exc Bool) (w : UnitWorld) : Bool :=
  w.pid.isSome || (((stateOf unit w.state).get "degraded_reason").isNull &&
    match policy (stateOf unit w.state) with
    | .ok b => b
    | .error _ => false)

theorem cleanPass_spec {unit : String} {policy : Dict → Except Exc Bool} {w : UnitWorld}
    (h : cleanPass unit policy w = true) : CleanPass unit policy w.pid w.state := by
  rcases (Bool.or_eq_true ..).mp h with h | h
  · exact .inl h
  · obtain ⟨hreason, hp⟩ := (Bool.and_eq_true ..).mp h
    refine .inr ⟨Json.eq_null hreason, .inl ?_⟩
    split at hp
    · rename_i b hb
      rw [hb, hp]
    · cases hp

def inTurn (i : ℕ) (k : UnitCall) : Bool := decide (i = 0) == !k.isGate

theorem inTurn_spec {c : UnitCfg} {i : ℕ} {k : UnitCall} (h : inTurn i k = true) :
    InTurn c (.start i k) := by
  simp only [inTurn, beq_iff_eq] at h
  show i = 0 ↔ k.isGate = false
  by_cases hi : i = 0 <;> simp_all

/-- The calls are made in turn. -/
def inTurnAct : UnitAct → Bool
  | .start i k => inTurn i k
  | _ => true

theorem inTurnAct_spec {c : UnitCfg} {act : UnitAct} (h : inTurnAct act = true) : InTurn c act := by
  cases act with
  | start i k => exact inTurn_spec h
  | _ => trivial

def cleanPasses (c : UnitCfg) : UnitAct → Bool
  | .start i k => inTurn i k &&
    match k with
    | .reconcile spec policy _ => cleanPass spec.unit policy c.sh
    | _ => true
  | _ => true

theorem cleanPasses_spec {c : UnitCfg} {act : UnitAct} (h : cleanPasses c act = true) :
    CleanPasses c act := by
  cases act with
  | start i k =>
    obtain ⟨hi, hk⟩ := (Bool.and_eq_true ..).mp h
    refine ⟨inTurn_spec hi, fun spec policy rounds he => ?_⟩
    cases he
    exact cleanPass_spec hk
  | _ => exact ⟨trivial, fun _ _ _ he => by cases he⟩

/-- A pass that launches child `k`, whose wrapper runs in thread `gate`, up to its end
    after `n` more operations. -/
def passSteps (token : String) (k gate n : ℕ) (env : UnitEnv) : List UnitAct :=
  [.start 0 (.reconcile consumer (fun _ => .ok true) 1)] ++ ops 0 23 (answers token) ++
    [.start gate (.gate k 5), .op gate (answers token)] ++ ops 0 n env

/-- The pass of thread 0 has returned an outcome that satisfies `p` with the state. -/
def reports (p : ReconcileOutcome → Dict → Bool) (c : UnitCfg) : Bool :=
  match c.run 0, c.sh.state with
  | some (.reconcile .., .ret (.outcome o)), some (.doc d) => p o d
  | _, _ => false

theorem reports_spec {p : ReconcileOutcome → Dict → Bool} {c : UnitCfg} (h : reports p c = true) :
    ∃ spec policy rounds o d, c.run 0 = some (.reconcile spec policy rounds, .ret (.outcome o)) ∧
      c.sh.state = some (.doc d) ∧ p o d = true := by
  unfold reports at h
  split at h
  · rename_i hr hs
    exact ⟨_, _, _, _, _, hr, hs, h⟩
  · cases h

theorem outcome_recorded_launch : ∃ c spec policy rounds o,
    (fleet "u").Reach CleanPasses emptyUnit c ∧
    c.run 0 = some (.reconcile spec policy rounds, .ret (.outcome o)) ∧ o.action = "spawned" ∧
    ∃ d, c.sh.state = some (.doc d) ∧ o.RecordedIn d := by
  obtain ⟨c, hc, hq, -⟩ :=
    Reach.exists_of_run (fleet "u") emptyUnit cleanPasses (passSteps "t" 0 2 29 (answers "t"))
    (reports fun o _ => o.action == "spawned") (fun _ _ => cleanPasses_spec) (by decide +kernel)
  obtain ⟨spec, policy, rounds, o, d, hr, -, ho⟩ := reports_spec hq
  exact ⟨c, spec, policy, rounds, o, hc, hr, by simpa using ho, outcome_recorded hc hr⟩

/-- A launch whose leader exits at once, a clearance, and a launch that goes well. -/
def relaunch : List UnitAct :=
  passSteps "t" 0 2 30 { answers "t" with exited := true } ++ [.finish 0] ++
    [.start 0 (.clear { unit := "u", generation := some 1, token := "t", asserted := true })] ++
    ops 0 18 (answers "") ++ [.finish 0] ++ passSteps "s" 1 3 29 (answers "s")

/-- **A cleared degradation stays in the state**: the pass after it reports none. -/
theorem outcome_stale : ¬ ∀ (unit : String) (environ : Env) (proc : ℕ → ℕ) (pid : Option PidFile)
    (tokens : List String) (c : UnitCfg) (spec : ProcessSpec)
    (policy : Dict → Except Exc Bool) (rounds : ℕ) (o : ReconcileOutcome),
    (fleet unit).Reach InTurn (idle (.init environ proc pid none tokens)) c →
    c.run 0 = some (.reconcile spec policy rounds, .ret (.outcome o)) →
    ∃ d, c.sh.state = some (.doc d) ∧ o.RecordedIn d := by
  intro h
  obtain ⟨c, hc, hq, -⟩ := Reach.exists_of_run (P := InTurn) (fleet "u") emptyUnit
    (fun _ act => inTurnAct act) relaunch
    (reports fun o d => o.degradedReason.isNone && !(d.get "degraded_reason").isNull)
    (fun _ _ => inTurnAct_spec) (by decide +kernel)
  obtain ⟨spec, policy, rounds, o, d, hr, hd, hp⟩ := reports_spec hq
  obtain ⟨d', hd', ho⟩ := h "u" ∅ _ none [] c spec policy rounds o hc hr
  rw [hd] at hd'
  cases hd'
  simp only [Bool.and_eq_true, Option.isNone_iff_eq_none, Bool.not_eq_true'] at hp
  have hnull := ho.reason
  rw [hp.1] at hnull
  rw [hnull] at hp
  cases hp.2

end DatasourceKit

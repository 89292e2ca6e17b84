/-
  `FetchIntent` (`fetch.py`): plan, fetch and persist around a named cursor.

  * `Cursor`, `FetchPlan`, `FetchObj`: the data; a cursor carries that its fields are not
    blank;
  * `FetchOp`: the calls of the intent on its planner, its fetcher and its `persist`
    callback, and those of the host that runs it;
  * `FetchIntent.call`: the methods of the intent, as programs for the host's calls;
    `FetchIntent.program`: a run of a host over the intent;
  * `FetchJustified`: the discipline of such runs, in terms of the intent's calls.
    `fetch_each`: any successive runs keep to it.
-/
import DatasourceKit.Value
import DatasourceKit.Worker.Discipline

namespace DatasourceKit

open Interleave Interleave.Prog

/-! ## Data -/

structure Cursor where
  kind : String
  value : String
  kind_text : isBlank kind = false
  value_text : isBlank value = false
deriving DecidableEq

/-- `Cursor(kind, value)`. -/
def Cursor.make {ε : Type} (kind value : String) : Except (HostExc ε) Cursor :=
  if hk : isBlank kind then .error (.validation "cursor kind must be a non-empty string")
  else if hv : isBlank value then .error (.validation "cursor value must be a non-empty string")
  else .ok ⟨kind, value, by simpa using hk, by simpa using hv⟩

theorem Cursor.make_self {ε : Type} (c : Cursor) : Cursor.make (ε := ε) c.kind c.value = .ok c := by
  simp [make, c.kind_text, c.value_text]

structure FetchPlan (Ref : Type) where
  ref : Ref
  cursor : Cursor

/-- The objects that a host and an intent pass around.  The fields of a mapping are those
    of a checkpoint, `none` if they are absent or no strings; `result` is the mapping with
    the key `payload`. -/
inductive FetchObj (Ref P : Type) where
  | null
  | cursor (c : Cursor)
  | mapping (kind value : Option String)
  | plan (p : FetchPlan Ref)
  | payload (x : P)
  | result (payload : FetchObj Ref P)
  | other

instance {Ref P : Type} : Inhabited (FetchObj Ref P) := ⟨.null⟩

/-- `Cursor.as_dict`. -/
def Cursor.asDict {Ref P : Type} (c : Cursor) :
    FetchObj Ref P := .mapping (some c.kind) (some c.value)

/-- What `checkpoint_after` of a planner may return. -/
inductive Advanced where
  | none
  | cursor (c : Cursor)
  | other

/-! ## Calls -/

/-- The calls of an intent and of its host. -/
inductive FetchOp (Ref P ε : Type) where
  | plan (cursor : Option Cursor)
  | checkpointAfter (payload : FetchObj Ref P) (plan : FetchPlan Ref)
  | fetch (ref : Ref)
  | persist (payload plan : FetchObj Ref P)
  | host (o : WorkerOp (FetchObj Ref P) ε)

abbrev FetchOp.Val {Ref P ε : Type} : FetchOp Ref P ε → Type
  | plan _ => Planned (FetchObj Ref P)
  | checkpointAfter _ _ => Advanced
  | fetch _ => P
  | persist _ _ => Unit
  | host o => o.Val

abbrev FetchProg (Ref P ε : Type) := Prog (@FetchOp.Val Ref P ε) (HostExc ε)

abbrev FetchHist (Ref P ε : Type) := Hist (@FetchOp.Val Ref P ε) (HostExc ε)

/-! ## The intent -/

/-- An intent, but for its planner and its callbacks, which answer its calls. -/
structure FetchIntent where
  exhausted : WorkDirective := .stop
  exhausted_ends : exhausted ≠ .cont := by decide

section
variable {Ref P ε : Type}

/-- `_cursor_from_checkpoint`. -/
def cursorFromCheckpoint : FetchObj Ref P → Except (HostExc ε) (Option Cursor)
  | .null => .ok none
  | .cursor c => .ok (some c)
  | .mapping (some kind) (some value) => (Cursor.make kind value).map some
  | .mapping _ _ => .error (.validation "Cursor requires kind and value strings")
  | .result _ => .error (.validation "Cursor requires kind and value strings")
  | _ => .error (.validation "checkpoint must be a Cursor, mapping, or None")

/-- `_require_plan`. -/
def requirePlan : FetchObj Ref P → Except (HostExc ε) (FetchPlan Ref)
  | .plan p => .ok p
  | _ => .error (.typeError "expected FetchPlan")

/-- The outcome of a pure part of a method. -/
def liftFetch {α : Type} : Except (HostExc ε) α → FetchProg Ref P ε α
  | .ok a => ret a
  | .error e => raise e

namespace FetchIntent

def plan (checkpoint : FetchObj Ref P) : FetchProg Ref P ε (Planned (FetchObj Ref P)) := do
  let cursor ← liftFetch (cursorFromCheckpoint checkpoint)
  match ← perform (FetchOp.plan cursor) with
  | .decision directive work =>
    match directive, work with
    | some .cont, .plan p => return .decision (some .cont) (.plan p)
    | some .cont, _ => raise (.typeError "CONTINUE work must be a FetchPlan")
    | directive, work => return .decision directive work
  | _ => raise (.typeError "planner.plan() must return StepDecision")

def fetch (plan : FetchObj Ref P) : FetchProg Ref P ε (FetchObj Ref P) := do
  let p ← liftFetch (requirePlan plan)
  return .payload (← perform (FetchOp.fetch p.ref))

/-- The output for what `checkpoint_after` has returned. -/
def outputOf (i : FetchIntent) (transformed : FetchObj Ref P) (current : FetchPlan Ref) :
    Advanced → Except (HostExc ε) (SourceOutput (FetchObj Ref P))
  | .none => .ok ⟨.result transformed, true, current.cursor.asDict, some i.exhausted⟩
  | .cursor c => .ok ⟨.result transformed, true, c.asDict, some .cont⟩
  | .other => .error (.typeError "planner.checkpoint_after() must return Cursor or None")

def output (i : FetchIntent) (transformed plan : FetchObj Ref P) :
    FetchProg Ref P ε (Option (SourceOutput (FetchObj Ref P))) := do
  let current ← liftFetch (requirePlan plan)
  let next ← perform (FetchOp.checkpointAfter transformed current)
  return some (← liftFetch (i.outputOf transformed current next))

/-- Only results of `output` are persisted. -/
def persist (result plan : FetchObj Ref P) : FetchProg Ref P ε Unit :=
  match result with
  | .result payload => perform (FetchOp.persist payload plan)
  | _ => raise (.typeError "result has no payload")

/-- How the intent answers the calls of its host; the others are those of the host.  The
    intent has an `output` method, and no `checkpoint` method. -/
def call (i : FetchIntent) : (o : WorkerOp (FetchObj Ref P) ε) → FetchProg Ref P ε o.Val
  | .plan c => plan c
  | .fetch p => fetch p
  | .transform x _ => ret x
  | .hasOutput => ret true
  | .output y p => i.output y p
  | .persist r p => persist r p
  | .hasCheckpoint => ret false
  | .checkpoint _ _ => raise (.typeError "no checkpoint method")
  | .acquire => perform (FetchOp.host .acquire)
  | .release => perform (FetchOp.host .release)
  | .load => perform (FetchOp.host .load)
  | .save c => perform (FetchOp.host (.save c))
  | .isSet => perform (FetchOp.host .isSet)
  | .stopWait s => perform (FetchOp.host (.stopWait s))
  | .sleep s => perform (FetchOp.host (.sleep s))
  | .now => perform (FetchOp.host .now)
  | .describe e => perform (FetchOp.host (.describe e))
  | .heartbeat event => perform (FetchOp.host (.heartbeat event))

/-- A run of a host over the intent. -/
def program (i : FetchIntent) (h : WorkerHost ε) (maxIterations : Option ℤ) (rounds : ℕ) :
    FetchProg Ref P ε (Option (WorkerRun (FetchObj Ref P))) :=
  (h.run maxIterations rounds).lower i.call

/-- The runs of hosts over the intent. -/
def IsRun (i : FetchIntent) (p : FetchProg Ref P ε (Option (WorkerRun (FetchObj Ref P)))) : Prop :=
  ∃ h maxIterations rounds, p = i.program h maxIterations rounds

end FetchIntent

/-! ## What a history shows -/

/-- The content of the checkpoint store, which is empty at first. -/
def fetchContent : FetchHist Ref P ε → FetchObj Ref P
  | [] => .null
  | ⟨.host (.save c), .ok _⟩ :: _ => c
  | _ :: u => fetchContent u

/-- A store that answers its content. -/
def FetchStore : (o : FetchOp Ref P ε) → Except (HostExc ε) o.Val → FetchHist Ref P ε → Prop
  | .host .load, .ok c, u => c = fetchContent u
  | _, _, _ => True

def FetchOp.isStage : FetchOp Ref P ε → Bool
  | plan _ | checkpointAfter _ _ | fetch _ | persist _ _ | host (.save _) => true
  | _ => false

/-- The calls of the intent, and the saves. -/
def fetchStages (u : FetchHist Ref P ε) : FetchHist Ref P ε := u.filter fun e => e.1.isStage

/-- The last call was `plan`, and answered `p`. -/
def HasPlanned (s : FetchHist Ref P ε) (p : FetchPlan Ref) : Prop :=
  ∃ cursor s', s = ⟨.plan cursor, .ok (.decision (some .cont) (.plan p))⟩ :: s'

/-- The last call was the fetch for `p`, and answered `x`. -/
def HasFetched (s : FetchHist Ref P ε) (p : FetchPlan Ref) (x : P) : Prop :=
  ∃ s', s = ⟨.fetch p.ref, .ok x⟩ :: s' ∧ HasPlanned s' p

/-- The last call was `checkpoint_after`, and answered `a`. -/
def HasAdvanced (s : FetchHist Ref P ε) (p : FetchPlan Ref) (x : P) (a : Advanced) : Prop :=
  a ≠ .other ∧ ∃ s', s = ⟨.checkpointAfter (.payload x) p, .ok a⟩ :: s' ∧ HasFetched s' p x

/-- The last call has persisted what was fetched. -/
def HasPersisted (s : FetchHist Ref P ε) (p : FetchPlan Ref) (x : P) (a : Advanced) : Prop :=
  ∃ s', s = ⟨.persist (.payload x) (.plan p), .ok ()⟩ :: s' ∧ HasAdvanced s' p x a

/-- The checkpoint after `p`. -/
def nextCheckpoint (p : FetchPlan Ref) : Advanced → FetchObj Ref P
  | .none => p.cursor.asDict
  | .cursor c => c.asDict
  | .other => .null

/-- When a call is made after the history `u`. -/
def FetchJustified (u : FetchHist Ref P ε) : FetchOp Ref P ε → Prop
  | .plan cursor => cursorFromCheckpoint (ε := ε) (fetchContent u) = .ok cursor
  | .fetch ref => ∃ p, HasPlanned (fetchStages u) p ∧ ref = p.ref
  | .checkpointAfter y p => ∃ x, HasFetched (fetchStages u) p x ∧ y = .payload x
  | .persist y w => ∃ p x a, HasAdvanced (fetchStages u) p x a ∧ y = .payload x ∧ w = .plan p
  | .host (.save c) => ∃ p x a, HasPersisted (fetchStages u) p x a ∧ c = nextCheckpoint p a
  | _ => True

/-- A page has just been persisted. -/
def JustPersisted (u : FetchHist Ref P ε) : Prop := ∃ y w u', u = ⟨.persist y w, .ok ()⟩ :: u'

/-- The commit, or the first call of another run. -/
def FetchOp.Commits (o : FetchOp Ref P ε) : Prop := o = .host .acquire ∨ ∃ c, o = .host (.save c)

def FetchGuard (o : FetchOp Ref P ε) (u : FetchHist Ref P ε) : Prop :=
  FetchJustified u o ∧ (JustPersisted u → o.Commits)

/-! ## The intent keeps to it -/

/-- The stages of the host and the calls of the intent are as far as each other. -/
inductive Matches : WorkerHist (FetchObj Ref P) ε → FetchHist Ref P ε → Prop
  | begun {r p v} : Matches [⟨.persist r p, .ok ()⟩] v
  | idle {s v} : (∀ e s', s = e :: s' → Ends e) → Matches s v
  | planned {c p s v} : HasPlanned v p →
      Matches (⟨.plan c, .ok (.decision (some .cont) (.plan p))⟩ :: s) v
  | fetched {p x s v} : HasFetched v p x → Matches (⟨.fetch (.plan p), .ok (.payload x)⟩ :: s) v
  | transformed {p x s v} : HasFetched v p x →
      Matches (⟨.transform (.payload x) (.plan p), .ok (.payload x)⟩ :: s) v
  | produced {y p x a out s v} : HasAdvanced v p x a → out.result = .result (.payload x) →
      out.checkpoint = nextCheckpoint p a → Matches (⟨.output y (.plan p), .ok (some out)⟩ :: s) v
  | persisted {y p x a r out s v} : HasPersisted v p x a → out.checkpoint = nextCheckpoint p a →
      Matches (⟨.persist r (.plan p), .ok ()⟩ :: ⟨.output y (.plan p), .ok (some out)⟩ :: s) v

section
variable {s : WorkerHist (FetchObj Ref P) ε} {v : FetchHist Ref P ε} {d : Planned (FetchObj Ref P)}
  {w y : FetchObj Ref P} {out : SourceOutput (FetchObj Ref P)}

theorem Matches.planned_inv (h : Matches s v) (hs : PlannedStage s d w) :
    ∃ p, w = .plan p ∧ HasPlanned v p := by
  obtain ⟨hw, c, s', rfl⟩ := hs
  cases h with
  | idle hends => exact absurd (hends _ _ rfl) (by simp [Ends, hw])
  | planned hp =>
    cases hw
    exact ⟨_, rfl, hp⟩

theorem Matches.fetched_inv (h : Matches s v) (hs : FetchedStage s d w y) :
    ∃ p x, w = .plan p ∧ y = .payload x ∧ HasFetched v p x := by
  obtain ⟨s', rfl, -⟩ := hs
  cases h with
  | idle hends => exact (hends _ _ rfl).elim
  | fetched hp => exact ⟨_, _, rfl, rfl, hp⟩

theorem Matches.transformed_inv (h : Matches s v) (hs : TransformedStage s d w y) :
    ∃ p x, w = .plan p ∧ y = .payload x ∧ HasFetched v p x := by
  obtain ⟨z, s', rfl, -⟩ := hs
  cases h with
  | idle hends => exact (hends _ _ rfl).elim
  | transformed hp => exact ⟨_, _, rfl, rfl, hp⟩

theorem Matches.produced_inv (h : Matches s v) (hs : ProducedStage s d w out) :
    ∃ p x a, w = .plan p ∧ HasAdvanced v p x a ∧ out.result = .result (.payload x) ∧
      out.checkpoint = nextCheckpoint p a := by
  obtain ⟨hwf, z, s', rfl, -⟩ := hs
  cases h with
  | idle hends => exact absurd hwf (hends _ _ rfl)
  | produced hp hr hc => exact ⟨_, _, _, rfl, hp, hr, hc⟩

theorem Matches.persisted_inv (h : Matches s v) (hs : PersistedStage s d w out) :
    ∃ p x a, HasPersisted v p x a ∧ out.checkpoint = nextCheckpoint p a := by
  obtain ⟨s', rfl, -, z, s'', rfl, -⟩ := hs
  cases h with
  | idle hends => exact (hends _ _ rfl).elim
  | persisted hp hc => exact ⟨_, _, _, hp, hc⟩

theorem Matches.not_late (h : Matches s v) : ¬ PersistedLate s d w y := by
  rintro ⟨s', rfl, z, s'', rfl, -⟩
  cases h with
  | idle hends => exact hends _ _ rfl

theorem Matches.not_named (h : Matches s v) : ¬ NamedStage s d w y := by
  rintro ⟨z, s', rfl, -⟩
  cases h with
  | idle hends => exact hends _ _ rfl

end

/-- The host is at `t`, and the intent at `u`. -/
structure Implements (c₀ : FetchObj Ref P) (t : WorkerHist (FetchObj Ref P) ε)
    (u : FetchHist Ref P ε) : Prop where
  content : content c₀ t = fetchContent u
  fresh : JustPersisted u → Fresh t
  stages : Matches (stages t) (fetchStages u)

/-- What a host over the intent is answered. -/
def IntentEnv (c₀ : FetchObj Ref P) (o : WorkerOp (FetchObj Ref P) ε) (r : Except (HostExc ε) o.Val)
    (t : WorkerHist (FetchObj Ref P) ε) : Prop := StoreEnv c₀ o r t ∧ OutputEnv o r t

section
variable {c₀ : FetchObj Ref P} {t : WorkerHist (FetchObj Ref P) ε} {u : FetchHist Ref P ε}
  {o : WorkerOp (FetchObj Ref P) ε}

theorem not_justPersisted {o : FetchOp Ref P ε} {r : Except (HostExc ε) o.Val}
    (ho : ∀ y w, o ≠ .persist y w) : ¬ JustPersisted (⟨o, r⟩ :: u) := by
  rintro ⟨y, w, u', h⟩
  cases h
  exact ho y w rfl

/-- Only a commit follows a persistence. -/
theorem Implements.commits (h : Implements c₀ t u) (hg : WorkerGuard c₀ o t)
    (hout : OutputGuard o t) (hu : JustPersisted u) : o = .acquire ∨ ∃ c, o = .save c := by
  have hc := hg.2 (h.fresh hu)
  cases o with
  | acquire => exact .inl rfl
  | save c => exact .inr ⟨c, rfl⟩
  | hasCheckpoint => exact hout.elim
  | _ => cases hc

/-- Calls of the host that are no stages. -/
theorem Implements.quiet (h : Implements c₀ t u) {r : Except (HostExc ε) o.Val}
    {u₁ : FetchHist Ref P ε} (ho : o.isStage = false) (hu : fetchContent u₁ = fetchContent u)
    (hf : ¬ JustPersisted u₁) (hs : fetchStages u₁ = fetchStages u) :
    Implements c₀ (⟨o, r⟩ :: t) u₁ := by
  refine ⟨?_, fun hj => absurd hj hf, ?_⟩
  · rw [content_of_not_stage ho, h.content, hu]
  · have hst : DatasourceKit.stages (⟨o, r⟩ :: t) = DatasourceKit.stages t := by
      simp [DatasourceKit.stages, ho]
    rw [hst, hs]
    exact h.stages

/-- A stage that is not the commit. -/
theorem Implements.stage (h : Implements c₀ t u) {r : Except (HostExc ε) o.Val}
    {u₁ : FetchHist Ref P ε} (ho : o.isStage = true) (hc : ∀ c, o ≠ .save c)
    (hu : fetchContent u₁ = fetchContent u) (hf : JustPersisted u₁ → Fresh (⟨o, r⟩ :: t))
    (hm : Matches (⟨o, r⟩ :: DatasourceKit.stages t) (fetchStages u₁)) :
    Implements c₀ (⟨o, r⟩ :: t) u₁ := by
  refine ⟨?_, hf, ?_⟩
  · have hct : DatasourceKit.content c₀ (⟨o, r⟩ :: t) = DatasourceKit.content c₀ t := by
      cases o <;> first | rfl | exact absurd rfl (hc _)
    rw [hct, h.content, hu]
  · have hst : DatasourceKit.stages (⟨o, r⟩ :: t) = ⟨o, r⟩ :: DatasourceKit.stages t := by
      simp [DatasourceKit.stages, ho]
    rw [hst]
    exact hm

/-- A stage that ends its iteration. -/
theorem Implements.ends (h : Implements c₀ t u) {r : Except (HostExc ε) o.Val}
    {u₁ : FetchHist Ref P ε} (ho : o.isStage = true) (hc : ∀ c, o ≠ .save c)
    (hu : fetchContent u₁ = fetchContent u) (hf : ¬ JustPersisted u₁) (he : Ends ⟨o, r⟩) :
    Implements c₀ (⟨o, r⟩ :: t) u₁ :=
  h.stage ho hc hu (fun hj => absurd hj hf) (.idle fun _ _ hs => by cases hs; exact he)

/-- How the call `o` of a host that is at `t` is to be answered. -/
abbrev Replied (c₀ : FetchObj Ref P) (o : WorkerOp (FetchObj Ref P) ε)
    (t : WorkerHist (FetchObj Ref P) ε) (r : Except (HostExc ε) o.Val)
    (u₁ : FetchHist Ref P ε) : Prop :=
  ∃ t₁, Records (IntentEnv c₀) o t r t₁ ∧ Implements c₀ t₁ u₁

/-- A call that the intent passes on. -/
theorem always_pass (h : Implements c₀ t u) (hs : o.isStage = false)
    (hhost : (FetchOp.host o : FetchOp Ref P ε).isStage = false)
    (hacquire : JustPersisted u → (FetchOp.host o).Commits)
    (henv : ∀ r, FetchStore (.host o) r u → IntentEnv c₀ o r t) :
    (perform (FetchOp.host o) : FetchProg Ref P ε o.Val).Always (Records FetchStore) FetchGuard
      (fun v => Replied c₀ o t (.ok v)) (fun e => Replied c₀ o t (.error e)) u := by
  have hj : FetchJustified u (.host o) := by
    cases o <;> first | exact trivial | cases hs
  have hq : ∀ r : Except (HostExc ε) o.Val, Implements c₀ (⟨o, r⟩ :: t) (⟨.host o, r⟩ :: u) := by
    refine fun r => h.quiet hs ?_ (not_justPersisted fun _ _ h => by cases h) ?_
    · cases o <;> first | rfl | cases hs
    · simp [fetchStages, hhost]
  exact always_event ⟨hj, hacquire⟩ (fun v hv => ⟨_, ⟨henv _ hv, rfl⟩, hq _⟩)
    fun e he => ⟨_, ⟨henv _ he, rfl⟩, hq _⟩

theorem always_plan {c : FetchObj Ref P} (h : Implements c₀ t u) (hc : c = content c₀ t)
    (hu : ¬ JustPersisted u) :
    (FetchIntent.plan c : FetchProg Ref P ε _).Always (Records FetchStore) FetchGuard
      (fun v => Replied c₀ (.plan c) t (.ok v)) (fun e => Replied c₀ (.plan c) t (.error e)) u := by
  have hend : ∀ (r : Except (HostExc ε) (Planned (FetchObj Ref P))) (u₁ : FetchHist Ref P ε),
      fetchContent u₁ = fetchContent u → ¬ JustPersisted u₁ → Ends ⟨.plan c, r⟩ →
          Replied c₀ (.plan c) t r u₁ :=
    fun r u₁ hu₁ hf he => ⟨_, ⟨⟨trivial, trivial⟩, rfl⟩, h.ends rfl (by simp) hu₁ hf he⟩
  rw [hc, h.content] at *
  unfold FetchIntent.plan
  cases hcur : cursorFromCheckpoint (ε := ε) (fetchContent u) with
  | error e => exact hend (.error e) u rfl hu trivial
  | ok cursor =>
    have hf : ∀ r, ¬ JustPersisted (⟨.plan cursor, r⟩ :: u) := fun r =>
      not_justPersisted fun _ _ h => by cases h
    refine always_bind.2 (always_ret.2 (always_bind.2 ?_))
    refine always_event ⟨hcur, fun hj => absurd hj hu⟩ (fun d _ => ?_)
      fun e _ => hend (.error e) _ rfl (hf _) trivial
    cases d with
    | decision directive work =>
      by_cases hp : ∃ p, directive = some .cont ∧ work = .plan p
      · obtain ⟨p, rfl, rfl⟩ := hp
        refine ⟨_, ⟨⟨trivial, trivial⟩, rfl⟩,
          h.stage rfl (by simp) rfl (fun hj => absurd hj (hf _)) ?_⟩
        exact .planned ⟨cursor, _, rfl⟩
      · cases directive with
        | none => exact hend _ _ rfl (hf _) rfl
        | some directive =>
          cases directive with
          | cont =>
            cases work with
            | plan p => exact absurd ⟨p, rfl, rfl⟩ hp
            | _ => exact hend _ _ rfl (hf _) trivial
          | _ => exact hend _ _ rfl (hf _) rfl
    | _ => exact hend _ _ rfl (hf _) trivial

theorem always_fetch {p : FetchPlan Ref} (h : Implements c₀ t u) (hp : HasPlanned (fetchStages u) p)
    (hu : ¬ JustPersisted u) :
    (FetchIntent.fetch (.plan p) : FetchProg Ref P ε (FetchObj Ref P)).Always (Records FetchStore)
    FetchGuard (fun v => Replied c₀ (.fetch (.plan p)) t (.ok v))
    (fun e => Replied c₀ (.fetch (.plan p)) t (.error e)) u := by
  have hf : ∀ r, ¬ JustPersisted (⟨.fetch p.ref, r⟩ :: u) := fun r =>
    not_justPersisted fun _ _ h => by cases h
  refine always_bind.2 (always_ret.2 (always_bind.2 ?_))
  refine always_event ⟨⟨p, hp, rfl⟩, fun hj => absurd hj hu⟩ (fun x _ => ?_) fun e _ => ?_
  · exact ⟨_, ⟨⟨trivial, trivial⟩, rfl⟩, h.stage rfl (by simp) rfl (fun hj => absurd hj (hf _))
      (.fetched ⟨_, rfl, hp⟩)⟩
  · exact ⟨_, ⟨⟨trivial, trivial⟩, rfl⟩, h.ends rfl (by simp) rfl (hf _) trivial⟩

theorem always_output (i : FetchIntent) {p : FetchPlan Ref} {x : P} (h : Implements c₀ t u)
    (hp : HasFetched (fetchStages u) p x) (hu : ¬ JustPersisted u) :
    (i.output (.payload x) (.plan p) : FetchProg Ref P ε _).Always (Records FetchStore) FetchGuard
      (fun v => Replied c₀ (.output (.payload x) (.plan p)) t (.ok v))
      (fun e => Replied c₀ (.output (.payload x) (.plan p)) t (.error e)) u := by
  have hf : ∀ r, ¬ JustPersisted (⟨.checkpointAfter (.payload x) p, r⟩ :: u) := fun r =>
    not_justPersisted fun _ _ h => by cases h
  refine always_bind.2 (always_ret.2 (always_bind.2 ?_))
  refine always_event ⟨⟨x, hp, rfl⟩, fun hj => absurd hj hu⟩ (fun a _ => ?_) fun e _ => ?_
  · have hadv : a ≠ .other →
        HasAdvanced (fetchStages (⟨.checkpointAfter (.payload x) p, .ok a⟩ :: u)) p x a :=
      fun ha => ⟨ha, _, rfl, hp⟩
    cases a with
    | other => exact ⟨_, ⟨⟨trivial, trivial⟩, rfl⟩, h.ends rfl (by simp) rfl (hf _) trivial⟩
    | none =>
      refine ⟨_, ⟨⟨trivial, trivial⟩, rfl⟩,
        h.stage rfl (by simp) rfl (fun hj => absurd hj (hf _)) ?_⟩
      exact .produced (hadv (by simp)) rfl rfl
    | cursor c =>
      refine ⟨_, ⟨⟨trivial, trivial⟩, rfl⟩,
        h.stage rfl (by simp) rfl (fun hj => absurd hj (hf _)) ?_⟩
      exact .produced (hadv (by simp)) rfl rfl
  · exact ⟨_, ⟨⟨trivial, trivial⟩, rfl⟩, h.ends rfl (by simp) rfl (hf _) trivial⟩

theorem always_persist {r y : FetchObj Ref P} {p : FetchPlan Ref} {x : P} {a : Advanced}
    {out : SourceOutput (FetchObj Ref P)} {s : WorkerHist (FetchObj Ref P) ε}
    (h : Implements c₀ t u) (hs : stages t = ⟨.output y (.plan p), .ok (some out)⟩ :: s)
    (hp : HasAdvanced (fetchStages u) p x a) (hr : r = .result (.payload x))
    (hc : out.checkpoint = nextCheckpoint p a) (hu : ¬ JustPersisted u) :
    (FetchIntent.persist r (.plan p) : FetchProg Ref P ε Unit).Always (Records FetchStore)
    FetchGuard (fun v => Replied c₀ (.persist r (.plan p)) t (.ok v))
      (fun e => Replied c₀ (.persist r (.plan p)) t (.error e)) u := by
  subst hr
  refine always_event ⟨⟨p, x, a, hp, rfl, rfl⟩, fun hj => absurd hj hu⟩ (fun _ _ => ?_)
    fun e _ => ?_
  · refine ⟨_, ⟨⟨trivial, trivial⟩, rfl⟩, h.stage rfl (by simp) rfl (fun _ => ⟨_, _, _, rfl⟩) ?_⟩
    rw [hs]
    exact .persisted ⟨_, rfl, hp⟩ hc
  · refine ⟨_, ⟨⟨trivial, trivial⟩, rfl⟩, h.ends rfl (by simp) rfl ?_ trivial⟩
    rintro ⟨_, _, _, hj⟩
    cases hj

theorem always_save {c : FetchObj Ref P} {p : FetchPlan Ref} {x : P} {a : Advanced}
    (h : Implements c₀ t u) (hp : HasPersisted (fetchStages u) p x a)
    (hc : c = nextCheckpoint p a) :
    (perform (FetchOp.host (.save c)) : FetchProg Ref P ε Unit).Always (Records FetchStore)
    FetchGuard (fun v => Replied c₀ (.save c) t (.ok v))
    (fun e => Replied c₀ (.save c) t (.error e)) u := by
  refine always_event ⟨⟨p, x, a, hp, hc⟩, fun _ => .inr ⟨c, rfl⟩⟩ (fun _ _ => ?_) fun e _ => ?_
  · exact ⟨_, ⟨⟨trivial, trivial⟩, rfl⟩, rfl, fun hj =>
      absurd hj (not_justPersisted fun _ _ h => by cases h), .idle
      fun _ _ hs => by cases hs; trivial⟩
  · exact ⟨_, ⟨⟨trivial, trivial⟩, rfl⟩, h.content,
      fun hj => absurd hj (not_justPersisted fun _ _ h => by cases h), .idle
      fun _ _ hs => by cases hs; trivial⟩

/-- **The intent answers every call** that a host makes. -/
theorem always_intent (i : FetchIntent) (h : Implements c₀ t u) (hg : WorkerGuard c₀ o t)
    (hout : OutputGuard o t) :
    (i.call o : FetchProg Ref P ε o.Val).Always (Records FetchStore) FetchGuard
      (fun v => Replied c₀ o t (.ok v)) (fun e => Replied c₀ o t (.error e)) u := by
  have hcommits := h.commits hg hout
  have hu : o ≠ .acquire → (∀ c, o ≠ .save c) → ¬ JustPersisted u := by
    intro ha hs hj
    rcases hcommits hj with ho | ⟨c, ho⟩
    · exact ha ho
    · exact hs c ho
  have hpass : ∀ (hs : o.isStage = false), (FetchOp.host o : FetchOp Ref P ε).isStage = false →
      (o ≠ .acquire → ¬ JustPersisted u) → (∀ r, FetchStore (.host o) r u → IntentEnv c₀ o r t) →
      (perform (FetchOp.host o) : FetchProg Ref P ε o.Val).Always (Records FetchStore) FetchGuard
        (fun v => Replied c₀ o t (.ok v)) (fun e => Replied c₀ o t (.error e)) u := by
    refine fun hs hhost hnot henv => always_pass h hs hhost (fun hj => ?_) henv
    by_cases ha : o = .acquire
    · exact .inl (by rw [ha])
    · exact absurd hj (hnot ha)
  cases o with
  | plan c => exact always_plan h hg.1 (hu (by simp) (by simp))
  | fetch p =>
    obtain ⟨d, hp⟩ := hg.1
    obtain ⟨p, rfl, hplanned⟩ := h.stages.planned_inv hp
    exact always_fetch h hplanned (hu (by simp) (by simp))
  | transform y p =>
    obtain ⟨d, hf⟩ := hg.1
    obtain ⟨p, x, rfl, rfl, hfetched⟩ := h.stages.fetched_inv hf
    exact ⟨_, ⟨⟨trivial, trivial⟩, rfl⟩, h.stage rfl (by simp) rfl
      (fun hj => absurd hj (hu (by simp) (by simp))) (.transformed hfetched)⟩
  | hasOutput => exact ⟨_, ⟨⟨trivial, rfl⟩, rfl⟩, h.quiet rfl rfl (hu (by simp) (by simp)) rfl⟩
  | output y p =>
    obtain ⟨d, hs⟩ := hg.1
    obtain ⟨p, x, rfl, rfl, hp⟩ := h.stages.transformed_inv hs
    exact always_output i h hp (hu (by simp) (by simp))
  | persist r p =>
    obtain ⟨z, out, s, hs⟩ := hout
    obtain ⟨d, ⟨out', hprod, rfl⟩ | ⟨x, s', htrans, -⟩⟩ := hg.1
    · obtain ⟨p, x, a, rfl, hadv, hr, hc⟩ := h.stages.produced_inv hprod
      obtain ⟨-, y, s', hs', -⟩ := hprod
      exact always_persist h hs' hadv hr hc (hu (by simp) (by simp))
    · rw [hs] at htrans
      cases htrans
  | hasCheckpoint => exact hout.elim
  | checkpoint y p => exact hout.elim
  | save c =>
    obtain ⟨d, p, ⟨out, hs, rfl⟩ | hs | ⟨y, hs, -⟩⟩ := hg.1
    · obtain ⟨p, x, a, hp, hc⟩ := h.stages.persisted_inv hs
      exact always_save h hp hc
    · exact absurd hs h.stages.not_named
    · exact absurd hs h.stages.not_late
  | load =>
    refine hpass rfl rfl (fun ha => hu ha (by simp)) fun r hr => ?_
    cases r with
    | error e => exact ⟨trivial, trivial⟩
    | ok c => exact ⟨Eq.trans hr h.content.symm, trivial⟩
  | _ => exact hpass rfl rfl (fun ha => hu ha (by simp)) fun _ _ => ⟨trivial, trivial⟩

/-- A host over an intent, which has an `output` method, keeps to both its disciplines. -/
theorem always_host (h : WorkerHost ε) (maxIterations : Option ℤ) (rounds : ℕ)
    (t : WorkerHist (FetchObj Ref P) ε) :
    (h.run maxIterations rounds).Always (Records (IntentEnv c₀))
    (fun o t => WorkerGuard c₀ o t ∧ OutputGuard o t) (fun _ _ => True) (fun _ _ => True) t := by
  have hworker : (h.run maxIterations rounds).Always (Records (IntentEnv c₀)) (WorkerGuard c₀)
      (Reports c₀ (plans t)) (fun _ _ => True) t :=
    (always_run h t).restrict fun _ _ _ _ hs => ⟨hs.1.1, hs.2⟩
  have houtput : (h.run maxIterations rounds).Always (Records (IntentEnv c₀)) OutputGuard
      (fun _ _ => True) (fun _ _ => True) t :=
    (everywhere_run h maxIterations rounds t).restrict fun _ _ _ _ hs => ⟨hs.1.2, hs.2⟩
  exact Always.mono (fun _ _ h => h) (fun _ _ _ => trivial)
    (fun _ _ _ => trivial) (hworker.and houtput)

/-- **A run of a host over the intent keeps to the discipline**, whatever came before it. -/
theorem always_program (i : FetchIntent) (h : WorkerHost ε) (maxIterations : Option ℤ) (rounds : ℕ)
    (u : FetchHist Ref P ε) :
    (i.program h maxIterations rounds).Always (Records FetchStore) FetchGuard (fun _ _ => True)
      (fun _ _ => True) u := by
  -- The host starts as if its last call were one that persisted.
  have hstart : Implements (fetchContent u) [⟨.persist .null .null, .ok ()⟩] u :=
    ⟨rfl, fun _ => ⟨_, _, _, rfl⟩, .begun⟩
  exact Always.mono (fun _ _ h => h) (fun _ _ _ => trivial) (fun _ _ _ => trivial)
    (Always.lower (Implements (fetchContent u)) (fun o t u h hg => always_intent i h hg.1 hg.2)
      (always_host h maxIterations rounds _) hstart)

/-- **Successive runs keep to the discipline**, each cut anywhere. -/
theorem fetch_each {env : (o : FetchOp Ref P ε) → Except (HostExc ε) o.Val → FetchHist Ref P ε →
      Prop}
    (henv : ∀ o r u, env o r u → FetchStore o r u) (i : FetchIntent) (h : Sessions env i.IsRun u) :
    Each (fun o r u => env o r u ∧ FetchGuard o u) u := by
  refine h.each ?_
  rintro _ ⟨h, maxIterations, rounds, rfl⟩ u₀ -
  exact (always_program i h maxIterations rounds u₀).restrict fun _ _ _ _ hs =>
    ⟨henv _ _ _ hs.1, hs.2⟩

end

/-! ## Planners -/

/-- `_require_kind`, and the like of it in `ResumePlanner`. -/
def requireKind [StrRepr] (kind : String) (cursor : Cursor) : Except (HostExc ε) Unit :=
  if cursor.kind = kind then .ok ()
  else .error (.validation
    ("cursor kind " ++ StrRepr.repr cursor.kind ++
      " does not match planner kind " ++ StrRepr.repr kind))

/-- A planner.  What `checkpoint_after` answers may depend on all the calls before. -/
structure CursorPlanner (Ref P ε : Type) where
  plan : Option Cursor → Except (HostExc ε) (Planned (FetchObj Ref P))
  checkpointAfter : FetchHist Ref P ε → FetchObj Ref P → FetchPlan Ref → Except (HostExc ε) Advanced

/-- The planner and the store answer for themselves, the other calls anything. -/
def CursorPlanner.Env (c : CursorPlanner Ref P ε) :
    (o : FetchOp Ref P ε) → Except (HostExc ε) o.Val → FetchHist Ref P ε → Prop
  | .plan cursor, r, _ => r = c.plan cursor
  | .checkpointAfter y p, r, u => r = c.checkpointAfter u y p
  | o, r, u => FetchStore o r u

/-- An event of runs over the planner. -/
def CursorPlanner.Allows (c : CursorPlanner Ref P ε) (o : FetchOp Ref P ε)
    (r : Except (HostExc ε) o.Val) (u : FetchHist Ref P ε) : Prop := c.Env o r u ∧ FetchGuard o u

/-- The answers of an environment where only saves may fail. -/
def CursorPlanner.answer (c : CursorPlanner Ref P ε) (fetcher : Ref → P)
    (saves : FetchHist Ref P ε →
    Except (HostExc ε) Unit) :
    (o : FetchOp Ref P ε) → FetchHist Ref P ε → Except (HostExc ε) o.Val
  | .plan cursor, _ => c.plan cursor
  | .checkpointAfter y p, u => c.checkpointAfter u y p
  | .fetch ref, _ => .ok (fetcher ref)
  | .persist _ _, _ => .ok ()
  | .host .load, u => .ok (fetchContent u)
  | .host (.save _), u => saves u
  | .host .acquire, _ | .host .hasOutput, _ => .ok true
  | .host .isSet, _ | .host .hasCheckpoint, _ => .ok false
  | .host (.plan _), _ => .ok .none
  | .host (.fetch _), _ | .host (.transform _ _), _ | .host (.checkpoint _ _), _ => .ok .null
  | .host (.output _ _), _ => .ok none
  | .host .now, _ | .host (.describe _), _ => .ok ""
  | .host .release, _ | .host (.persist _ _), _ | .host (.stopWait _), _ | .host (.sleep _), _
  | .host (.heartbeat _), _ => .ok ()

theorem CursorPlanner.answer_env (c : CursorPlanner Ref P ε) (fetcher : Ref → P)
    (saves : FetchHist Ref P ε → Except (HostExc ε) Unit) (o : FetchOp Ref P ε)
    (u : FetchHist Ref P ε) :
    c.Env o (c.answer fetcher saves o u) u := by
  cases o with
  | plan cursor => rfl
  | checkpointAfter y p => rfl
  | host o =>
    cases o with
    | load => rfl
    | _ => trivial
  | _ => trivial

/-- The last call belongs to the iteration that `p` is the plan of. -/
def IsWorking (s : FetchHist Ref P ε) (p : FetchPlan Ref) : Prop :=
  HasPlanned s p ∨ ∃ x, HasFetched s p x ∨ ∃ a, HasAdvanced s p x a ∨ HasPersisted s p x a

section
variable {c : CursorPlanner Ref P ε} {s u : FetchHist Ref P ε} {p : FetchPlan Ref}
  {x : P} {a : Advanced}

theorem CursorPlanner.each {i : FetchIntent} (h : Sessions c.Env i.IsRun u) : Each c.Allows u := by
  refine fetch_each (fun o r u ho => ?_) i h
  cases o <;> first | exact trivial | exact ho

theorem HasFetched.working (h : HasFetched s p x) : IsWorking s p := .inr ⟨x, .inl h⟩

theorem HasAdvanced.working (h : HasAdvanced s p x a) : IsWorking s p := .inr ⟨x, .inr ⟨a, .inl h⟩⟩

theorem HasPersisted.working (h : HasPersisted s p x a) :
    IsWorking s p := .inr ⟨x, .inr ⟨a, .inr h⟩⟩

/-- How an iteration has come to its last call. -/
theorem IsWorking.of_cons {o : FetchOp Ref P ε} {r : Except (HostExc ε) o.Val}
    (h : IsWorking (⟨o, r⟩ :: s) p) (ho : ∀ cursor, o ≠ .plan cursor) :
    IsWorking s p ∧ ∀ c, o ≠ .host (.save c) := by
  obtain ⟨cursor, s', hs⟩ | ⟨x, ⟨s', hs, hp⟩ | ⟨a, ⟨-, s', hs, hf⟩ | ⟨s', hs, ha⟩⟩⟩ := h
  · cases hs
    exact absurd rfl (ho cursor)
  · cases hs
    exact ⟨.inl hp, by simp⟩
  · cases hs
    exact ⟨hf.working, by simp⟩
  · cases hs
    exact ⟨ha.working, by simp⟩

/-- What `checkpoint_after` has answered for the page that is being worked on. -/
theorem HasAdvanced.answer (h : HasAdvanced (fetchStages u) p x a) (hu : Each c.Allows u) :
    ∃ u₁ u₂, u = u₂ ++ ⟨.checkpointAfter (.payload x) p, .ok a⟩ :: u₁ ∧
    HasFetched (fetchStages u₁) p x ∧ c.checkpointAfter u₁ (.payload x) p = .ok a := by
  obtain ⟨-, s', hs, hf⟩ := h
  obtain ⟨u₂, u₁, rfl, -, -, rfl⟩ := List.filter_eq_cons_iff.1 hs
  exact ⟨u₁, u₂, rfl, hf, hu.of_append.1.1.symm⟩

theorem HasPersisted.answer (h : HasPersisted (fetchStages u) p x a) (hu : Each c.Allows u) :
    ∃ u₁ u₂, u = u₂ ++ ⟨.checkpointAfter (.payload x) p, .ok a⟩ :: u₁ ∧
    HasFetched (fetchStages u₁) p x ∧ c.checkpointAfter u₁ (.payload x) p = .ok a := by
  obtain ⟨s', hs, hadv⟩ := h
  obtain ⟨u₃, u₀, rfl, -, -, rfl⟩ := List.filter_eq_cons_iff.1 hs
  obtain ⟨u₁, u₂, rfl, hf, ha⟩ := hadv.answer hu.of_append.2
  exact ⟨u₁, u₃ ++ ⟨.persist (.payload x) (.plan p), .ok ()⟩ :: u₂, by simp, hf, ha⟩

end

end

end DatasourceKit

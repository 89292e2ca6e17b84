/-
  The checkpoint discipline of a run: `checkpoint_discipline`.

  * `content`, `plans`, `stages`: the content of the checkpoint store, the number of
    iterations and the stages called, read off a history;
  * `Justified`: when each stage may be called: with the answers of the stages before it
    in the same iteration.  `always_run`: the host keeps to it, whatever is answered;
  * `Ends`: the answers after which an iteration calls no further stage.
-/
import DatasourceKit.Worker.Host

namespace DatasourceKit

open Interleave Interleave.Prog

abbrev WorkerHist (Obj ε : Type) := Hist (@WorkerOp.Val Obj ε) (HostExc ε)

section
variable {Obj ε : Type}

/-! ## What a history shows -/

/-- The content of the store: the last successful save, at first `c₀`. -/
def content (c₀ : Obj) : WorkerHist Obj ε → Obj
  | [] => c₀
  | ⟨.save c, .ok _⟩ :: _ => c
  | _ :: t => content c₀ t

/-- A store that answers its content. -/
def StoreEnv (c₀ : Obj) :
    (o : WorkerOp Obj ε) → Except (HostExc ε) o.Val → WorkerHist Obj ε → Prop
  | .load, .ok c, t => c = content c₀ t
  | _, _, _ => True

def WorkerOp.isStage : WorkerOp Obj ε → Bool
  | plan _ | fetch _ | transform _ _ | output _ _ | persist _ _ | checkpoint _ _ | save _ => true
  | _ => false

def WorkerOp.isPlan : WorkerOp Obj ε → Bool
  | plan _ => true
  | _ => false

/-- The stages called. -/
def stages (t : WorkerHist Obj ε) : WorkerHist Obj ε := t.filter fun e => e.1.isStage

/-- How often `plan` has been called. -/
def plans (t : WorkerHist Obj ε) : ℕ := t.countP fun e => e.1.isPlan

/-- The work of a `CONTINUE` plan. -/
def Planned.work : Planned Obj → Option Obj
  | .step plan _ => some plan
  | .decision (some .cont) work => some work
  | _ => .none

/-- The checkpoint of a `WorkerStep`. -/
def Planned.legacy : Planned Obj → Option Obj
  | .step _ checkpoint => some checkpoint
  | _ => .none

def SourceOutput.WellFormed (out : SourceOutput Obj) : Prop :=
  out.isMapping = true ∧ out.directive.isSome = true

/-- The last stage was `plan`, and answered the work `p`. -/
def PlannedStage (s : WorkerHist Obj ε) (d : Planned Obj) (p : Obj) : Prop :=
  d.work = some p ∧ ∃ c s', s = ⟨.plan c, .ok d⟩ :: s'

/-- The last stage was the fetch for the plan `p`, and answered `x`. -/
def FetchedStage (s : WorkerHist Obj ε) (d : Planned Obj) (p x : Obj) : Prop :=
  ∃ s', s = ⟨.fetch p, .ok x⟩ :: s' ∧ PlannedStage s' d p

/-- The last stage was the transformation of what was fetched, and answered `y`. -/
def TransformedStage (s : WorkerHist Obj ε) (d : Planned Obj) (p y : Obj) : Prop :=
  ∃ x s', s = ⟨.transform x p, .ok y⟩ :: s' ∧ FetchedStage s' d p x

/-- The last stage was `output`, and answered a well-formed output. -/
def ProducedStage (s : WorkerHist Obj ε) (d : Planned Obj) (p : Obj)
    (out : SourceOutput Obj) : Prop :=
  out.WellFormed ∧ ∃ y s', s = ⟨.output y p, .ok (some out)⟩ :: s' ∧ TransformedStage s' d p y

/-- The last stage has persisted the output. -/
def PersistedStage (s : WorkerHist Obj ε) (d : Planned Obj) (p : Obj)
    (out : SourceOutput Obj) : Prop :=
  ∃ s', s = ⟨.persist out.result p, .ok ()⟩ :: s' ∧ ProducedStage s' d p out

/-- The last stage has persisted what was transformed. -/
def PersistedLate (s : WorkerHist Obj ε) (d : Planned Obj) (p y : Obj) : Prop :=
  ∃ s', s = ⟨.persist y p, .ok ()⟩ :: s' ∧ TransformedStage s' d p y

/-- The last stage was `checkpoint`, after the persistence, and answered `c`. -/
def NamedStage (s : WorkerHist Obj ε) (d : Planned Obj) (p c : Obj) : Prop :=
  ∃ y s', s = ⟨.checkpoint y p, .ok c⟩ :: s' ∧ PersistedLate s' d p y

/-- When a stage may be called after the history `t`. -/
def Justified (c₀ : Obj) (t : WorkerHist Obj ε) : WorkerOp Obj ε → Prop
  | .plan c => c = content c₀ t
  | .fetch p => ∃ d, PlannedStage (stages t) d p
  | .transform x p => ∃ d, FetchedStage (stages t) d p x
  | .output y p => ∃ d, TransformedStage (stages t) d p y
  | .persist r p => ∃ d, (∃ out, ProducedStage (stages t) d p out ∧ r = out.result) ∨
      TransformedStage (stages t) d p r
  | .checkpoint y p => ∃ d, PersistedLate (stages t) d p y
  | .save c => ∃ d p, (∃ out, PersistedStage (stages t) d p out ∧ c = out.checkpoint) ∨
      NamedStage (stages t) d p c ∨ ∃ y, PersistedLate (stages t) d p y ∧ d.legacy = some c
  | _ => True

/-- The result has just been persisted. -/
def Fresh (t : WorkerHist Obj ε) : Prop := ∃ r p t', t = ⟨.persist r p, .ok ()⟩ :: t'

/-- The calls that can follow a persistence: towards the commit, or of a new run. -/
def WorkerOp.commits : WorkerOp Obj ε → Bool
  | save _ | hasCheckpoint | acquire => true
  | _ => false

/-- When the host performs an operation. -/
def WorkerGuard (c₀ : Obj) (o : WorkerOp Obj ε) (t : WorkerHist Obj ε) : Prop :=
  Justified c₀ t o ∧ (Fresh t → o.commits = true)

/-- The stage ends its iteration: it raises, it is no plan to work, no proper output, or
    it is the commit. -/
def Ends (e : Event (@WorkerOp.Val Obj ε) (HostExc ε)) : Prop :=
  match e with
  | ⟨_, .error _⟩ => True
  | ⟨.plan _, .ok d⟩ => d.work = none
  | ⟨.output _ _, .ok none⟩ => True
  | ⟨.output _ _, .ok (some out)⟩ => ¬ out.WellFormed
  | ⟨.save _, .ok _⟩ => True
  | _ => False

/-! ## The host keeps to it -/

/-- The store holds `c`, `n` iterations have begun, and the stages so far are `s`. -/
structure At (c₀ c : Obj) (n : ℕ) (s t : WorkerHist Obj ε) : Prop where
  content : content c₀ t = c
  plans : plans t = n
  stages : stages t = s

variable {c₀ c : Obj} {n : ℕ} {s t : WorkerHist Obj ε} {o : WorkerOp Obj ε}
  {r : Except (HostExc ε) o.Val}

theorem At.refl (c₀ : Obj) (t : WorkerHist Obj ε) :
    At c₀ (DatasourceKit.content c₀ t) (DatasourceKit.plans t) (DatasourceKit.stages t) t :=
    ⟨rfl, rfl, rfl⟩

theorem content_of_not_stage (ho : o.isStage = false) :
    content c₀ (⟨o, r⟩ :: t) = content c₀ t := by
  cases o <;> first | rfl | cases ho

theorem At.quiet (h : At c₀ c n s t) (ho : o.isStage = false) : At c₀ c n s (⟨o, r⟩ :: t) := by
  refine ⟨(content_of_not_stage ho).trans h.content, ?_, ?_⟩
  · rw [← h.plans]
    cases o <;> first | rfl | cases ho
  · rw [← h.stages]
    cases o <;> first | rfl | cases ho

/-- A stage that is neither the planning nor the commit. -/
theorem At.stage (h : At c₀ c n s t) (ho : o.isStage = true) (hp : o.isPlan = false)
    (hc : ∀ c, o ≠ .save c) : At c₀ c n (⟨o, r⟩ :: s) (⟨o, r⟩ :: t) := by
  refine ⟨?_, ?_, ?_⟩
  · rw [← h.content]
    cases o <;> first | rfl | exact absurd rfl (hc _)
  · rw [← h.plans]
    simp [DatasourceKit.plans, hp]
  · rw [← h.stages]
    simp [DatasourceKit.stages, ho]

theorem not_fresh (ho : ∀ r p, o ≠ .persist r p) : ¬ Fresh (⟨o, r⟩ :: t) := by
  rintro ⟨r', p, t', h⟩
  cases h
  exact ho r' p rfl

theorem not_fresh_error {e : HostExc ε} : ¬ Fresh (⟨o, .error e⟩ :: t) := by
  rintro ⟨r', p, t', h⟩
  cases h

theorem justified_of_not_stage (ho : o.isStage = false) : Justified c₀ t o := by
  cases o <;> trivial

/-- Operations that are no stages keep what is known. -/
theorem always_quiet_ops {α : Type} {p : WorkerProg Obj ε α} (hp : p.Uses (·.isStage = false))
    (h : At c₀ c n s t) (hf : ¬ Fresh t) :
    p.Always (Records (StoreEnv c₀)) (WorkerGuard c₀) (fun _ t => At c₀ c n s t ∧ ¬ Fresh t)
      (fun _ t => At c₀ c n s t ∧ ¬ Fresh t) t := by
  refine Always.of_uses (J := fun t => At c₀ c n s t ∧ ¬ Fresh t) hp (fun o t ho ht => ?_) ⟨h, hf⟩
  refine ⟨⟨justified_of_not_stage ho, fun hf => absurd hf ht.2⟩, ?_⟩
  rintro r t' ⟨-, rfl⟩
  exact ⟨ht.1.quiet ho, not_fresh fun r p h => by rw [h] at ho; cases ho⟩

variable (h : WorkerHost ε)

theorem emit_uses {A : WorkerOp Obj ε → Prop} (hnow : A .now) (hdescribe : ∀ e, A (.describe e))
    (hbeat : ∀ event, A (.heartbeat event)) {state : String} {v : Loop Obj}
    {error : Option (HostExc ε)} {retryIn : Option ℚ} : (h.emit state v error retryIn).Uses A := by
  unfold WorkerHost.emit
  split_ifs
  · trivial
  · refine Uses.bind (uses_perform hnow) fun timestamp => ?_
    refine Uses.bind ?_ fun text => ?_
    · cases error with
      | none => trivial
      | some e => exact uses_perform (hdescribe e)
    · refine Uses.handle (uses_perform (hbeat _)) fun e => ?_
      split_ifs <;> trivial

theorem wait_uses {A : WorkerOp Obj ε → Prop} (hwait : ∀ s, A (.stopWait s)) (hset : A .isSet)
    (hsleep : ∀ s, A (.sleep s)) {seconds : ℚ} : (h.wait seconds).Uses A := by
  unfold WorkerHost.wait
  split_ifs
  · exact uses_perform (hwait _)
  · refine Uses.bind (uses_perform hset) fun b => ?_
    split_ifs
    · exact uses_perform (hsleep _)
    · trivial

theorem uses_emit {state : String} {v : Loop Obj} {error : Option (HostExc ε)}
    {retryIn : Option ℚ} :
    (h.emit state v error retryIn).Uses (·.isStage = false) :=
  emit_uses (A := (·.isStage = false)) h rfl (fun _ => rfl) fun _ => rfl

theorem uses_wait {seconds : ℚ} :
    (h.wait seconds : WorkerProg Obj ε Unit).Uses (·.isStage = false) :=
  wait_uses (A := (·.isStage = false)) h (fun _ => rfl) rfl fun _ => rfl

/-- Between two iterations. -/
structure Resting (c₀ c : Obj) (n : ℕ) (t : WorkerHist Obj ε) : Prop where
  content : content c₀ t = c
  plans : plans t = n
  settled : ¬ Fresh t

theorem At.settled (h : At c₀ c n s t) (hf : ¬ Fresh t) :
    Resting c₀ c n t := ⟨h.content, h.plans, hf⟩

theorem Resting.at (h : Resting c₀ c n t) : At c₀ c n (DatasourceKit.stages t) t :=
  ⟨h.content, h.plans, rfl⟩

theorem always_settled {α : Type} {p : WorkerProg Obj ε α} (hp : p.Uses (·.isStage = false))
    (h : Resting c₀ c n t) :
    p.Always (Records (StoreEnv c₀)) (WorkerGuard c₀) (fun _ => Resting c₀ c n)
      (fun _ => Resting c₀ c n) t :=
  Always.mono (fun _ _ h => h) (fun _ _ h => h.1.settled h.2) (fun _ _ h => h.1.settled h.2)
    (always_quiet_ops hp h.at h.settled)

/-- A stage that is neither the planning nor the commit: how it is called, and what it leaves. -/
theorem always_stage {Q : o.Val → WorkerHist Obj ε → Prop} (h : At c₀ c n s t) (hf : ¬ Fresh t)
    (ho : o.isStage = true) (hp : o.isPlan = false) (hc : ∀ c, o ≠ .save c) (hj : Justified c₀ t o)
    (hQ : ∀ v, At c₀ c n (⟨o, .ok v⟩ :: s) (⟨o, .ok v⟩ :: t) → Q v (⟨o, .ok v⟩ :: t)) :
    (perform o).Always (Records (StoreEnv c₀)) (WorkerGuard c₀) Q (fun _ => Resting c₀ c n) t :=
  always_event ⟨hj, fun hf' => absurd hf' hf⟩ (fun v _ => hQ v (h.stage ho hp hc))
    fun _ _ => (h.stage ho hp hc).settled not_fresh_error

theorem always_planStage {v : Loop Obj} (hv : Resting c₀ v.checkpoint n t) :
    (WorkerHost.planStage (ε := ε) v).Always (Records (StoreEnv c₀)) (WorkerGuard c₀)
      (fun d t => Resting c₀ v.checkpoint (n + 1) t ∧ ∀ p legacy, d = .work p legacy →
        ∃ pl, PlannedStage (stages t) pl p ∧ pl.legacy = legacy)
      (fun _ => Resting c₀ v.checkpoint (n + 1)) t := by
  have hplan : ∀ r, Resting c₀ v.checkpoint (n + 1) (⟨.plan v.checkpoint, r⟩ :: t) := by
    intro r
    refine ⟨hv.content, ?_, not_fresh fun _ _ h => by cases h⟩
    rw [← hv.plans]
    simp [plans, WorkerOp.isPlan]
  refine always_bind.2 (always_event ⟨hv.content.symm, fun hf => absurd hf hv.settled⟩ ?_
    fun e _ => hplan _)
  intro pl _
  have hidle : ∀ d : Decision Obj, (∀ p legacy, d ≠ .work p legacy) →
      Resting c₀ v.checkpoint (n + 1) (⟨.plan v.checkpoint, .ok pl⟩ :: t) ∧
        ∀ p legacy, d = .work p legacy →
        ∃ pl', PlannedStage (stages (⟨.plan v.checkpoint, .ok pl⟩ :: t)) pl' p ∧
        pl'.legacy = legacy :=
    fun d hd => ⟨hplan _, fun p legacy h => absurd h (hd p legacy)⟩
  match pl with
  | .none => exact hidle _ fun _ _ h => by cases h
  | .step p c => exact ⟨hplan _, fun _ _ h => by cases h; exact ⟨.step p c, ⟨rfl, _, _, rfl⟩, rfl⟩⟩
  | .decision (some .stop) _ => exact hidle _ fun _ _ h => by cases h
  | .decision (some .idle) _ => exact hidle _ fun _ _ h => by cases h
  | .decision (some .cont) w =>
    exact ⟨hplan _, fun _ _ h => by cases h; exact ⟨.decision (some .cont) w, ⟨rfl, _, _, rfl⟩, rfl⟩⟩
  | .decision none _ => exact hplan _
  | .other => exact hplan _

theorem always_outputStage {d : Planned Obj} {p y : Obj} (h : At c₀ c n s t) (hf : ¬ Fresh t)
    (hs : TransformedStage s d p y) :
    (WorkerHost.outputStage (ε := ε) y p).Always (Records (StoreEnv c₀)) (WorkerGuard c₀)
      (fun next t => (∃ s, At c₀ c n s t) ∧ Justified c₀ t (.save next.1))
      (fun _ => Resting c₀ c n) t := by
  refine always_bind.2 (always_stage h hf rfl rfl (by simp) ⟨d, h.stages ▸ hs⟩ fun output hat => ?_)
  have hnf : ¬ Fresh (⟨.output y p, .ok output⟩ :: t) := not_fresh fun _ _ h => by cases h
  cases output with
  | none => exact hat.settled hnf
  | some output =>
    dsimp only
    split_ifs with hm
    · exact hat.settled hnf
    · cases hd : output.directive with
      | none => exact hat.settled hnf
      | some directive =>
        have hwf : output.WellFormed := ⟨by simpa using hm, by rw [hd]; rfl⟩
        have hprod : ProducedStage (stages (⟨.output y p, .ok (some output)⟩ :: t)) d p output :=
          ⟨hwf, y, s, hat.stages, hs⟩
        refine always_bind.2 (always_stage hat hnf rfl rfl (by simp) ⟨d, .inl ⟨output, hprod, rfl⟩⟩
          fun _ hat' => ⟨⟨_, hat'⟩, d, p, .inl ⟨output, ⟨_, hat'.stages, ?_⟩, rfl⟩⟩)
        exact hat.stages ▸ hprod

theorem always_lateStage {d : Planned Obj} {p y : Obj} {legacy : Option Obj} (h : At c₀ c n s t)
    (hf : ¬ Fresh t) (hs : TransformedStage s d p y) (hl : d.legacy = legacy) :
    (WorkerHost.lateStage (ε := ε) y p legacy).Always (Records (StoreEnv c₀)) (WorkerGuard c₀)
      (fun next t => (∃ s, At c₀ c n s t) ∧ Justified c₀ t (.save next.1))
      (fun _ => Resting c₀ c n) t := by
  refine always_bind.2 (always_stage h hf rfl rfl (by simp) ⟨d, .inr (h.stages ▸ hs)⟩
    fun _ hat => ?_)
  have hlate : ∀ r, PersistedLate
      (stages (⟨.hasCheckpoint, r⟩ :: ⟨.persist y p, .ok ()⟩ :: t)) d p y :=
    fun r => ⟨s, hat.stages, hs⟩
  have hnf : ∀ r, ¬ Fresh (⟨.hasCheckpoint, r⟩ :: ⟨.persist y p, .ok ()⟩ :: t) :=
    fun r => not_fresh fun _ _ h => by cases h
  refine always_bind.2 (always_event ⟨trivial, fun _ => rfl⟩ (fun b _ => ?_) fun e _ =>
    (hat.quiet rfl).settled (hnf _))
  split_ifs
  · refine always_bind.2 (always_stage (hat.quiet rfl) (hnf _) rfl rfl (by simp) ⟨d, hlate _⟩
      fun c' hat' => ⟨⟨_, hat'⟩, d, p, .inr (.inl ⟨y, _, hat'.stages, ?_⟩)⟩)
    exact ⟨s, rfl, hs⟩
  · cases legacy with
    | some c' => exact ⟨⟨_, hat.quiet rfl⟩, d, p, .inr (.inr ⟨y, hlate _, hl⟩)⟩
    | none => exact (hat.quiet rfl).settled (hnf _)

theorem always_workStage {v : Loop Obj} {p : Obj} {legacy : Option Obj} {d : Planned Obj}
    (hv : Resting c₀ c n t) (hp : PlannedStage (stages t) d p) (hl : d.legacy = legacy) :
    (h.workStage v p legacy).Always (Records (StoreEnv c₀)) (WorkerGuard c₀)
      (fun next => Resting c₀ next.1 n) (fun _ => Resting c₀ c n) t := by
  have hemit : (h.emit "working" v none none).Uses (·.isStage = false) := uses_emit h
  have hquiet := always_quiet_ops hemit hv.at hv.settled
  refine always_bind.2 (Always.mono (fun _ _ h => h) ?_ (fun _ _ h => h.1.settled h.2) hquiet)
  rintro - t₁ ⟨hat, hf⟩
  refine always_bind.2 (always_stage hat hf rfl rfl (by simp) ⟨d, hat.stages ▸ hp⟩ fun x hat₂ => ?_)
  have hfetched : FetchedStage (stages (⟨.fetch p, .ok x⟩ :: t₁)) d p x := ⟨_, hat₂.stages, hp⟩
  refine always_bind.2 (always_stage hat₂ (not_fresh fun _ _ h => by cases h) rfl rfl (by simp)
    ⟨d, hfetched⟩ fun y hat₃ => ?_)
  have htrans : TransformedStage (⟨.transform x p, .ok y⟩ :: ⟨.fetch p, .ok x⟩ :: stages t) d p y :=
    ⟨x, _, rfl, _, rfl, hp⟩
  refine always_bind.2 ?_
  have hnf : ∀ r, ¬ Fresh (⟨.hasOutput, r⟩ :: ⟨.transform x p, .ok y⟩ :: ⟨.fetch p, .ok x⟩ :: t₁) :=
    fun r => not_fresh fun _ _ h => by cases h
  refine always_bind.2 (always_event
    ⟨trivial, fun hf => absurd hf (not_fresh fun _ _ h => by cases h)⟩ (fun b _ => ?_)
    fun e _ => (hat₃.quiet rfl).settled (hnf _))
  have hsave : ∀ (next : Obj × WorkDirective) (t' : WorkerHist Obj ε), (∃ s, At c₀ c n s t') ∧
      Justified c₀ t' (.save next.1) →
      ((perform (WorkerOp.save (ε := ε) next.1)).bind fun _ => ret next).Always
        (Records (StoreEnv c₀)) (WorkerGuard c₀) (fun next => Resting c₀ next.1 n)
        (fun _ => Resting c₀ c n) t' := by
    rintro next t' ⟨⟨s', hat'⟩, hj⟩
    refine always_bind.2 (always_event ⟨hj, fun _ => rfl⟩ (fun _ _ => ⟨rfl, ?_, ?_⟩)
      fun e _ => ⟨?_, ?_, ?_⟩)
    · exact hat'.plans
    · exact not_fresh fun _ _ h => by cases h
    · exact hat'.content
    · exact hat'.plans
    · exact not_fresh_error
  split_ifs
  · exact Always.mono (fun _ _ h => h) hsave (fun _ _ h => h)
      (always_outputStage (hat₃.quiet rfl) (hnf _) htrans)
  · exact Always.mono (fun _ _ h => h) hsave (fun _ _ h => h)
      (always_lateStage (hat₃.quiet rfl) (hnf _) htrans hl)

theorem uses_afterCommit {v : Loop Obj} {directive : WorkDirective} :
    (h.afterCommit v directive).Uses (·.isStage = false) := by
  refine Uses.bind (uses_emit h) fun _ => ?_
  cases directive with
  | stop => trivial
  | cont => trivial
  | idle => exact Uses.bind (uses_emit h) fun _ => Uses.bind (uses_wait h) fun _ => trivial

/-- The variables a round leaves. -/
def loopOf : Loop Obj ⊕ LoopEnd Obj ε → Loop Obj
  | .inl v => v
  | .inr e => e.1

/-- The variables show the store and the iterations after `n`. -/
def Shows (c₀ : Obj) (n : ℕ) (v : Loop Obj) (t : WorkerHist Obj ε) : Prop :=
  Resting c₀ v.checkpoint (n + v.iterations) t

theorem always_failed {v : Loop Obj} {e : HostExc ε} {E : HostExc ε → WorkerHist Obj ε → Prop}
    (hv : Shows c₀ n v t) :
    (h.failed v e).Always (Records (StoreEnv c₀)) (WorkerGuard c₀)
    (fun x => Shows c₀ n (loopOf x)) E t := by
  unfold WorkerHost.failed
  split_ifs with hcatch
  · exact hv
  dsimp only
  split_ifs
  · refine always_bind.2 (always_catching.2 ?_)
    exact Always.mono (fun _ _ h => h) (fun _ _ h => h) (fun _ _ h => h)
      (always_settled (uses_emit h) hv)
  · refine always_bind.2 (always_catching.2 ?_)
    refine Always.mono (fun _ _ h => h) (fun _ _ h => h) (fun _ _ h => h) (always_settled ?_ hv)
    refine Uses.bind (A := fun o => WorkerOp.isStage o = false) ?_ fun d =>
      Uses.bind (uses_emit h) fun _ => uses_wait h
    cases h.backoff.delay (v.consecutive + 1) <;> trivial

theorem always_iteration {v : Loop Obj} {E : HostExc ε → WorkerHist Obj ε → Prop}
    (hv : Resting c₀ v.checkpoint (n + v.iterations) t) :
    (h.iteration { v with iterations := v.iterations + 1 }).Always (Records (StoreEnv c₀))
    (WorkerGuard c₀) (fun x => Shows c₀ n (loopOf x)) E t := by
  refine always_bind.2 (always_catching.2 (Always.mono (fun _ _ h => h) ?_ ?_
    (always_planStage (v := { v with iterations := v.iterations + 1 }) hv)))
  · rintro d t₁ ⟨hset, hwork⟩
    cases d with
    | stop => exact hset
    | idle =>
      have hquiet := always_settled (p := do
        h.emit "idle" { v with iterations := v.iterations + 1, consecutive := 0 } none none
        h.wait h.backoff.idleSeconds) (Uses.bind (uses_emit h) fun _ => uses_wait h) hset
      refine always_bind.2 (always_catching.2 (Always.mono (fun _ _ h => h) ?_ ?_ hquiet))
      · exact fun _ _ h => h
      · exact fun _ _ hs => always_failed h hs
    | work p legacy =>
      obtain ⟨pl, hpl, hl⟩ := hwork p legacy rfl
      refine always_bind.2 (always_catching.2 (Always.mono (fun _ _ h => h) ?_ ?_
        (always_workStage h hset hpl hl)))
      · rintro ⟨c', directive⟩ t₂ hset₂
        refine always_bind.2 (always_catching.2 (Always.mono (fun _ _ h => h) ?_ ?_
          (always_settled (uses_afterCommit h) hset₂)))
        · intro stop t₃ hset₃
          cases stop <;> exact hset₃
        · exact fun _ _ hs => always_failed h hs
      · exact fun _ _ hs => always_failed h hs
  · exact fun _ _ hs => always_failed h hs

theorem always_round {maxIterations : Option ℤ} {v : Loop Obj}
    {E : HostExc ε → WorkerHist Obj ε → Prop} (hv : Shows c₀ n v t) :
    (h.round maxIterations v).Always (Records (StoreEnv c₀)) (WorkerGuard c₀)
      (fun x => Shows c₀ n (loopOf x)) E t := by
  refine always_bind.2 (always_catching.2 (Always.mono (fun _ _ h => h) ?_ ?_
    (always_settled (uses_perform (o := WorkerOp.isSet) rfl) hv)))
  · intro b t₁ hset
    cases b with
    | true => exact hset
    | false =>
      dsimp only
      split_ifs
      · exact always_iteration h hset
      · exact hset
  · exact fun _ _ h => h

/-- What a run that returns has done. -/
def Reports (c₀ : Obj) (n : ℕ) (r : Option (WorkerRun Obj)) (t : WorkerHist Obj ε) : Prop :=
  ∀ w, r = some w → w.checkpoint = content c₀ t ∧ plans t = n + w.iterations

theorem always_finish {v : Loop Obj} {r : Except (HostExc ε) Unit} (hset : Resting c₀ c n t)
    {n₀ : ℕ} (hv : r = .ok () → c = v.checkpoint ∧ n = n₀ + v.iterations) :
    (h.finish (v, r)).Always (Records (StoreEnv c₀)) (WorkerGuard c₀) (Reports c₀ n₀)
    (fun _ _ => True) t := by
  refine always_bind.2 (Always.mono (fun _ _ h => h) ?_ (fun _ _ _ => trivial)
    (always_settled (uses_emit h) hset))
  intro _ t₁ hset₁
  refine always_bind.2 (Always.mono (fun _ _ h => h) ?_ (fun _ _ _ => trivial)
    (always_settled (uses_perform rfl) hset₁))
  intro _ t₂ hset₂
  cases r with
  | error e => trivial
  | ok u =>
    intro w hw
    cases hw
    obtain ⟨hc, hn⟩ := hv rfl
    exact ⟨hc ▸ hset₂.content.symm, hset₂.plans.trans hn⟩

/-- **The host keeps to the discipline**, whatever its calls answer. -/
theorem always_run [Inhabited Obj] {maxIterations : Option ℤ} {rounds : ℕ} (t₀ : WorkerHist Obj ε) :
    (h.run maxIterations rounds).Always (Records (StoreEnv c₀)) (WorkerGuard c₀)
    (Reports c₀ (plans t₀)) (fun _ _ => True) t₀ := by
  unfold WorkerHost.run
  split_ifs
  · trivial
  refine always_bind.2 (always_event ⟨trivial, fun _ => rfl⟩ (fun b _ => ?_) fun _ _ => trivial)
  have hset : Resting c₀ (content c₀ t₀) (plans t₀) (⟨.acquire, .ok b⟩ :: t₀) :=
    ⟨rfl, rfl, not_fresh fun _ _ h => by cases h⟩
  split_ifs
  · trivial
  refine always_bind.2 (always_catching.2
    (always_event ⟨trivial, fun hf => absurd hf hset.settled⟩ ?_ ?_))
  · intro c hc
    have hshow : Shows c₀ (plans t₀) { checkpoint := c }
        (⟨.load, .ok c⟩ :: ⟨.acquire, .ok b⟩ :: t₀) :=
      ⟨hc.symm, rfl, not_fresh fun _ _ h => by cases h⟩
    refine always_bind.2 (always_catching.2 (Always.mono (fun _ _ h => h) ?_ ?_
      (always_settled (uses_emit h) hshow)))
    · intro _ t₁ hset₁
      have hloop : (iterate (h.round maxIterations) rounds { checkpoint := c }).Always
          (Records (StoreEnv c₀)) (WorkerGuard c₀)
          (fun x t => ∀ e, x = some e → Shows c₀ (plans t₀) e.1 t) (fun _ _ => True) t₁ := by
        refine always_iterate (I := Shows c₀ (plans t₀)) (fun v t₂ hv => ?_)
          (fun _ _ _ e he => by cases he) hset₁
        refine Always.mono (fun _ _ h => h) ?_ (fun _ _ h => h) (always_round h hv)
        intro x t₃ hx
        cases x with
        | inl v' => exact hx
        | inr e => exact fun e' he => by cases he; exact hx
      refine always_bind.2 (Always.mono (fun _ _ h => h) ?_ (fun _ _ h => h) hloop)
      intro x t₂ hx
      cases x with
      | none => exact fun w hw => by cases hw
      | some e => exact always_finish h (hx e rfl) fun _ => ⟨rfl, rfl⟩
    · exact fun e t₁ hset₁ => always_finish h hset₁ fun he => by cases he
  · intro e _
    have hload : Resting c₀ (content c₀ t₀) (plans t₀)
        (⟨.load, .error e⟩ :: ⟨.acquire, .ok b⟩ :: t₀) :=
      ⟨rfl, rfl, not_fresh_error⟩
    exact always_finish h hload fun he => by cases he

/-! ## Intents with an `output` method -/

/-- The intent has an `output` method. -/
def OutputEnv : (o : WorkerOp Obj ε) → Except (HostExc ε) o.Val → WorkerHist Obj ε → Prop
  | .hasOutput, .ok b, _ => b = true
  | _, _, _ => True

/-- Then `output` comes before `persist`, and `checkpoint` is not asked for. -/
def OutputGuard (o : WorkerOp Obj ε) (t : WorkerHist Obj ε) : Prop :=
  match o with
  | .hasCheckpoint | .checkpoint _ _ => False
  | .persist _ p => ∃ y out s, stages t = ⟨.output y p, .ok (some out)⟩ :: s
  | _ => True

/-- The calls that are allowed everywhere. -/
def WorkerOp.isFree : WorkerOp Obj ε → Bool
  | hasCheckpoint | checkpoint _ _ | persist _ _ => false
  | _ => true

theorem everywhere_of_free {α : Type} {p : WorkerProg Obj ε α} (hp : p.Uses (·.isFree = true)) :
    Everywhere (Records OutputEnv) OutputGuard p := by
  refine Everywhere.of_uses hp fun o t ho => ?_
  cases o <;> first | exact trivial | cases ho

theorem everywhere_emit {state : String} {v : Loop Obj} {error : Option (HostExc ε)}
    {retryIn : Option ℚ} :
    Everywhere (Records OutputEnv) OutputGuard (h.emit state v error retryIn) :=
  everywhere_of_free (emit_uses (A := (·.isFree = true)) h rfl (fun _ => rfl) fun _ => rfl)

theorem everywhere_wait {seconds : ℚ} :
    Everywhere (Records OutputEnv) OutputGuard (h.wait seconds : WorkerProg Obj ε Unit) :=
  everywhere_of_free (wait_uses (A := (·.isFree = true)) h (fun _ => rfl) rfl fun _ => rfl)

theorem everywhere_outputStage {y p : Obj} :
    Everywhere (Records OutputEnv) OutputGuard (WorkerHost.outputStage (ε := ε) y p) := by
  refine fun t => always_bind.2 (always_event trivial (fun output _ => ?_) fun _ _ => trivial)
  cases output with
  | none => trivial
  | some output =>
    dsimp only
    split_ifs
    · trivial
    · cases output.directive with
      | none => trivial
      | some directive =>
        exact always_bind.2 (always_event ⟨y, output, stages t, rfl⟩ (fun _ _ => trivial)
          fun _ _ => trivial)

theorem everywhere_workStage {v : Loop Obj} {p : Obj} {legacy : Option Obj} :
    Everywhere (Records OutputEnv) OutputGuard (h.workStage v p legacy) := by
  refine Everywhere.bind (everywhere_emit h) fun _ => ?_
  refine Everywhere.bind (everywhere_of_free (uses_perform rfl)) fun x => ?_
  refine Everywhere.bind (everywhere_of_free (uses_perform rfl)) fun y => ?_
  refine Everywhere.bind (fun t =>
    always_bind.2 (always_event trivial (fun b hb => ?_) fun _ _ => trivial))
    fun next => ?_
  · rw [show b = true from hb]
    exact everywhere_outputStage _
  · exact Everywhere.bind (everywhere_of_free (uses_perform rfl)) fun _ _ => trivial

theorem everywhere_failed {v : Loop Obj} {e : HostExc ε} :
    Everywhere (Records OutputEnv) OutputGuard (h.failed v e) := by
  unfold WorkerHost.failed
  split_ifs
  · exact fun _ => trivial
  dsimp only
  split_ifs
  · refine Everywhere.bind (everywhere_emit h).catching fun r => ?_
    cases r <;> exact fun _ => trivial
  · refine Everywhere.bind (Everywhere.catching ?_) fun r => ?_
    · refine Everywhere.bind ?_ fun d => Everywhere.bind (everywhere_emit h) fun _ =>
        everywhere_wait h
      cases h.backoff.delay (v.consecutive + 1) <;> exact fun _ => trivial
    · cases r <;> exact fun _ => trivial

theorem everywhere_planStage {v : Loop Obj} :
    Everywhere (Records OutputEnv) OutputGuard (WorkerHost.planStage (ε := ε) v) := by
  refine everywhere_of_free (Uses.bind (uses_perform rfl) fun pl => ?_)
  cases pl with
  | decision directive w =>
    cases directive with
    | none => trivial
    | some directive => cases directive <;> trivial
  | _ => trivial

theorem everywhere_afterCommit {v : Loop Obj} {directive : WorkDirective} :
    Everywhere (Records OutputEnv) OutputGuard (h.afterCommit v directive) := by
  refine Everywhere.bind (everywhere_emit h) fun _ => ?_
  cases directive with
  | stop => exact fun _ => trivial
  | cont => exact fun _ => trivial
  | idle => exact Everywhere.bind (everywhere_emit h) fun _ =>
    Everywhere.bind (everywhere_wait h) fun _ _ => trivial

theorem everywhere_iteration {v : Loop Obj} :
    Everywhere (Records OutputEnv) OutputGuard (h.iteration v) := by
  refine Everywhere.bind everywhere_planStage.catching fun d => ?_
  cases d with
  | error e => exact everywhere_failed h
  | ok d =>
    cases d with
    | stop => exact fun _ => trivial
    | idle =>
      refine Everywhere.bind (Everywhere.bind (everywhere_emit h) fun _ =>
        everywhere_wait h).catching fun r => ?_
      cases r with
      | error e => exact everywhere_failed h
      | ok _ => exact fun _ => trivial
    | work p legacy =>
      refine Everywhere.bind (everywhere_workStage h).catching fun r => ?_
      cases r with
      | error e => exact everywhere_failed h
      | ok next =>
        refine Everywhere.bind (everywhere_afterCommit h).catching fun r => ?_
        cases r with
        | error e => exact everywhere_failed h
        | ok stop => cases stop <;> exact fun _ => trivial

theorem everywhere_round {maxIterations : Option ℤ} {v : Loop Obj} :
    Everywhere (Records OutputEnv) OutputGuard (h.round maxIterations v) := by
  refine Everywhere.bind (everywhere_of_free (uses_perform rfl)).catching fun r => ?_
  cases r with
  | error e => exact fun _ => trivial
  | ok b =>
    cases b with
    | true => exact fun _ => trivial
    | false =>
      dsimp only
      split_ifs
      · exact everywhere_iteration h
      · exact fun _ => trivial

theorem everywhere_finish {e : LoopEnd Obj ε} :
    Everywhere (Records OutputEnv) OutputGuard (h.finish e) := by
  refine Everywhere.bind (everywhere_emit h) fun _ => ?_
  refine Everywhere.bind (everywhere_of_free (uses_perform rfl)) fun _ => ?_
  cases e.2 <;> exact fun _ => trivial

/-- **An `output` method is the only way to a checkpoint**, where there is one. -/
theorem everywhere_run [Inhabited Obj] (maxIterations : Option ℤ) (rounds : ℕ) :
    Everywhere (Records OutputEnv) OutputGuard
      (h.run maxIterations rounds : WorkerProg Obj ε (Option (WorkerRun Obj))) := by
  unfold WorkerHost.run
  split_ifs
  · exact fun _ => trivial
  refine Everywhere.bind (everywhere_of_free (uses_perform rfl)) fun b => ?_
  split_ifs
  · exact fun _ => trivial
  refine Everywhere.bind (everywhere_of_free (uses_perform rfl)).catching fun r => ?_
  cases r with
  | error e => exact everywhere_finish h
  | ok c =>
    refine Everywhere.bind (everywhere_emit h).catching fun r => ?_
    cases r with
    | error e => exact everywhere_finish h
    | ok _ =>
      refine Everywhere.bind (Everywhere.iterate fun v => everywhere_round h) fun x => ?_
      cases x with
      | none => exact fun _ => trivial
      | some e => exact everywhere_finish h

/-! ## The discipline -/

/-- After a stage that ends its iteration only a new plan is justified. -/
theorem isPlan_of_ends (hj : Justified c₀ t o) (ho : o.isStage = true)
    (hends : ∀ e s, stages t = e :: s → Ends e) : o.isPlan = true := by
  cases o with
  | plan c => rfl
  | fetch p =>
    obtain ⟨d, hw, c, s', hs⟩ := hj
    exact absurd (hends _ _ hs) (by simp [Ends, hw])
  | transform x p =>
    obtain ⟨d, s', hs, -⟩ := hj
    exact (hends _ _ hs).elim
  | output y p =>
    obtain ⟨d, x, s', hs, -⟩ := hj
    exact (hends _ _ hs).elim
  | persist r p =>
    obtain ⟨d, ⟨out, ⟨hwf, y, s', hs, -⟩, -⟩ | ⟨x, s', hs, -⟩⟩ := hj
    · exact absurd hwf (hends _ _ hs)
    · exact (hends _ _ hs).elim
  | checkpoint y p =>
    obtain ⟨d, s', hs, -⟩ := hj
    exact (hends _ _ hs).elim
  | save c =>
    obtain ⟨d, p, ⟨out, ⟨s', hs, -⟩, -⟩ | ⟨y, s', hs, -⟩ | ⟨y, ⟨s', hs, -⟩, -⟩⟩ := hj
    · exact (hends _ _ hs).elim
    · exact (hends _ _ hs).elim
    · exact (hends _ _ hs).elim
  | _ => cases ho

/-- **The checkpoint discipline**: wherever a run has got to, it calls `plan` with the
    content of the store, every other stage with the answers of the stages before it in
    the same iteration, `save` only with the checkpoint of what it has just persisted,
    and after a stage that ends the iteration nothing but the next `plan`; a run that
    returns reports the content of the store, and its iterations are the calls of `plan`. -/
theorem checkpoint_discipline [Inhabited Obj] {maxIterations : Option ℤ} {rounds : ℕ}
    {p : WorkerProg Obj ε (Option (WorkerRun Obj))}
    (hr : Reaches (StoreEnv c₀) (h.run maxIterations rounds) [] t p) :
    (∀ o k, p = .call o k → Justified c₀ t o ∧
      (o.isStage = true → (∀ e s, stages t = e :: s → Ends e) → o.isPlan = true)) ∧
    ∀ w, p = .ret (some w) → w.checkpoint = content c₀ t ∧ w.iterations = plans t := by
  have hp := Always.reaches (always_run h []) hr
  constructor
  · rintro o k rfl
    exact ⟨hp.1.1, isPlan_of_ends hp.1.1⟩
  · rintro w rfl
    obtain ⟨hc, hn⟩ := hp w rfl
    exact ⟨hc, by rw [hn]; simp [plans]⟩

end

/-- An intent that works once, with a store that is empty at first. -/
def workOnce : (o : WorkerOp ℕ Unit) → WorkerHist ℕ Unit → Except (HostExc Unit) o.Val
  | .acquire, _ | .hasOutput, _ | .hasCheckpoint, _ => .ok true
  | .isSet, _ => .ok false
  | .load, t => .ok (content 0 t)
  | .plan 0, _ => .ok (.decision (some .cont) 7)
  | .plan (_ + 1), _ => .ok (.decision (some .stop) 0)
  | .fetch p, _ => .ok p
  | .transform x _, _ | .checkpoint x _, _ => .ok x
  | .output y _, _ => .ok (some ⟨y, true, 1, some .cont⟩)
  | .now, _ | .describe _, _ => .ok ""
  | .release, _ | .save _, _ | .persist _ _, _ | .stopWait _, _ | .sleep _,
    _ | .heartbeat _, _ => .ok ()

theorem workOnce_store (o : WorkerOp ℕ Unit) (t : WorkerHist ℕ Unit) :
    StoreEnv 0 o (workOnce o t) t := by
  cases o with
  | load => rfl
  | _ => trivial

/-- A host without a limit and a heartbeat. -/
def plainHost : WorkerHost Unit := { isException := fun _ => true }

/-- The run of an intent that works once reports the checkpoint in the store. -/
theorem checkpoint_discipline_run : ∃ (t : WorkerHist ℕ Unit) (w : WorkerRun ℕ),
    Reaches (StoreEnv 0) (plainHost.run none 3) [] t (.ret (some w)) ∧ w.iterations = 2 ∧
      w.checkpoint = content 0 t ∧ w.iterations = plans t := by
  have hr := exec_reaches workOnce workOnce_store (plainHost.run none 3) []
  exact ⟨_, ⟨1, 1, 0, 2⟩, hr, rfl, (checkpoint_discipline _ hr).2 _ rfl⟩

end DatasourceKit

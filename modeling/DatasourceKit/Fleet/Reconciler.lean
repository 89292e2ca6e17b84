/-
  A supervisor (`DesiredStateReconciler` in `fleet/state.py`), from its lock to its release.

  * `SupervisorOp`: the operations on the lock file, on the directories of the units, and the
    waits between rounds;
  * `DesiredStateReconciler.reconcileOnce`, `DesiredStateReconciler.serve`: the source
    functions;
  * `SupervisorStep`: an operation that meets no fault, beside any wrappers;
  * `Settling`: what holds of a unit after no, one and more rounds; `always_supervisorRound`: a
    round leads to the next stage;
  * `fleet_rests`: no unit is touched but under the lock, which is given back at the end; and
    from the end of the second round on all units are at rest.
-/
import DatasourceKit.Fleet.Host
import DatasourceKit.Fleet.ControlPlane

namespace DatasourceKit

open Interleave Interleave.Prog

/-! ## The source functions -/

/-- The operations of a supervisor. -/
inductive SupervisorOp where
  | lock (o : LockOp)
  | unit (unit : String) (o : UnitOp)
  | stopCondition
  | sleep (interval : ℚ)

abbrev SupervisorOp.Val : SupervisorOp → Type
  | lock o => o.Val
  | unit _ o => o.Val
  | stopCondition => Bool
  | sleep _ => Unit

abbrev SupervisorProg := Prog SupervisorOp.Val Exc

namespace DesiredStateReconciler

/-- `acquire_lock`. -/
def acquireLock (fuel : ℕ) : SupervisorProg Dict := (DatasourceKit.acquireLock ∅ fuel).embed .lock

/-- `release_lock`. -/
def releaseLock : SupervisorProg Bool := DatasourceKit.releaseLock.embed .lock

/-- `hold_lock`, around a body that answers `none` as long as it goes on. -/
def holdLock {α : Type} (fuel : ℕ) (body : SupervisorProg (Option α)) :
    SupervisorProg (Option α) := do
  let _ ← acquireLock fuel
  match ← body.catching with
  | .ok none => return none
  | .ok (some a) => do
    let _ ← releaseLock
    return some a
  | .error e => do
    let _ ← releaseLock
    raise e

section
variable (policy : Dict → Except Exc Bool) (polls : ℕ)

/-- `reconcile_unit`. -/
def reconcileUnit (spec : ProcessSpec) : SupervisorProg ReconcileOutcome :=
  (DatasourceKit.reconcileUnit spec policy polls).embed (.unit spec.unit)

/-- `_reconcile_all`. -/
def reconcileAll : List ProcessSpec → SupervisorProg (List ReconcileOutcome)
  | [] => return []
  | spec :: specs => do
    let outcome ← reconcileUnit policy polls spec
    let outcomes ← reconcileAll specs
    return outcome :: outcomes

def reconcileOnce (fuel : ℕ) (specs : List ProcessSpec) :
    SupervisorProg (Option (List ReconcileOutcome)) :=
  holdLock fuel (do return some (← reconcileAll policy polls specs))

/-- `stop_condition is not None and stop_condition()`. -/
def stops (hasStop : Bool) : SupervisorProg Bool :=
  if hasStop then perform SupervisorOp.stopCondition else return false

/-- One round of the loop of `serve`. -/
def round (specs : List ProcessSpec) (interval : ℚ) (hasStop : Bool) :
    SupervisorProg (Unit ⊕ Unit) := do
  let _ ← reconcileAll policy polls specs
  if ← stops hasStop then return .inr ()
  else
    perform (SupervisorOp.sleep interval)
    return .inl ()

/-- `serve`, up to `rounds` rounds of its loop. -/
def serve (fuel : ℕ) (specs : List ProcessSpec) (interval : ℚ) (hasStop : Bool) (rounds : ℕ) :
    SupervisorProg (Option Unit) :=
  holdLock fuel (iterate (fun _ => round policy polls specs interval hasStop) rounds ())

end

end DesiredStateReconciler

/-- What a supervisor is started for. -/
inductive Supervision where
  | once
  | serve (interval : ℚ) (hasStop : Bool) (rounds : ℕ)

/-- The program; `none`: it is still serving. -/
def Supervision.code (specs : List ProcessSpec) (policy : Dict → Except Exc Bool) (polls fuel : ℕ) :
    Supervision → SupervisorProg (Option (List ReconcileOutcome))
  | once => DesiredStateReconciler.reconcileOnce policy polls fuel specs
  | serve interval hasStop rounds => do
    return (← DesiredStateReconciler.serve policy polls fuel specs interval hasStop rounds).map
      fun _ => []

/-! ## Steps -/

/-- The lock file, the directories of all units, and what these were at the end of each round,
    the first one first. -/
structure SupervisorWorld where
  lock : LockWorld
  units : Units
  naps : List Units := []

/-- Only wrappers have acted. -/
def Units.SameOwn (U V : Units) : Prop := ∀ u, (V u).own = (U u).own

/-- An operation of the supervisor, as process `i`, that meets no fault; nobody else touches the
    lock file, and nobody but wrappers the directories. -/
def SupervisorStep (i : ℕ) :
    (o : SupervisorOp) → SupervisorWorld → Except Exc o.Val → SupervisorWorld → Prop
  | .lock o, s, r, s' => Sound i o s.lock r s'.lock ∧ s.units.SameOwn s'.units ∧ s'.naps = s.naps
  | .unit u o, s, r, s' => (s.units u).Beside o r (s'.units u) ∧
    (∀ v, v ≠ u → (s'.units v).own = (s.units v).own) ∧ s'.lock = s.lock ∧ s'.naps = s.naps
  | .stopCondition, s, _, s' => s.units.SameOwn s'.units ∧ s'.lock = s.lock ∧ s'.naps = s.naps
  | .sleep _, s, _, s' => s.units.SameOwn s'.units ∧ s'.lock = s.lock ∧
    s'.naps = s.naps ++ [s.units]

/-! ## Rounds -/

section
variable {specs fleet : List ProcessSpec} {i polls : ℕ} {pid : ℤ} {s s₀ : SupervisorWorld}
  {A B J : String → Own → Prop}

/-- The supervisor's part of every unit of the fleet satisfies `A`. -/
def EachUnit (fleet : List ProcessSpec) (A : String → Own → Prop) (U : Units) : Prop :=
  ∀ spec ∈ fleet, A spec.unit (U spec.unit).own

theorem EachUnit.mono {U : Units} (h : EachUnit fleet A U) (hAB : ∀ u a, A u a → B u a) :
    EachUnit fleet B U :=
  fun spec hspec => hAB _ _ (h spec hspec)

theorem EachUnit.same {U V : Units} (h : EachUnit fleet A U) (hV : U.SameOwn V) :
    EachUnit fleet A V := by
  intro spec hspec
  rw [hV spec.unit]
  exact h spec hspec

/-- The lock file is the supervisor's, and `naps` are the ends of the rounds so far. -/
structure Supervising (i : ℕ) (pid : ℤ) (naps : List Units) (s : SupervisorWorld) : Prop where
  own : OwnLock i pid s.lock
  naps : s.naps = naps

/-- A pass over one unit of a fleet. -/
theorem always_unitPass {naps : List Units} {spec : ProcessSpec}
    (hpass : ∀ a, A spec.unit a →
      (reconcileUnit spec honorDesiredState polls).Always PassStep (fun _ => J spec.unit)
      (fun _ => B spec.unit) (fun _ => J spec.unit) a)
    (hBA : ∀ u a, B u a → A u a) (hAJ : ∀ u a, A u a → J u a) (hs : Supervising i pid naps s)
    {done : List ProcessSpec} (hA : EachUnit fleet A s.units) (hB : EachUnit done B s.units)
    (hspec : spec ∈ fleet) :
    (DesiredStateReconciler.reconcileUnit honorDesiredState polls spec).Always (SupervisorStep i)
      (fun _ s => Supervising i pid naps s ∧ EachUnit fleet J s.units)
      (fun _ s => Supervising i pid naps s ∧ EachUnit fleet A s.units ∧
        EachUnit (spec :: done) B s.units)
      (fun _ s => Supervising i pid naps s ∧ EachUnit fleet J s.units) s := by
  have hview : ∀ (o : UnitOp) (s : SupervisorWorld) (r : Except Exc o.Val) (s' : SupervisorWorld),
      SupervisorStep i (.unit spec.unit o) s r s' →
          PassStep o (s.units spec.unit).own r (s'.units spec.unit).own :=
    fun o s r s' h => h.1.pass
  have hunit := (hpass _ (hA spec hspec)).of_view hview
  -- the pass leaves the other units, and the lock file
  have hframe := hunit.keeping (J := fun s' => Supervising i pid naps s' ∧
    ∀ v, v ≠ spec.unit → (s'.units v).own = (s.units v).own) (fun o s₁ r s₂ h₁ _ hstep => by
      obtain ⟨-, hother, hlock, hnaps⟩ := hstep
      exact ⟨⟨hlock ▸ h₁.1.own, hnaps.trans h₁.1.naps⟩, fun v hv =>
        (hother v hv).trans (h₁.2 v hv)⟩) ⟨hs, fun _ _ => rfl⟩
  have hothers : ∀ {C : String → Own → Prop} {l : List ProcessSpec} {s' : SupervisorWorld},
      EachUnit l C s.units → (∀ v, v ≠ spec.unit → (s'.units v).own = (s.units v).own) →
      C spec.unit (s'.units spec.unit).own → EachUnit l C s'.units := by
    intro C l s' h hother hself spec' hspec'
    by_cases hu : spec'.unit = spec.unit
    · rw [hu]
      exact hself
    · rw [hother _ hu]
      exact h spec' hspec'
  have hJ : EachUnit fleet J s.units := hA.mono hAJ
  refine always_embed.2 (hframe.mono ?_ ?_ ?_)
  · rintro o s' ⟨⟨hs', hother⟩, hself⟩
    exact ⟨hs', hothers hJ hother hself⟩
  · rintro o s' ⟨⟨hs', hother⟩, hself⟩
    refine ⟨hs', hothers hA hother (hBA _ _ hself), ?_⟩
    rintro spec' (_ | ⟨_, hspec'⟩)
    · exact hself
    · exact hothers hB hother hself spec' hspec'
  · rintro e s' ⟨⟨hs', hother⟩, hself⟩
    exact ⟨hs', hothers hJ hother hself⟩

/-- A round: if passes lead from `A` to `B`, then it leads all units to `B`. -/
theorem always_passes {naps : List Units}
    (hpass : ∀ spec ∈ fleet, ∀ a, A spec.unit a →
      (reconcileUnit spec honorDesiredState polls).Always PassStep (fun _ => J spec.unit)
      (fun _ => B spec.unit) (fun _ => J spec.unit) a)
    (hBA : ∀ u a, B u a → A u a) (hAJ : ∀ u a, A u a → J u a) (hsub : ∀ spec ∈ specs, spec ∈ fleet)
    (hs : Supervising i pid naps s) {done : List ProcessSpec} (hA : EachUnit fleet A s.units)
    (hB : EachUnit done B s.units) :
    (DesiredStateReconciler.reconcileAll honorDesiredState polls specs).Always (SupervisorStep i)
      (fun _ s => Supervising i pid naps s ∧ EachUnit fleet J s.units)
      (fun _ s => Supervising i pid naps s ∧ EachUnit done B s.units ∧ EachUnit specs B s.units)
      (fun _ s => Supervising i pid naps s ∧ EachUnit fleet J s.units) s := by
  induction specs generalizing s done with
  | nil => exact ⟨hs, hB, fun _ h => nomatch h⟩
  | cons spec specs ih =>
    have hspec := hsub spec List.mem_cons_self
    refine always_bind.2 ((always_unitPass (hpass spec hspec) hBA hAJ hs hA hB hspec).mono
      (fun _ _ h => h) ?_ fun _ _ h => h)
    rintro outcome s₁ ⟨hs₁, hA₁, hB₁⟩
    refine always_bind.2 ((ih (fun spec' h => hsub spec' (List.mem_cons_of_mem _ h)) hs₁ hA₁
      hB₁).mono (fun _ _ h => h) ?_
      fun _ _ h => h)
    rintro outcomes s₂ ⟨hs₂, hdone, hrest⟩
    refine ⟨hs₂, fun spec' h => hdone spec' (List.mem_cons_of_mem _ h), ?_⟩
    rintro spec' (_ | ⟨_, h⟩)
    · exact hdone spec List.mem_cons_self
    · exact hrest spec' h

end

/-! ## Stages -/

/-- Some pass has returned, and left `n` launches. -/
def Begun (unit : String) (n : ℕ) (a : Own) : Prop := (∃ d o, AtRest unit n d o a) ∨ Launched n a

/-- One launch more than in `a₀`, which has no record then, or none. -/
def OneMore (a₀ : Own) (n : ℕ) : Prop := n = a₀.kids.length ∨
    (a₀.pid = none ∧ n = a₀.kids.length + 1)

section
variable {polls n : ℕ} {spec : ProcessSpec} {a : Own} {U₀ U : Units}
  {unit : String} {naps : List Units}

theorem Begun.kids (h : Begun unit n a) : a.kids.length = n := by
  rcases h with ⟨d, o, h⟩ | h
  · exact h.kids
  · exact h.2

/-- The first pass. -/
theorem pass_first : (reconcileUnit spec honorDesiredState polls).Always PassStep (fun _ _ => True)
    (fun _ a' => ∃ n, OneMore a n ∧ Begun spec.unit n a') (fun _ _ => True) a := by
  refine always_firstPass.mono (fun _ _ h => h) ?_ fun _ _ h => h
  rintro o a' (⟨-, d, h⟩ | ⟨-, hnone, h⟩)
  · exact ⟨_, .inl rfl, .inl ⟨d, o, h⟩⟩
  · exact ⟨_, .inr ⟨hnone, rfl⟩, .inr h⟩

/-- A further one. -/
theorem pass_begun (h : Begun spec.unit n a) :
    (reconcileUnit spec honorDesiredState polls).Always PassStep (fun _ _ => True)
    (fun _ a' => ∃ d o, AtRest spec.unit n d o a') (fun _ _ => True) a := by
  rcases h with ⟨d, o, h⟩ | ⟨hpid, rfl⟩
  · exact (always_restingPass h).mono (fun _ _ _ => trivial) (fun _ _ h => ⟨d, o, h.1⟩)
      fun _ _ _ => trivial
  · refine always_firstPass.mono (fun _ _ h => h) ?_ fun _ _ h => h
    rintro o a' (⟨-, d, h⟩ | ⟨-, hnone, -⟩)
    · exact ⟨d, o, h⟩
    · rw [hnone] at hpid
      cases hpid

/-- What holds of a unit that was as in `U₀` at first, when `naps` are the ends of the rounds so
    far. -/
def Settling (U₀ : Units) : List Units → String → Own → Prop
  | [], u, a => a = (U₀ u).own ∨ ∃ n, OneMore (U₀ u).own n ∧ Begun u n a
  | [W], u, a => OneMore (U₀ u).own (W u).own.kids.length ∧ Begun u (W u).own.kids.length a
  | W :: W' :: _, u, a => OneMore (U₀ u).own (W u).own.kids.length ∧
      ∃ d o, AtRest u (W u).own.kids.length d o (W' u).own ∧ AtRest u (W u).own.kids.length d o a

/-- What holds of it after its pass in the next round. -/
def Settling.Next (U₀ : Units) : List Units → String → Own → Prop
  | [], u, a => ∃ n, OneMore (U₀ u).own n ∧ Begun u n a
  | [W], u, a => OneMore (U₀ u).own (W u).own.kids.length ∧
    ∃ d o, AtRest u (W u).own.kids.length d o a
  | naps, u, a => Settling U₀ naps u a

/-- What holds of it wherever a round is cut. -/
def Settling.Cut (U₀ : Units) (naps : List Units) (u : String) (a : Own) : Prop :=
  2 ≤ naps.length → Settling U₀ naps u a

theorem Settling.Next.stage (h : Settling.Next U₀ naps unit a) : Settling U₀ naps unit a := by
  match naps, h with
  | [], h => exact .inr h
  | [W], ⟨hmore, h⟩ => exact ⟨hmore, .inl h⟩
  | W :: W' :: later, h => exact h

/-- The end of a round. -/
theorem Settling.Next.nap (h : Settling.Next U₀ naps unit (U unit).own) :
    Settling U₀ (naps ++ [U]) unit (U unit).own := by
  match naps, h with
  | [], ⟨n, hmore, h⟩ =>
    obtain rfl := h.kids
    exact ⟨hmore, h⟩
  | [W], ⟨hmore, d, o, h⟩ => exact ⟨hmore, d, o, h, h⟩
  | W :: W' :: later, h => exact h

/-- A pass leads to the next stage. -/
theorem Settling.pass (h : Settling U₀ naps spec.unit a) :
    (reconcileUnit spec honorDesiredState polls).Always PassStep
    (fun _ => Settling.Cut U₀ naps spec.unit) (fun _ => Settling.Next U₀ naps spec.unit)
    (fun _ => Settling.Cut U₀ naps spec.unit) a := by
  match naps, h with
  | [], h =>
    have hcut : ∀ a', Settling.Cut U₀ [] spec.unit a' := fun _ => nofun
    rcases h with rfl | ⟨n, hmore, h⟩
    · exact pass_first.mono (fun _ _ _ => hcut _) (fun _ _ h => h) fun _ _ _ => hcut _
    · exact (pass_begun h).mono (fun _ _ _ => hcut _) (fun _ _ h => ⟨n, hmore, .inl h⟩)
        fun _ _ _ => hcut _
  | [W], ⟨hmore, h⟩ =>
    have hcut : ∀ a', Settling.Cut U₀ [W] spec.unit a' := fun _ h =>
      absurd h (Nat.not_succ_le_self 1)
    exact (pass_begun h).mono (fun _ _ _ => hcut _) (fun _ _ h => ⟨hmore, h⟩) fun _ _ _ => hcut _
  | W :: W' :: later, ⟨hmore, d, o, hW, h⟩ =>
    have hcut : ∀ a', AtRest spec.unit (W spec.unit).own.kids.length d o a' →
        Settling U₀ (W :: W' :: later) spec.unit a' :=
      fun a' h' => ⟨hmore, d, o, hW, h'⟩
    exact (always_restingPass h).mono (fun _ _ h _ => hcut _ h) (fun _ _ h => hcut _ h.1)
      fun _ _ h _ => hcut _ h

end

/-! ## Rounds, and the lock -/

section
variable {fleet : List ProcessSpec} {i polls : ℕ} {pid : ℤ}
  {s s' s₀ : SupervisorWorld} {naps : List Units}

/-- From the end of the second round on, no unit is launched any more, and the states stay as
    they are; before, every unit was launched at most once. -/
def Rested (fleet : List ProcessSpec) (U₀ : Units) (s : SupervisorWorld) : Prop :=
  ∀ W W' later, s.naps = W :: W' :: later → ∀ spec ∈ fleet,
    OneMore (U₀ spec.unit).own (W spec.unit).own.kids.length ∧
    (s.units spec.unit).own.kids.length = (W spec.unit).own.kids.length ∧
    ∃ d' d, (W' spec.unit).own.state = some (.doc d') ∧
      (s.units spec.unit).own.state = some (.doc d) ∧ SameState d d'

theorem Rested.same (h : Rested fleet s₀.units s) (hunits : s.units.SameOwn s'.units)
    (hnaps : s'.naps = s.naps) :
    Rested fleet s₀.units s' := by
  intro W W' later hn spec hspec
  rw [hunits spec.unit]
  exact h W W' later (hnaps.symm.trans hn) spec hspec

/-- The units between two operations. -/
theorem rested_of_cut (hnaps : s.naps = naps)
    (h : EachUnit fleet (Settling.Cut s₀.units naps) s.units) :
    Rested fleet s₀.units s := by
  rintro W W' later hn spec hspec
  obtain rfl := hnaps.symm.trans hn
  obtain ⟨hmore, d, o, hW, hs⟩ := h spec hspec (by simp)
  obtain ⟨d', hd', hsame'⟩ := hW.state
  obtain ⟨d'', hd'', hsame''⟩ := hs.state
  exact ⟨hmore, hs.kids, d', d'', hd', hd'', hsame''.trans hsame'.symm⟩

/-- The lock file is the supervisor's, and the units are where they should be. -/
structure Kept (fleet : List ProcessSpec) (i : ℕ) (pid : ℤ) (U₀ : Units)
    (s : SupervisorWorld) : Prop where
  own : OwnLock i pid s.lock
  rested : Rested fleet U₀ s

theorem Supervising.kept (hs : Supervising i pid naps s)
    (h : EachUnit fleet (Settling.Cut s₀.units naps) s.units) :
    Kept fleet i pid s₀.units s := ⟨hs.own, rested_of_cut hs.naps h⟩

/-- The units are between two rounds. -/
def BetweenRounds (fleet : List ProcessSpec) (i : ℕ) (pid : ℤ) (U₀ : Units)
    (s : SupervisorWorld) : Prop :=
  ∃ naps, Supervising i pid naps s ∧ EachUnit fleet (Settling U₀ naps) s.units

theorem BetweenRounds.kept (h : BetweenRounds fleet i pid s₀.units s) :
    Kept fleet i pid s₀.units s := by
  obtain ⟨naps, hs, hstage⟩ := h
  exact hs.kept (hstage.mono fun _ _ h _ => h)

/-- The passes of a round. -/
theorem always_roundPasses (hs : Supervising i pid naps s)
    (h : EachUnit fleet (Settling s₀.units naps) s.units) :
    (DesiredStateReconciler.reconcileAll honorDesiredState polls fleet).Always (SupervisorStep i)
      (fun _ => Kept fleet i pid s₀.units)
      (fun _ s => Supervising i pid naps s ∧ EachUnit fleet (Settling.Next s₀.units naps) s.units)
      (fun _ => Kept fleet i pid s₀.units) s := by
  have hnone : EachUnit [] (Settling.Next s₀.units naps) s.units := fun _ h => nomatch h
  refine (always_passes (J := Settling.Cut s₀.units naps) (fun spec _ a ha => ha.pass)
    (fun _ _ h => h.stage) (fun _ _ h _ => h) (fun _ h => h) hs h hnone).mono ?_ ?_ ?_
  · exact fun _ _ h => h.1.kept h.2
  · exact fun _ _ h => ⟨h.1, h.2.2⟩
  · exact fun _ _ h => h.1.kept h.2

/-- What a round leads to: one more has been slept after, or the loop is over. -/
def RoundDone (fleet : List ProcessSpec) (i : ℕ) (pid : ℤ) (U₀ : Units) (rounds : ℕ)
    (x : Unit ⊕ Unit) (s : SupervisorWorld) : Prop :=
  BetweenRounds fleet i pid U₀ s ∧ (x = .inl () → s.naps.length = rounds + 1)

/-- A round of the loop. -/
theorem always_supervisorRound {interval : ℚ} {hasStop : Bool}
    (h : BetweenRounds fleet i pid s₀.units s) :
    (DesiredStateReconciler.round honorDesiredState polls fleet interval hasStop).Always
    (SupervisorStep i) (fun _ => Kept fleet i pid s₀.units)
    (RoundDone fleet i pid s₀.units s.naps.length) (fun _ => Kept fleet i pid s₀.units) s := by
  obtain ⟨naps, hs, hstage⟩ := h
  rw [hs.naps]
  refine always_bind.2 ((always_roundPasses hs hstage).mono (fun _ _ h => h) ?_ fun _ _ h => h)
  rintro - s₁ ⟨hs₁, hnext⟩
  have hbetween : ∀ {s₂ : SupervisorWorld}, Supervising i pid naps s₂ →
      EachUnit fleet (Settling.Next s₀.units naps) s₂.units →
          BetweenRounds fleet i pid s₀.units s₂ := fun hs₂ h₂ =>
    ⟨naps, hs₂, h₂.mono fun _ _ h => h.stage⟩
  have hsleep : ∀ {s₂ : SupervisorWorld}, Supervising i pid naps s₂ →
      EachUnit fleet (Settling.Next s₀.units naps) s₂.units →
      ((perform (SupervisorOp.sleep interval)).bind fun _ =>
        ret (Sum.inl ()) : SupervisorProg (Unit ⊕ Unit)).Always
        (SupervisorStep i) (fun _ => Kept fleet i pid s₀.units)
          (RoundDone fleet i pid s₀.units naps.length)
        (fun _ => Kept fleet i pid s₀.units) s₂ := by
    intro s₂ hs₂ h₂
    -- the end of the round
    have hnap : ∀ s₃, (s₂.units.SameOwn s₃.units ∧ s₃.lock = s₂.lock ∧
        s₃.naps = s₂.naps ++ [s₂.units]) →
        RoundDone fleet i pid s₀.units naps.length (.inl ()) s₃ := by
      rintro s₃ ⟨hunits, hlock, hnaps⟩
      rw [hs₂.naps] at hnaps
      have hnext : EachUnit fleet (Settling s₀.units (naps ++ [s₂.units])) s₃.units :=
        EachUnit.same (fun spec hspec => (h₂ spec hspec).nap) hunits
      exact ⟨⟨_, ⟨hlock ▸ hs₂.own, hnaps⟩, hnext⟩,
        fun _ => by rw [hnaps, List.length_append, List.length_singleton]⟩
    exact always_bind.2 (always_perform.2
      ⟨(hbetween hs₂ h₂).kept, fun _ s₃ h => hnap s₃ h, fun _ s₃ h => (hnap s₃ h).1.kept⟩)
  unfold DesiredStateReconciler.stops
  refine always_bind.2 ?_
  cases hasStop with
  | false => exact hsleep hs₁ hnext
  | true =>
    rw [if_pos rfl]
    refine (always_perform (o := SupervisorOp.stopCondition)).2 ⟨(hbetween hs₁ hnext).kept, ?_, ?_⟩
    · rintro stop s₂ ⟨hunits, hlock, hnaps⟩
      have hs₂ : Supervising i pid naps s₂ := ⟨hlock ▸ hs₁.own, hnaps.trans hs₁.naps⟩
      cases stop with
      | true => exact ⟨hbetween hs₂ (hnext.same hunits), fun h => by cases h⟩
      | false => exact hsleep hs₂ (hnext.same hunits)
    · rintro e s₂ ⟨hunits, hlock, hnaps⟩
      exact (hbetween ⟨hlock ▸ hs₁.own, hnaps.trans hs₁.naps⟩ (hnext.same hunits)).kept

/-- Nothing has been done to the units yet. -/
def NothingDone (s₀ s : SupervisorWorld) : Prop := s₀.units.SameOwn s.units ∧ s.naps = []

theorem NothingDone.rested (h : NothingDone s₀ s) : Rested fleet s₀.units s := by
  rintro W W' later hn
  cases hn.symm.trans h.2

/-- The lock is acquired, or nothing has been done. -/
theorem always_supervisorAcquire {fuel : ℕ} (hpid : s₀.lock.procs.lookup i = some pid)
    (hnaps : s₀.naps = []) :
    (DesiredStateReconciler.acquireLock fuel).Always (SupervisorStep i)
    (fun o s => (∃ o', o = .lock o') ∧ NothingDone s₀ s)
    (fun _ s => OwnLock i pid s.lock ∧ NothingDone s₀ s) (fun _ => NothingDone s₀) s₀ := by
  have hview : ∀ (o : LockOp) (s : SupervisorWorld) (r : Except Exc o.Val) (s' : SupervisorWorld),
      SupervisorStep i (.lock o) s r s' → Solo i o s.lock r s'.lock := by
    rintro o s r s' ⟨⟨ch, -, hop⟩, -⟩
    exact ⟨ch, hop⟩
  have hacquire := (always_acquireLock_solo (∅ : Dict) fuel hpid).of_view hview
  refine always_embed.2
    ((hacquire.keeping (J := NothingDone s₀) ?_ ⟨fun _ => rfl, hnaps⟩).mono ?_ ?_ ?_)
  · rintro o s₁ r s₂ ⟨hunits, hn⟩ - ⟨-, hunits', hn'⟩
    exact ⟨fun u => (hunits' u).trans (hunits u), hn'.trans hn⟩
  · exact fun o _ h => ⟨⟨o, rfl⟩, h.1⟩
  · exact fun _ _ h => ⟨h.2, h.1⟩
  · exact fun _ _ h => h.1

/-- The lock that one has can be given back. -/
theorem always_releaseOwn {w : LockWorld} (h : OwnLock i pid w) :
    DatasourceKit.releaseLock.Always (Sound i) (fun _ _ => True) (fun _ w' => w'.file = none)
    (fun _ _ => False) w := by
  obtain ⟨n, d, hfile, hd⟩ := h.file
  refine always_bind.2 (always_bind.2 ((always_attempt (o := LockOp.read)).2 ⟨trivial, ?_⟩))
  rintro r w₁ ⟨ch, hfault, hop⟩
  simp only [LockWorld.op, hfault, hfile, Option.some.injEq, Prod.mk.injEq] at hop
  obtain ⟨rfl, rfl⟩ := hop
  have hlive : (w.setSeen i (some (n, .doc d))).procs.lookup i = some pid := h.live
  have hfile' : (w.setSeen i (some (n, .doc d))).file = some (n, .doc d) := hfile
  refine always_bind.2 (always_perform.2 ⟨trivial, ?_, ?_⟩)
  · rintro own w₂ ⟨ch', hfault', hop'⟩
    simp only [LockWorld.op, hfault', hlive, Option.map_some, Option.some.injEq, Prod.mk.injEq,
      Except.ok.injEq] at hop'
    obtain ⟨rfl, rfl⟩ := hop'
    have heq : (d.get "pid").eqInt pid = true := by simp [hd, Json.eqInt]
    simp only [heq, Bool.not_true, Bool.false_eq_true, if_false]
    refine always_bind.2 (always_attempt.2 ⟨trivial, ?_⟩)
    rintro r w₃ ⟨ch'', hfault'', hop''⟩
    simp only [LockWorld.op, hfault'', hfile', Option.some.injEq, Prod.mk.injEq] at hop''
    obtain ⟨rfl, rfl⟩ := hop''
    rfl
  · rintro e w₂ ⟨ch', hfault', hop'⟩
    simp [LockWorld.op, hfault', hlive] at hop'

theorem always_supervisorRelease (hs : Kept fleet i pid s₀.units s) :
    DesiredStateReconciler.releaseLock.Always (SupervisorStep i)
      (fun o s => (∃ o', o = .lock o') ∧ Rested fleet s₀.units s)
      (fun _ s => s.lock.file = none ∧ Rested fleet s₀.units s) (fun _ _ => False) s := by
  have hview : ∀ (o : LockOp) (s : SupervisorWorld) (r : Except Exc o.Val) (s' : SupervisorWorld),
      SupervisorStep i (.lock o) s r s' → Sound i o s.lock r s'.lock := fun o s r s' h => h.1
  have hrelease := (always_releaseOwn hs.own).of_view hview
  refine always_embed.2 ((hrelease.keeping (J := Rested fleet s₀.units) ?_ hs.rested).mono ?_ ?_ ?_)
  · rintro o s₁ r s₂ h - ⟨-, hunits, hn⟩
    exact h.same hunits hn
  · exact fun o _ h => ⟨⟨o, rfl⟩, h.1⟩
  · exact fun _ _ h => ⟨h.2, h.1⟩
  · exact fun _ _ h => h.2

/-- What holds before an operation: none on a unit without the lock. -/
def SupervisorGuard (fleet : List ProcessSpec) (i : ℕ) (pid : ℤ) (U₀ : Units) (o : SupervisorOp)
    (s : SupervisorWorld) : Prop :=
  (∀ u o', o = .unit u o' → OwnLock i pid s.lock) ∧ Rested fleet U₀ s

/-- What holds at the end: the lock is given back, or nothing has been done. -/
def SupervisorDone (fleet : List ProcessSpec) (s₀ s : SupervisorWorld) : Prop :=
  (s.lock.file = none ∨ NothingDone s₀ s) ∧ Rested fleet s₀.units s

/-- Where a body that answers `none` after `rounds` rounds has ended: the lock is given back, or the
    supervisor still has it. -/
def HeldLock {α : Type} (fleet : List ProcessSpec) (i : ℕ) (pid : ℤ) (rounds : Option ℕ)
    (s₀ : SupervisorWorld) (r : Option α) (s : SupervisorWorld) : Prop :=
  (r ≠ none → s.lock.file = none) ∧
    (r = none → OwnLock i pid s.lock ∧ some s.naps.length = rounds) ∧ Rested fleet s₀.units s

/-- A body that keeps to the units, under the lock. -/
theorem always_holdLock {α : Type} {fuel : ℕ} {body : SupervisorProg (Option α)} (rounds : Option ℕ)
    (hpid : s₀.lock.procs.lookup i = some pid) (hnaps : s₀.naps = [])
    (hbody : ∀ s, BetweenRounds fleet i pid s₀.units s → s.naps = [] →
      body.Always (SupervisorStep i) (fun _ => Kept fleet i pid s₀.units)
        (fun r s => Kept fleet i pid s₀.units s ∧ (r = none → some s.naps.length = rounds))
        (fun _ => Kept fleet i pid s₀.units) s) :
    (DesiredStateReconciler.holdLock fuel body).Always (SupervisorStep i)
    (SupervisorGuard fleet i pid s₀.units) (HeldLock fleet i pid rounds s₀)
    (fun _ => SupervisorDone fleet s₀) s₀ := by
  have hlock : ∀ {o s}, (∃ o', o = SupervisorOp.lock o') ∧ Rested fleet s₀.units s →
      SupervisorGuard fleet i pid s₀.units o s := by
    rintro _ s ⟨⟨o, rfl⟩, hrested⟩
    exact ⟨nofun, hrested⟩
  refine always_bind.2 ((always_supervisorAcquire hpid hnaps).mono
      (fun _ _ h => hlock ⟨h.1, h.2.rested⟩) ?_ fun _ _ h =>
    ⟨.inr h, h.rested⟩)
  rintro - s₁ ⟨hown, hnothing⟩
  have hbetween : BetweenRounds fleet i pid s₀.units s₁ :=
    ⟨[], ⟨hown, hnothing.2⟩, fun spec _ => .inl (hnothing.1 spec.unit)⟩
  refine always_bind.2 (always_catching.2 ((hbody s₁ hbetween hnothing.2).mono
    (fun _ _ h => ⟨fun _ _ _ => h.own, h.rested⟩) ?_ ?_))
  · rintro (_ | a) s₂ ⟨h, hrounds⟩
    · exact ⟨fun h => absurd rfl h, fun hr => ⟨h.own, hrounds hr⟩, h.rested⟩
    · refine always_bind.2 ((always_supervisorRelease h).mono (fun _ _ h => hlock h) ?_
        fun _ _ h => h.elim)
      exact fun _ _ h => ⟨fun _ => h.1, fun hr => (by cases hr), h.2⟩
  · rintro e s₂ h
    refine always_bind.2 ((always_supervisorRelease h).mono (fun _ _ h => hlock h) ?_
      fun _ _ h => h.elim)
    exact fun _ _ h => ⟨.inl h.1, h.2⟩

/-- The rounds after which the program answers that it is still serving. -/
def Supervision.rounds : Supervision → Option ℕ
  | once => none
  | serve _ _ rounds => some rounds

theorem always_supervision {fuel : ℕ} {cmd : Supervision} (hpid : s₀.lock.procs.lookup i = some pid)
    (hnaps : s₀.naps = []) :
    (cmd.code fleet honorDesiredState polls fuel).Always (SupervisorStep i)
    (SupervisorGuard fleet i pid s₀.units) (HeldLock fleet i pid cmd.rounds s₀)
    (fun _ => SupervisorDone fleet s₀) s₀ := by
  cases cmd with
  | once =>
    refine always_holdLock none hpid hnaps fun s h _ => ?_
    obtain ⟨naps, hs, hstage⟩ := h
    refine always_bind.2 ((always_roundPasses hs hstage).mono (fun _ _ h => h) ?_ fun _ _ h => h)
    rintro outcomes s₁ ⟨hs₁, hnext⟩
    exact ⟨BetweenRounds.kept ⟨naps, hs₁, hnext.mono fun _ _ h => h.stage⟩, fun h => by cases h⟩
  | serve interval hasStop rounds =>
    refine always_bind.2 ((always_holdLock (some rounds) hpid hnaps fun s h hnone => ?_).mono
      (fun _ _ h => h) ?_ fun _ _ h => h)
    · refine always_iterate_counted (k := 0)
        (I := fun k _ s => BetweenRounds fleet i pid s₀.units s ∧ s.naps.length = k)
          (fun k _ s h => ?_)
        (fun _ s h => ⟨h.1.kept, fun _ => by rw [h.2, Nat.zero_add]⟩) ⟨h, by rw [hnone]; rfl⟩
      obtain ⟨hbetween, rfl⟩ := h
      refine (always_supervisorRound hbetween).mono (fun _ _ h => h) ?_ fun _ _ h => h
      rintro (_ | _) s' h'
      · exact ⟨h'.1, h'.2 rfl⟩
      · exact ⟨h'.1.kept, fun h => by cases h⟩
    · rintro (_ | _) s' ⟨hback, hserving, hrested⟩
      · exact ⟨fun h => absurd rfl h, fun _ => hserving rfl, hrested⟩
      · exact ⟨fun _ => hback nofun, fun hr => (by cases hr), hrested⟩

/-- **A fleet comes to rest.**  Where a supervisor meets no fault, nobody else touches the lock file
    and nobody but wrappers the units: whatever it is started for, and wherever it has got to, it
    touches a unit only while the lock file is its own; when it has ended, the lock is given back,
    or it has done nothing; while it is still serving, it has the lock, and has slept after every
    round; and from the end of its second round on every state stays as it is, and every unit has
    been launched at most once, in the first round and if it had no record. -/
theorem fleet_rests {fuel : ℕ} {cmd : Supervision} (hpid : s₀.lock.procs.lookup i = some pid)
    (hnaps : s₀.naps = []) {p : SupervisorProg (Option (List ReconcileOutcome))}
    (h : Steps (SupervisorStep i) (cmd.code fleet honorDesiredState polls fuel) s₀ s p) :
    (∀ u o k, p = .call (.unit u o) k → OwnLock i pid s.lock) ∧
    (∀ r, p = .ret (some r) → s.lock.file = none) ∧
    (p = .ret none → OwnLock i pid s.lock ∧ some s.naps.length = cmd.rounds) ∧
    (∀ e, p = .raise e → s.lock.file = none ∨ NothingDone s₀ s) ∧ Rested fleet s₀.units s := by
  have hp := (always_supervision hpid hnaps).steps h
  refine ⟨?_, ?_, ?_, ?_, ?_⟩
  · rintro u o k rfl
    exact hp.1.1 u o rfl
  · rintro r rfl
    exact hp.1 nofun
  · rintro rfl
    exact hp.2.1 rfl
  · rintro e rfl
    exact hp.1
  · cases p with
    | ret r => exact hp.2.2
    | raise e => exact hp.2
    | call o k => exact hp.1.2

end

/-! ### A run -/

/-- Two units. -/
def twoSpecs : List ProcessSpec :=
  [{ command := ["run"], unit := "alpha" }, { command := ["run"], unit := "beta" }]

/-- One of the two is to run. -/
def supervisorStart : SupervisorWorld :=
  { lock := freshWorld, units := fun u => if u = "alpha" then enabledWorld
    else .init ∅ (fun _ => 0) none none [] }

/-- Operations that answer; the stop condition holds in the third round. -/
def supervisorAct : (o : SupervisorOp) → SupervisorWorld →
    Option (Except Exc o.Val × SupervisorWorld)
  | .lock o, s => (s.lock.op 0 {} o).map fun x => (x.1, { s with lock := x.2 })
  | .unit u o, s => (forsakenAct o (s.units u)).map fun x =>
    (x.1, { s with units := Function.update s.units u x.2 })
  | .stopCondition, s => some (.ok (2 ≤ s.naps.length), s)
  | .sleep _, s => some (.ok (), { s with naps := s.naps ++ [s.units] })

theorem step_of_supervisorAct (o : SupervisorOp) (s : SupervisorWorld) (r : Except Exc o.Val)
    (s' : SupervisorWorld) (h : supervisorAct o s = some (r, s')) : SupervisorStep 0 o s r s' := by
  cases o with
  | lock o =>
    obtain ⟨⟨r', w⟩, hop, hx⟩ := Option.map_eq_some_iff.1 h
    cases hx
    exact ⟨⟨{}, rfl, hop⟩, fun _ => rfl, rfl⟩
  | unit u o =>
    obtain ⟨⟨r', w⟩, hop, hx⟩ := Option.map_eq_some_iff.1 h
    cases hx
    refine ⟨?_, fun v hv => congrArg UnitWorld.own (Function.update_of_ne hv ..), rfl, rfl⟩
    show UnitWorld.Beside o (s.units u) r' (Function.update s.units u w u)
    rw [Function.update_self]
    exact beside_of_forsaken o _ _ _ hop
  | stopCondition =>
    cases h
    exact ⟨fun _ => rfl, rfl, rfl⟩
  | sleep interval =>
    cases h
    exact ⟨fun _ => rfl, rfl, rfl⟩

/-- The supervisor has returned from serving. -/
def returned : Except Exc (Option (List ReconcileOutcome)) → Bool
  | .ok (some []) => true
  | _ => false

theorem eq_of_returned {r : Except Exc (Option (List ReconcileOutcome))} (h : returned r = true) :
    r = .ok (some []) := by
  unfold returned at h
  split at h
  · rfl
  · cases h

/-- Three rounds launch one child, and the lock is given back. -/
theorem fleet_rests_served : ∃ s, Steps (SupervisorStep 0)
    ((Supervision.serve 5 true 3).code twoSpecs honorDesiredState 0 1)
    supervisorStart s (.ret (some [])) ∧ s.lock.file = none ∧ s.naps.length = 2 ∧
    (s.units "alpha").own.kids.length = 1 ∧ Rested twoSpecs supervisorStart.units s := by
  have hrun : (((Supervision.serve 5 true 3).code twoSpecs honorDesiredState 0 1).drive
      supervisorAct supervisorStart).any
      (fun x => returned x.1 &&
          (x.2.naps.length == 2 && (x.2.units "alpha").own.kids.length == 1)) = true := by
    decide +kernel
  obtain ⟨⟨r, s⟩, hd, hx⟩ := (Option.any_eq_true ..).1 hrun
  obtain ⟨hr, hend⟩ := Bool.and_eq_true_iff.1 hx
  obtain ⟨hnaps, hkids⟩ := Bool.and_eq_true_iff.1 hend
  obtain rfl : r = .ok (some []) := eq_of_returned hr
  have hsteps := Steps.of_drive step_of_supervisorAct hd
  obtain ⟨-, hlock, -, -, hrested⟩ :=
    fleet_rests (show freshWorld.procs.lookup 0 = some 7 from rfl) rfl hsteps
  exact ⟨s, hsteps, hlock _ rfl, eq_of_beq hnaps, eq_of_beq hkids, hrested⟩

end DatasourceKit

/-
  Requests among themselves.

  * `Version`: a content of `state.json` that differs from a first one in the desired state
    only; `Tells`: what an observation tells of a content;
  * `requests_rely`: however requests interleave, the state of every unit remains a version;
  * `requests_linearize`: a write takes effect in one step of the run, an observation tells
    what there was at one moment of it.
-/
import DatasourceKit.Fleet.ControlPlane

namespace DatasourceKit

open Interleave Interleave.Prog Interleave.Machine

/-! ## Versions -/

/-- The same assignment to the same values. -/
theorem SameState.assign {d d' : Dict} (h : SameState d d') (k : String) (v : Json) :
    SameState (d.set k v) (d'.set k v) := by
  intro key
  by_cases hk : key = k
  · rw [hk, Dict.lookup_set_self, Dict.lookup_set_self]
  · rw [Dict.lookup_set_ne _ _ hk, Dict.lookup_set_ne _ _ hk, h key]

/-- The last assignment counts. -/
theorem SameState.set_set (d : Dict) (k : String) (u v : Json) :
    SameState ((d.set k u).set k v) (d.set k v) := by
  intro key
  by_cases hk : key = k
  · rw [hk, Dict.lookup_set_self, Dict.lookup_set_self]
  · rw [Dict.lookup_set_ne _ _ hk, Dict.lookup_set_ne _ _ hk, Dict.lookup_set_ne _ _ hk]

/-- The content is the first one, or that with another desired state. -/
def Version (unit : String) (c₀ c : Option Content) : Prop :=
  c = c₀ ∨ ∃ v d, c = some (.doc d) ∧ SameState d ((stateOf unit c₀).set "desired" v)

/-- A write sees the first content, but for the desired state. -/
theorem Version.set {unit : String} {c₀ c : Option Content} (h : Version unit c₀ c) (v : Json) :
    SameState ((stateOf unit c).set "desired" v) ((stateOf unit c₀).set "desired" v) := by
  obtain rfl | ⟨u, d, rfl, hd⟩ := h
  · exact fun _ => rfl
  · have hload := hd.load ((filled_stateOf unit c₀).set u (by decide))
    exact (hload.assign "desired" v).trans (SameState.set_set _ _ _ _)

/-- What an observation tells of the content of `state.json`. -/
structure Tells (unit : String) (c : Option Content) (o : UnitObservation) : Prop where
  named : o.unit = unit
  desired : o.desired = (stateOf unit c).get "desired"
  generation : pyInt ((stateOf unit c).get "generation") = .ok o.generation
  heartbeat : o.heartbeat = heartbeatOf (stateOf unit c)

/-! ## What a request hears -/

section
variable {s₀ : Units} {unit : String}

/-- A step of a request that hears versions only. -/
def Hears (s₀ : Units) : (o : Indexed String UnitOp) → Unit → Except Exc o.op.Val → Unit → Prop
  | ⟨u, .readState⟩, _, .ok c, _ => Version u (s₀ u).state (some c)
  | ⟨u, .readState⟩, _, .error e, _ =>
      (e = .notFound ∧ Version u (s₀ u).state none) ∨ ∃ f, e = .fault f ∧ f ≠ .permission
  | _, _, _, _ => True

/-- An operation that saves versions only. -/
def Saves (s₀ : Units) : Indexed String UnitOp → Unit → Prop
  | ⟨u, .replaceState d⟩, _ => ∃ v, SameState d ((stateOf u (s₀ u).state).set "desired" v)
  | _, _ => True

theorem always_saves {α : Type} {p : UnitProg α} (hp : p.Uses fun o => Saves s₀ ⟨unit, o⟩ ()) :
    p.Always (fun o => Hears s₀ ⟨unit, o⟩) (fun o => Saves s₀ ⟨unit, o⟩) (fun _ _ => True)
    (fun _ _ => True) () :=
  Always.of_uses hp (fun _ _ ho _ => ⟨ho, fun _ _ _ => trivial⟩) trivial

theorem always_loadVersion :
    (loadState unit).Always (fun o => Hears s₀ ⟨unit, o⟩) (fun o => Saves s₀ ⟨unit, o⟩)
    (fun d _ => ∃ c, Version unit (s₀ unit).state c ∧ d = stateOf unit c) (fun _ _ => True) () := by
  refine always_bind.2 (always_bind.2 ⟨trivial, ?_⟩)
  rintro (e | c) ⟨⟩ h
  · obtain ⟨rfl, hc⟩ | ⟨f, rfl, hf⟩ := h
    · exact ⟨none, hc, rfl⟩
    · cases f <;> trivial
  · cases c with
    | undecodable => trivial
    | overlong => trivial
    | doc d => exact ⟨_, h, rfl⟩
    | value v => exact ⟨_, h, rfl⟩
    | malformed => exact ⟨_, h, rfl⟩

theorem always_setVersion {desired : String} :
    (setDesired unit desired).Always (fun o => Hears s₀ ⟨unit, o⟩) (fun o => Saves s₀ ⟨unit, o⟩)
    (fun d _ => SameState d ((stateOf unit (s₀ unit).state).set "desired" (.str desired)))
    (fun _ _ => True) () := by
  by_cases hd : desired ∈ ["enabled", "disabled", "paused"]
  swap
  · simp only [setDesired, hd, not_false_eq_true, if_true]
    trivial
  simp only [setDesired, hd, not_true_eq_false, if_false]
  refine always_bind.2 (always_loadVersion.mono (fun _ _ h => h) ?_ fun _ _ h => h)
  rintro _ - ⟨c, hc, rfl⟩
  refine always_bind.2 (Always.mono (fun _ _ h => h) (fun _ _ _ => hc.set _) (fun _ _ h => h)
    (always_saves (uses_saveState (fun _ => trivial) trivial trivial trivial fun d hd => ?_)))
  obtain rfl := dumps_ok hd
  exact ⟨_, hc.set _⟩

end

/-! ## The state of every unit -/

/-- Only requests are made. -/
def OnlyRequests : PlaneCfg → Act PlaneCall UnitEnv → Prop
  | _, .start _ (.call ..) => False
  | _, _ => True

/-- What a write returns. -/
def ReturnsVersion (s₀ : Units) (units : List String) :
    PlaneCall → Except Exc PlaneAnswer → Unit → Prop
  | .request (.write unit verb), .ok (.reply (.state d)), _ => unit ∈ units →
      SameState d ((stateOf unit (s₀ unit).state).set "desired" (.str verb.desired))
  | _, _, _ => True

theorem readState_op {w w' : UnitWorld} {i : ℕ} {ch : UnitEnv} {a : Except Exc Content}
    (h : w.op i ch .readState = some (a, w')) :
    (∃ c, w.state = some c ∧ a = .ok c) ∨ (w.state = none ∧ a = .error .notFound) ∨
      ∃ f, a = .error (.fault f) ∧ f ≠ .permission := by
  have hfault : ∀ f, a = .error (.fault f) → f ≠ .permission := by
    rintro f rfl
    obtain h | ⟨f', hf, hne⟩ := UnitWorld.op_answers h
    · cases h
    · cases hf
      exact hne
  rcases UnitWorld.op_cases h with ⟨-, f, hf⟩ | ⟨r', v, he, -, rfl | ⟨f, hf⟩⟩
  · exact .inr (.inr ⟨f, hf, hfault f hf⟩)
  · obtain ⟨-, h | h⟩ := UnitWorld.effect_readState he
    · exact .inl h
    · exact .inr (.inl h)
  · exact .inr (.inr ⟨f, hf, hfault f hf⟩)

section
variable [StrRepr] {units : List String} {pidProbe : ℤ → Except Exc Bool}
  {str : Json → String} {s₀ : Units}

theorem always_version {r : Request} :
    ((PlaneCall.request r).code units pidProbe str).Always (Hears s₀) (Saves s₀)
    (fun v => ReturnsVersion s₀ units (.request r) (.ok v))
    (fun e => ReturnsVersion s₀ units (.request r) (.error e)) () := by
  have hE : ∀ (e : Exc) (l : Unit), True → ReturnsVersion s₀ units (.request r) (.error e) l := by
    intro e l _
    cases r <;> trivial
  -- a program that saves nothing
  have hread : ∀ {p : PlaneProg Reply},
      (∀ x, ReturnsVersion s₀ units (.request r) (.ok (.reply x)) ()) → p.Uses (r.Performs units) →
      (∀ u, r.writes u = false) →
      (p.bind fun x => ret (PlaneAnswer.reply x)).Always (Hears s₀) (Saves s₀)
      (fun v => ReturnsVersion s₀ units (.request r) (.ok v))
      (fun e => ReturnsVersion s₀ units (.request r) (.error e)) () := by
    intro p hret hp hw
    refine always_bind.2 ((Always.of_uses (J := fun _ => True) hp ?_ trivial).mono (fun _ _ h => h)
      (fun x _ _ => hret x) (hE · ·))
    rintro ⟨u, o⟩ - ho -
    refine ⟨?_, fun _ _ _ => trivial⟩
    cases o with
    | replaceState d =>
      have := ho.saves rfl
      rw [hw] at this
      cases this
    | _ => trivial
  cases r with
  | observeFleet => exact hread (fun _ => trivial) uses_route fun _ => rfl
  | observeUnit unit => exact hread (fun _ => trivial) uses_route fun _ => rfl
  | write unit verb =>
    refine always_bind.2 ?_
    simp only [Request.route, guardUnit]
    split_ifs with hu
    · rw [Verb.call_eq hu]
      refine always_bind.2 ((always_member.2 always_setVersion).mono (fun _ _ h => h) ?_ (hE · ·))
      exact fun d _ hd _ => hd
    · trivial

/-- The invariant of requests: the state of every unit remains a version of the first one. -/
theorem requests_rely : Rely (plane units pidProbe str) OnlyRequests
    (fun s => ∀ u, Version u (s₀ u).state (s u).state) (fun _ _ => ()) (Hears s₀) (Saves s₀)
    (ReturnsVersion s₀ units) where
  start := by
    intro c i k s hp hI _ hs
    cases k with
    | request r =>
      cases hs
      exact ⟨hI, always_version, fun _ _ => rfl⟩
    | call unit k => exact hp.elim
  op := by
    rintro c i ch k ⟨u, o⟩ f r s hp hI _ hok hop
    obtain ⟨w, hunit, rfl⟩ := plane_op hop
    refine ⟨fun u' => ?_, ?_, fun _ _ => rfl⟩
    · by_cases hu : u' = u
      · subst hu
        rw [Function.update_self]
        rcases UnitWorld.op_cases hunit with ⟨rfl, -⟩ | ⟨r', v, he, rfl, -⟩
        · exact hI u'
        · rcases UnitWorld.effect_state he with hs | ⟨d, rfl, hs⟩
          · have := hI u'
            rw [← hs] at this
            exact this
          · obtain ⟨x, hx⟩ := hok
            exact .inr ⟨x, d, hs, hx⟩
      · rw [Function.update_of_ne hu]
        exact hI u'
    · cases o with
      | readState =>
        have hv := hI u
        obtain ⟨c', hc', rfl⟩ | ⟨hnone, rfl⟩ | ⟨f, rfl, hf⟩ := readState_op hunit
        · rw [hc'] at hv
          exact hv
        · rw [hnone] at hv
          exact .inl ⟨rfl, hv⟩
        · exact .inr ⟨f, rfl, hf⟩
      | _ => trivial
  finish := by
    intro c i k r hp hI _ _
    refine ⟨?_, fun _ _ => rfl⟩
    cases k with
    | request r => exact hI
    | call unit k =>
      intro u
      show Version u _ (Function.update c.sh unit ((c.sh unit).close i) u).state
      by_cases hu : u = unit
      · subst hu
        rw [Function.update_self, (UnitWorld.close_frame i).2.1]
        exact hI u
      · rw [Function.update_of_ne hu]
        exact hI u
  die := by
    intro c i hp hI
    refine ⟨fun u => ?_, fun _ _ => rfl⟩
    show Version u _ ((c.sh u).close i).state
    rw [(UnitWorld.close_frame i).2.1]
    exact hI u

end

/-! ## What a request has done -/

section
variable {unit : String} {t : Hist (IndexedVal (ι := String) UnitOp.Val) Exc} {α : Type}

/-- An answer of a directory. -/
def Answerable (o : Indexed String UnitOp) (r : Except Exc o.op.Val)
    (_ : Hist (IndexedVal (ι := String) UnitOp.Val) Exc) : Prop :=
  o.op.answers r

/-- The content has been read. -/
def readEvent (unit : String) (c : Option Content) :
    Event (IndexedVal (ι := String) UnitOp.Val) Exc :=
  ⟨⟨unit, .readState⟩, match c with
    | some c => .ok c
    | none => .error .notFound⟩

/-- The state has been saved. -/
def saveEvent (unit : String) (d : Dict) : Event (IndexedVal (ι := String) UnitOp.Val) Exc :=
  ⟨⟨unit, .replaceState d⟩, .ok ()⟩

/-- A program in a directory, in terms of the history. -/
abbrev Recounts (unit : String) (p : UnitProg α)
    (Q : α → Hist (IndexedVal (ι := String) UnitOp.Val) Exc → Prop)
    (t : Hist (IndexedVal (ι := String) UnitOp.Val) Exc) : Prop :=
  p.Always (fun o => Records Answerable ⟨unit, o⟩) (fun _ _ => True) Q (fun _ _ => True) t

/-- What has happened, has happened. -/
theorem always_stays {Op : Type} {Val : Op → Type} {p : Prog Val Exc α}
    {e : Event (IndexedVal (ι := String) UnitOp.Val) Exc}
    {step : (o : Op) → Hist (IndexedVal (ι := String) UnitOp.Val) Exc → Except Exc (Val o) →
      Hist (IndexedVal (ι := String) UnitOp.Val) Exc → Prop} (hstep : ∀ o t r t', step o t r t' →
      t ⊆ t') (he : e ∈ t) :
    p.Always step (fun _ _ => True) (fun _ t => e ∈ t) (fun _ _ => True) t :=
  Always.mono (fun _ _ h => h) (fun _ _ h => h) (fun _ _ _ => trivial)
    (Always.of_uses (J := fun t => e ∈ t) (G := fun _ _ => True)
      (uses_of_forall (fun _ => trivial) p)
      (fun _ _ _ ht => ⟨trivial, fun _ _ hs => hstep _ _ _ _ hs ht⟩) he)

theorem does_later {p : UnitProg α} {e : Event (IndexedVal (ι := String) UnitOp.Val) Exc}
    (he : e ∈ t) :
    Recounts unit p (fun _ t => e ∈ t) t :=
  always_stays (fun _ _ _ _ h => h.2 ▸ List.subset_cons_self ..) he

theorem does_loadState :
    Recounts unit (loadState unit) (fun d t =>
      ∃ c, readEvent unit c ∈ t ∧ d = stateOf unit c) t := by
  refine always_bind.2 (always_bind.2 ⟨trivial, ?_⟩)
  rintro (e | c) _ ⟨h, rfl⟩
  · obtain rfl | ⟨f, rfl, hf⟩ := h
    · exact ⟨none, List.mem_cons_self .., rfl⟩
    · cases f <;> trivial
  · have hc : readEvent unit (some c) ∈ (readEvent unit (some c) :: t) := List.mem_cons_self ..
    cases c with
    | undecodable => trivial
    | overlong => trivial
    | doc d => exact ⟨_, hc, rfl⟩
    | value v => exact ⟨_, hc, rfl⟩
    | malformed => exact ⟨_, hc, rfl⟩

theorem does_saveState {d : Dict} :
    Recounts unit (saveState (dumps d)) (fun _ t => saveEvent unit d ∈ t) t := by
  have hany : ∀ {β : Type} {p : UnitProg β} {t} {R : β → Hist _ Exc → Prop}, (∀ v t, R v t) →
      Recounts unit p R t :=
    fun hR => (Everywhere.of_uses (uses_of_forall (fun _ => trivial) _) (fun _ _ _ => trivial)
      _).mono (fun _ _ h => h)
      (fun v t _ => hR v t) fun _ _ _ => trivial
  refine always_bind.2 (hany fun _ t₁ => always_bind.2 ?_)
  cases hd : dumps d with
  | error e => trivial
  | ok d' =>
    obtain rfl := dumps_ok hd
    refine always_ret.2 (always_bind.2 (hany fun _ t₂ =>
      always_ensure.2 (Always.mono (fun _ _ h => h)
      (fun _ _ he => does_later he) (fun _ _ _ => hany fun _ _ => trivial)
      (Q := fun _ t => saveEvent unit d' ∈ t) (E := fun _ _ => True) ?_)))
    refine always_bind.2 (hany fun _ t₃ => always_bind.2 (hany fun _ t₄ => always_bind.2 ?_))
    refine always_perform.2 ⟨trivial, ?_, fun _ _ _ => trivial⟩
    rintro ⟨⟩ _ ⟨-, rfl⟩
    exact does_later (List.mem_cons_self ..)

theorem does_setDesired {desired : String} :
    Recounts unit (setDesired unit desired) (fun d t => saveEvent unit d ∈ t) t := by
  by_cases hd : desired ∈ ["enabled", "disabled", "paused"]
  swap
  · simp only [Recounts, setDesired, hd, not_false_eq_true, if_true]
    trivial
  simp only [Recounts, setDesired, hd, not_true_eq_false, if_false]
  refine always_bind.2 (does_loadState.mono (fun _ _ h => h) (fun d t _ => ?_) fun _ _ h => h)
  exact always_bind.2 (does_saveState.mono (fun _ _ h => h) (fun _ _ h => h) fun _ _ h => h)

/-- An observation tells a content that has been read. -/
def ObservedIn (t : Hist (IndexedVal (ι := String) UnitOp.Val) Exc) (unit : String)
    (o : UnitObservation) : Prop :=
  ∃ c, readEvent unit c ∈ t ∧ Tells unit c o

theorem does_observeUnit {units : List String} {pidProbe : ℤ → Except Exc Bool} :
    Recounts unit (observeUnit units pidProbe unit) (fun o t => ObservedIn t unit o) t := by
  by_cases hu : unit ∈ units
  swap
  · simp only [Recounts, observeUnit, hu, not_false_eq_true, if_true]
    trivial
  simp only [Recounts, observeUnit, hu, not_true_eq_false, if_false]
  refine always_bind.2 (does_loadState.mono (fun _ _ h => h) ?_ fun _ _ h => h)
  rintro _ t ⟨c, hc, rfl⟩
  have hend : ∀ (x : String × Option ℤ) t, readEvent unit c ∈ t → Recounts unit (do
      return ⟨unit, (stateOf unit c).get "desired",
        x.1, ← liftExcept (pyInt ((stateOf unit c).get "generation")), x.2,
        heartbeatOf (stateOf unit c)⟩ : UnitProg UnitObservation) (fun o t =>
        ObservedIn t unit o) t := by
    intro x t hc
    cases hg : pyInt ((stateOf unit c).get "generation") with
    | error e => trivial
    | ok g => exact ⟨c, hc, rfl, rfl, hg, rfl⟩
  refine always_bind.2 ⟨trivial, ?_⟩
  rintro r _ ⟨-, rfl⟩
  have hc := List.mem_cons_of_mem ⟨⟨unit, .lstatPid⟩, r⟩ hc
  refine always_ret.2 ?_
  split
  · exact hend _ _ hc
  · split_ifs
    · exact hend _ _ hc
    · trivial
  · refine always_bind.2 ((does_later hc).mono (fun _ _ h => h) (fun live t hc => ?_)
      fun _ _ h => h)
    cases live
    · exact hend _ _ hc
    · exact hend _ _ hc

end

section
variable [StrRepr] {units : List String} {pidProbe : ℤ → Except Exc Bool} {str : Json → String}
  {t : Hist (IndexedVal (ι := String) UnitOp.Val) Exc}

/-- What a request has done when it returns. -/
def Request.Done (units : List String) (str : Json → String)
    (t : Hist (IndexedVal (ι := String) UnitOp.Val) Exc) :
    Request → Reply → Prop
  | .observeFleet, x => ∃ os, x = .observations (os.map (observationAsDict str)) ∧
    List.Forall₂ (ObservedIn t) units os
  | .observeUnit unit, x => unit ∈ units →
    ∃ o, x = .observation (observationAsDict str o) ∧ ObservedIn t unit o
  | .write unit _, x => unit ∈ units → ∃ d, x = .state d ∧ saveEvent unit d ∈ t

omit [StrRepr] in
theorem does_observeAll {l : List String} :
    (WorkerControlPlane.observeAll units pidProbe l).Always (Records Answerable) (fun _ _ => True)
    (fun os t => List.Forall₂ (ObservedIn t) l os) (fun _ _ => True) t := by
  induction l generalizing t with
  | nil => exact .nil
  | cons unit l ih =>
    refine always_bind.2 ((always_member.2 does_observeUnit).mono (fun _ _ h => h)
      (fun o t ho => ?_) fun _ _ h => h)
    obtain ⟨c, hc, htells⟩ := ho
    refine always_bind.2 ((ih.and
      (always_stays (fun _ _ _ _ h => h.2 ▸ List.subset_cons_self ..) hc)).mono
      (fun _ _ _ => trivial) ?_ fun _ _ _ => trivial)
    rintro os t' ⟨hos, hc⟩
    exact .cons ⟨c, hc, htells⟩ hos

theorem does_request {r : Request} :
    ((PlaneCall.request r).code units pidProbe str).Always (Records Answerable) (fun _ _ => True)
    (fun x t => ∃ y, x = .reply y ∧ r.Done units str t y) (fun _ _ => True) t := by
  refine always_bind.2 (Always.mono (fun _ _ h => h) (fun x t hx => ⟨x, rfl, hx⟩) (fun _ _ h => h)
    (Q := fun y t => r.Done units str t y) (E := fun _ _ => True) ?_)
  cases r with
  | observeFleet =>
    exact always_bind.2 (does_observeAll.mono (fun _ _ h => h) (fun os t hos => ⟨os, rfl, hos⟩)
      fun _ _ h => h)
  | observeUnit unit =>
    simp only [Request.route, guardUnit]
    split_ifs with hu
    · exact always_bind.2 ((always_member.2 does_observeUnit).mono (fun _ _ h => h)
        (fun o t ho _ => ⟨o, rfl, ho⟩) fun _ _ h => h)
    · exact fun hu' => absurd hu' hu
  | write unit verb =>
    simp only [Request.route, guardUnit]
    split_ifs with hu
    · rw [Verb.call_eq hu]
      exact always_bind.2 ((always_member.2 does_setDesired).mono (fun _ _ h => h)
        (fun d t hd _ => ⟨d, rfl, hd⟩) fun _ _ h => h)
    · exact fun hu' => absurd hu' hu

/-! ## The moments of a request -/

/-- A run in which only requests are made, and thread `i` goes on with its call. -/
def Serving (i : ℕ) (c : PlaneCfg) (a : Act PlaneCall UnitEnv) : Prop :=
  OnlyRequests c a ∧ a ≠ .finish i ∧ a ≠ .kill i

/-- The configuration lies between two others of a run. -/
def During (units : List String) (pidProbe : ℤ → Except Exc Bool) (str : Json → String) (i : ℕ)
    (c₁ c c' : PlaneCfg) :
    Prop :=
  (plane units pidProbe str).Reach (Serving i) c₁ c' ∧
    (plane units pidProbe str).Reach (Serving i) c' c

/-- The request of thread `i` has taken effect between two configurations, and `x` tells so. -/
def Request.TakesEffect (units : List String) (pidProbe : ℤ → Except Exc Bool) (str : Json → String)
    (i : ℕ) (c₁ c : PlaneCfg) : Request → Reply → Prop
  | .observeFleet, x => ∃ os, x = .observations (os.map (observationAsDict str)) ∧
      List.Forall₂ (fun u o =>
      ∃ c', During units pidProbe str i c₁ c c' ∧ Tells u (c'.sh u).state o) units os
  | .observeUnit u, x => ∃ o, x = .observation (observationAsDict str o) ∧
      ∃ c', During units pidProbe str i c₁ c c' ∧ Tells u (c'.sh u).state o
  | .write u verb, x => ∃ c' ch c'' d, During units pidProbe str i c₁ c c' ∧
      (plane units pidProbe str).step c' (.op i ch) = some c'' ∧
        During units pidProbe str i c₁ c c'' ∧ x = .state d ∧
      (c''.sh u).state = some (.doc d) ∧
      SameState d ((stateOf u (c'.sh u).state).set "desired" (.str verb.desired)) ∧
        ∀ v ≠ u, c''.sh v = c'.sh v

/-- A reading has seen the state of a moment. -/
theorem During.of_read {i : ℕ} {c₁ c c' c'' : PlaneCfg} {u : String} {content : Option Content}
    (h : Moment (plane units pidProbe str) (Serving i) c₁ c i (readEvent u content) c' c'') :
    During units pidProbe str i c₁ c c' ∧ (c'.sh u).state = content := by
  obtain ⟨ch, hp, hs, hop⟩ := h.step
  refine ⟨⟨h.before, (Reach.refl.step hp hs).trans h.after⟩, ?_⟩
  obtain ⟨w, hunit, -⟩ := plane_op hop
  obtain ⟨c₂, hc₂, ha⟩ | ⟨hnone, ha⟩ | ⟨f, ha, -⟩ := readState_op hunit
  · cases content with
    | none => cases ha
    | some c₃ =>
      cases ha
      exact hc₂
  · cases content with
    | none => exact hnone
    | some c₃ => cases ha
  · cases content <;> cases ha

/-- A save has changed the state of the unit, and nothing of the others. -/
theorem During.of_save {i : ℕ} {c₁ c c' c'' : PlaneCfg} {u : String} {d : Dict}
    (h : Moment (plane units pidProbe str) (Serving i) c₁ c i (saveEvent u d) c' c'') :
    During units pidProbe str i c₁ c c' ∧
    (∃ ch, (plane units pidProbe str).step c' (.op i ch) = some c'') ∧
    During units pidProbe str i c₁ c c'' ∧ (c''.sh u).state = some (.doc d) ∧
    ∀ v ≠ u, c''.sh v = c'.sh v := by
  obtain ⟨ch, hp, hs, hop⟩ := h.step
  obtain ⟨w, hunit, hupdate⟩ := plane_op hop
  have hw : c''.sh = Function.update c'.sh u w := hupdate
  refine ⟨⟨h.before, (Reach.refl.step hp hs).trans h.after⟩, ⟨ch, hs⟩,
    ⟨h.before.step hp hs, h.after⟩, ?_, fun v hv => ?_⟩
  · rw [hw, Function.update_self]
    rcases UnitWorld.op_cases hunit with ⟨-, f, hf⟩ | ⟨r', v, he, rfl, -⟩
    · cases hf
    · cases he
      rfl
  · rw [hw, Function.update_of_ne hv]

end

section

local instance unitNames : StrRepr := plainNames

/-- Two units are declared. -/
def twoUnitPlane : Machine (IndexedVal (ι := String) UnitOp.Val) Exc PlaneAnswer
    Units PlaneCall UnitEnv :=
  plane ["a", "b"] (fun _ => .ok false) fun _ => ""

/-- An operation, or the start of a request. -/
def serves : PlaneCfg → Act PlaneCall UnitEnv → Bool
  | _, .op .. | _, .start _ (.request _) => true
  | _, _ => false

theorem onlyRequests_of_serves (c : PlaneCfg) (a : Act PlaneCall UnitEnv) (h : serves c a = true) :
    OnlyRequests c a := by
  cases a with
  | start i k =>
    cases k with
    | request r => trivial
    | call u k => cases h
  | _ => trivial

theorem serving_of_serves (c : PlaneCfg) (a : Act PlaneCall UnitEnv) (h : serves c a = true) :
    Serving 0 c a := by
  refine ⟨onlyRequests_of_serves c a h, ?_, ?_⟩
  · rintro rfl
    cases h
  · rintro rfl
    cases h

/-- What the write of thread 0 has returned. -/
def pauseAnswer (c : PlaneCfg) : Option PlaneAnswer :=
  match c.run 0 with
  | some (.request (.write "a" .pause), .ret x) => some x
  | _ => none

theorem run_of_pauseAnswer {c : PlaneCfg} {x : PlaneAnswer} (h : pauseAnswer c = some x) :
    c.run 0 = some (.request (.write "a" .pause), .ret x) := by
  unfold pauseAnswer at h
  split at h
  · cases h
    assumption
  · cases h

/-- A write within an observation, run to its return. -/
theorem exists_pause : ∃ c₀ c₁ c x, twoUnitPlane.Reach OnlyRequests (idle newUnits) c₀ ∧
    twoUnitPlane.step c₀ (.start 0 (.request (.write "a" .pause))) = some c₁ ∧
    twoUnitPlane.Reach (Serving 0) c₁ c ∧
    c.run 0 = some (.request (.write "a" .pause), .ret x) := by
  have hrun : ((twoUnitPlane.run serves (idle newUnits)
      [.start 1 (.request (.observeUnit "a")), .op 1 {}]).bind fun c₀ =>
      (twoUnitPlane.step c₀ (.start 0 (.request (.write "a" .pause)))).bind fun c₁ =>
        (twoUnitPlane.run serves c₁ (List.replicate 10 (.op 0 {}) ++ [.op 1 {}])).bind
        pauseAnswer).isSome = true := by
    decide +kernel
  obtain ⟨x, hrun⟩ := Option.isSome_iff_exists.1 hrun
  obtain ⟨c₀, h₀, hrun⟩ := Option.bind_eq_some_iff.1 hrun
  obtain ⟨c₁, hs, hrun⟩ := Option.bind_eq_some_iff.1 hrun
  obtain ⟨c, h, hx⟩ := Option.bind_eq_some_iff.1 hrun
  exact ⟨c₀, c₁, c, x, .of_run onlyRequests_of_serves h₀, hs, .of_run serving_of_serves h,
    run_of_pauseAnswer hx⟩

end

end DatasourceKit

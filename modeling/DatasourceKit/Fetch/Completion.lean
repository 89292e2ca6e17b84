/-
  A walk over a sequence that nothing fails (`SequencePlanner`, `FetchIntent`, `WorkerHost`).

  * `SequencePlanner.Smooth`: the calls outside the package return, nobody stops the host,
    and the store answers its content;
  * `Progress`, `SmoothStep`: what the host's calls then do to the walk;
    `smooth_call`: that the intent makes them do so;
  * `sequence_completes`: from any stored unit on, a run fetches and persists each unit that
    is left, once and in order, and returns.
-/
import DatasourceKit.Fetch.Sequence

namespace DatasourceKit

open Interleave Interleave.Prog

section
variable {Ref P ε : Type}

/-- The units that have been fetched, in this order. -/
def fetchedUnits : FetchHist Ref P ε → List Ref
  | [] => []
  | ⟨.fetch ref, .ok _⟩ :: u => fetchedUnits u ++ [ref]
  | _ :: u => fetchedUnits u

/-- The planner answers for itself; the other calls return, nobody else runs the host or
    stops it, and the store answers its content. -/
def SequencePlanner.Smooth [StrRepr] (p : SequencePlanner Ref) :
    (o : FetchOp Ref P ε) → Except (HostExc ε) o.Val → FetchHist Ref P ε → Prop
  | .plan cursor, r, _ => r = p.plan cursor
  | .checkpointAfter _ q, r, _ => r = p.checkpointAfter q
  | .host .acquire, r, _ => r = .ok true
  | .host .isSet, r, _ => r = .ok false
  | .host .load, r, u => r = .ok (fetchContent u)
  | _, r, _ => ∃ v, r = .ok v

/-! ## The calls of the host -/

/-- How far a walk has got: the units that are stored, and those fetched and handed over in
    this run. -/
structure Progress (Ref : Type) where
  stored : ℕ
  fetched : List Ref := []
  handed : List Ref := []

/-- What is left to do. -/
def Progress.left (s : Progress Ref) (p : SequencePlanner Ref) : ℕ := p.units.length - s.stored

/-- What the host then tells after a unit. -/
def nextDirective (p : SequencePlanner Ref) (i : FetchIntent) (n : ℕ) : WorkDirective :=
  if n + 1 < p.units.length then .cont else i.exhausted

/-- What a call of the host does to the walk. -/
def SmoothStep (p : SequencePlanner Ref) (i : FetchIntent) :
    (o : WorkerOp (FetchObj Ref P) ε) → Progress Ref →
    Except (HostExc ε) o.Val → Progress Ref → Prop
  | .acquire, s, r, s' | .hasOutput, s, r, s' => r = .ok true ∧ s' = s
  | .isSet, s, r, s' => r = .ok false ∧ s' = s
  | .load, s, r, s' => r = .ok (p.stored s.stored) ∧ s' = s
  | .plan _, s, r, s' => s' = s ∧
      ((∃ q, r = .ok (.decision (some .cont) (.plan q)) ∧ p.Plans s.stored q) ∨
        (p.units.length ≤ s.stored ∧ ∃ w, r = .ok (.decision (some .stop) w)))
  | .fetch w, s, r, s' => ∃ q x, w = .plan q ∧ r = .ok (.payload x) ∧
    s' = { s with fetched := s.fetched ++ [q.ref] }
  | .transform y _, s, r, s' => r = .ok y ∧ s' = s
  | .output y _, s, r, s' =>
    r = .ok (some ⟨.result y, true, p.stored (s.stored + 1), some (nextDirective p i s.stored)⟩) ∧
      s' = s
  | .persist _ w, s, r, s' => ∃ q, w = .plan q ∧ r = .ok () ∧
    s' = { s with handed := s.handed ++ [q.ref] }
  | .save _, s, r, s' => r = .ok () ∧ s' = { s with stored := s.stored + 1 }
  | _, s, r, s' => (∃ v, r = .ok v) ∧ s' = s

/-- Where the host makes a call. -/
def SmoothGuard (p : SequencePlanner Ref) : WorkerOp (FetchObj Ref P) ε → Progress Ref → Prop
  | .plan c, s => c = p.stored s.stored
  | .fetch w, s => ∃ q, w = .plan q ∧ p.Plans s.stored q
  | .output _ w, s => ∃ q, w = .plan q ∧ p.Plans s.stored q
  | .persist res w, s => ∃ y q, res = .result y ∧ w = .plan q ∧ p.Plans s.stored q
  | .save c, s => c = p.stored (s.stored + 1) ∧ s.stored < p.units.length
  | .hasCheckpoint, _ | .checkpoint _ _, _ => False
  | _, _ => True

/-- The history `u`, of which `u₀` was there before the run, is as far as `s`. -/
structure SmoothShows (p : SequencePlanner Ref) (u₀ : FetchHist Ref P ε) (s : Progress Ref)
    (u : FetchHist Ref P ε) : Prop where
  le : s.stored ≤ p.units.length
  content : fetchContent u = p.stored s.stored
  fetched : fetchedUnits u = fetchedUnits u₀ ++ s.fetched
  handed : DatasourceKit.handed u = DatasourceKit.handed u₀ ++ s.handed.map some

end

/-! ## The answers of the planner -/

namespace SequencePlanner
variable {Ref P ε : Type} [StrRepr] {p : SequencePlanner Ref} {n : ℕ} {q : FetchPlan Ref}

/-- The cursor of a unit. -/
def cursorAt (p : SequencePlanner Ref) (i : Fin p.units.length) : Cursor :=
  ⟨p.kind, p.encode (p.units.get i), p.kind_text, p.value_text _ (List.get_mem p.units i)⟩

omit [StrRepr] in
theorem continueAt_eq (i : Fin p.units.length) :
    p.continueAt (ε := ε) (P := P) i =
    .ok (.decision (some .cont) (.plan ⟨p.units.get i, p.cursorAt i⟩)) := by
  have hmake : Cursor.make (ε := ε) p.kind (p.encode (p.units.get i)) = .ok (p.cursorAt i) :=
    Cursor.make_self (p.cursorAt i)
  change (Cursor.make p.kind (p.encode (p.units.get i))).bind _ = _
  rw [hmake]
  rfl

omit [StrRepr] in
theorem plans_cursorAt (i : Fin p.units.length) :
    p.Plans i ⟨p.units.get i, p.cursorAt i⟩ := ⟨by simp, rfl, rfl⟩

/-- **The plan after the first `n` units**: the next one, or the end. -/
theorem plan_stored (hn : n ≤ p.units.length) :
    ∃ cursor, cursorFromCheckpoint (ε := ε) (p.stored n : FetchObj Ref P) = .ok cursor ∧
      ((∃ q, p.plan (ε := ε) (P := P) cursor = .ok (.decision (some .cont) (.plan q)) ∧
        p.Plans n q) ∨
        (p.units.length ≤ n ∧ p.plan (ε := ε) (P := P) cursor =
          .ok (.decision (some .stop) .null))) := by
  cases n with
  | zero =>
    refine ⟨none, rfl, ?_⟩
    unfold plan
    by_cases hunits : p.units = []
    · exact .inr ⟨by simp [hunits], by rw [dif_pos hunits]⟩
    · rw [dif_neg hunits]
      have hpos : 0 < p.units.length := List.length_pos_iff.2 hunits
      exact .inl ⟨_, continueAt_eq ⟨0, hpos⟩, plans_cursorAt (p := p) ⟨0, hpos⟩⟩
  | succ n =>
    have hx : p.units[n]? = some p.units[n] := List.getElem?_eq_getElem hn
    have hcursor : cursorFromCheckpoint (ε := ε) (p.stored (n + 1) : FetchObj Ref P) =
        .ok (some (p.cursorAt ⟨n, hn⟩)) := by
      have hmake : Cursor.make (ε := ε) p.kind (p.encode p.units[n]) = .ok (p.cursorAt ⟨n, hn⟩) :=
        Cursor.make_self (p.cursorAt ⟨n, hn⟩)
      rw [stored_succ hx]
      simp only [cursorFromCheckpoint, checkpointOf, hmake, Except.map]
    refine ⟨_, hcursor, ?_⟩
    have hunits : p.units ≠ [] := List.ne_nil_of_length_pos (Nat.lt_of_lt_of_le (Nat.succ_pos n) hn)
    have hlookup : p.index.lookup (p.cursorAt ⟨n, hn⟩).value = some n := lookup_index hx
    unfold plan
    rw [dif_neg hunits]
    simp only [requireKind, cursorAt, if_true] at hlookup ⊢
    simp only [hlookup]
    by_cases hlt : n + 1 < p.units.length
    · rw [dif_pos hlt]
      exact .inl ⟨_, continueAt_eq ⟨n + 1, hlt⟩, plans_cursorAt (p := p) ⟨n + 1, hlt⟩⟩
    · rw [dif_neg hlt]
      exact .inr ⟨Nat.le_of_not_lt hlt, rfl⟩

/-- **The answer after the `n`-th unit.** -/
theorem checkpointAfter_plans (hq : p.Plans n q) :
    p.checkpointAfter (ε := ε) q =
    .ok (if p.units.length ≤ n + 1 then .none else .cursor q.cursor) := by
  unfold checkpointAfter
  simp only [requireKind, hq.2.1, if_true, hq.2.2, lookup_index hq.1]
  rfl

end SequencePlanner

/-! ## The intent -/

section
variable {Ref P ε : Type} [StrRepr] {p : SequencePlanner Ref} {i : FetchIntent}
  {u₀ u : FetchHist Ref P ε} {s : Progress Ref}

/-- How the call `o` of the host is answered. -/
abbrev SmoothReplied (p : SequencePlanner Ref) (i : FetchIntent) (u₀ : FetchHist Ref P ε)
    (s : Progress Ref) (o : WorkerOp (FetchObj Ref P) ε) (r : Except (HostExc ε) o.Val)
    (u : FetchHist Ref P ε) : Prop :=
  ∃ s', SmoothStep p i o s r s' ∧ SmoothShows p u₀ s' u

omit [StrRepr] in
/-- An event that neither stores, nor fetches, nor hands over. -/
theorem SmoothShows.quiet (h : SmoothShows p u₀ s u) {o : FetchOp Ref P ε}
    (r : Except (HostExc ε) o.Val) (hcontent : fetchContent (⟨o, r⟩ :: u) = fetchContent u)
    (hfetched : fetchedUnits (⟨o, r⟩ :: u) = fetchedUnits u)
    (hhanded : DatasourceKit.handed (⟨o, r⟩ :: u) = DatasourceKit.handed u) :
    SmoothShows p u₀ s (⟨o, r⟩ :: u) :=
  ⟨h.le, hcontent.trans h.content, hfetched.trans h.fetched, hhanded.trans h.handed⟩

/-- A call that is passed on to the host's own environment. -/
theorem smooth_pass {o : WorkerOp (FetchObj Ref P) ε}
    (hquiet : ∀ r, SmoothShows p u₀ s (⟨.host o, r⟩ :: u))
    (hstep : ∀ r, p.Smooth (.host o) r u → SmoothStep p i o s r s) :
    (perform (FetchOp.host o) : FetchProg Ref P ε o.Val).Always (Records p.Smooth) (fun _ _ => True)
      (fun v => SmoothReplied p i u₀ s o (.ok v))
      (fun e => SmoothReplied p i u₀ s o (.error e)) u :=
  always_event (G := fun _ _ => True) trivial (fun _ hv => ⟨s, hstep _ hv, hquiet _⟩) fun _ he =>
    ⟨s, hstep _ he, hquiet _⟩

theorem smooth_plan (h : SmoothShows p u₀ s u) :
    (FetchIntent.plan (p.stored s.stored) : FetchProg Ref P ε _).Always (Records p.Smooth)
    (fun _ _ => True) (fun v => SmoothReplied p i u₀ s (.plan (p.stored s.stored)) (.ok v))
      (fun e => SmoothReplied p i u₀ s (.plan (p.stored s.stored)) (.error e)) u := by
  obtain ⟨cursor, hcursor, hplan⟩ := SequencePlanner.plan_stored (ε := ε) (P := P) h.le
  unfold FetchIntent.plan
  rw [hcursor]
  have hquiet : ∀ r, SmoothShows p u₀ s (⟨.plan cursor, r⟩ :: u) := fun r =>
    h.quiet (o := .plan cursor) r rfl rfl rfl
  refine always_bind.2 (always_ret.2
    (always_bind.2 (always_event (G := fun _ _ => True) trivial (fun d hd => ?_) fun e he => ?_)))
  · rcases hplan with ⟨q, hq, hplans⟩ | ⟨hend, hstop⟩
    · cases Except.ok.inj (Eq.trans hd hq)
      exact ⟨s, ⟨rfl, .inl ⟨q, rfl, hplans⟩⟩, hquiet _⟩
    · cases Except.ok.inj (Eq.trans hd hstop)
      exact ⟨s, ⟨rfl, .inr ⟨hend, _, rfl⟩⟩, hquiet _⟩
  · rcases hplan with ⟨q, hq, -⟩ | ⟨-, hstop⟩
    · cases Eq.trans he hq
    · cases Eq.trans he hstop

theorem smooth_output {y : FetchObj Ref P} {q : FetchPlan Ref} (h : SmoothShows p u₀ s u)
    (hq : p.Plans s.stored q) :
    (i.output y (.plan q) : FetchProg Ref P ε _).Always (Records p.Smooth) (fun _ _ => True)
      (fun v => SmoothReplied p i u₀ s (.output y (.plan q)) (.ok v))
      (fun e => SmoothReplied p i u₀ s (.output y (.plan q)) (.error e)) u := by
  have hanswer := SequencePlanner.checkpointAfter_plans (ε := ε) hq
  have hnext := SequencePlanner.nextCheckpoint_plans (ε := ε) (P := P) hq hanswer
  have hquiet : ∀ r, SmoothShows p u₀ s (⟨.checkpointAfter y q, r⟩ :: u) := fun r =>
    h.quiet (o := .checkpointAfter y q) r rfl rfl rfl
  refine always_bind.2 (always_ret.2
    (always_bind.2 (always_event (G := fun _ _ => True) trivial (fun a ha => ?_) fun e he => ?_)))
  · cases Except.ok.inj (Eq.trans ha hanswer)
    by_cases hlast : p.units.length ≤ s.stored + 1
    · simp only [if_pos hlast] at hnext ⊢
      refine ⟨s, ⟨?_, rfl⟩, hquiet _⟩
      simp only [nextDirective, if_neg (Nat.not_lt.2 hlast)]
      exact congrArg (fun c => Except.ok (some (SourceOutput.mk _ true c _))) hnext
    · simp only [if_neg hlast] at hnext ⊢
      refine ⟨s, ⟨?_, rfl⟩, hquiet _⟩
      simp only [nextDirective, if_pos (Nat.lt_of_not_le hlast)]
      exact congrArg (fun c => Except.ok (some (SourceOutput.mk _ true c _))) hnext
  · cases Eq.trans he hanswer

/-- **The intent makes the walk go on** as the host's calls say. -/
theorem smooth_call (i : FetchIntent) (o : WorkerOp (FetchObj Ref P) ε) (h : SmoothShows p u₀ s u)
    (hg : SmoothGuard p o s) :
    (i.call o : FetchProg Ref P ε o.Val).Always (Records p.Smooth) (fun _ _ => True)
      (fun v => SmoothReplied p i u₀ s o (.ok v))
      (fun e => SmoothReplied p i u₀ s o (.error e)) u := by
  cases o with
  | plan c =>
    obtain rfl : c = p.stored s.stored := hg
    exact smooth_plan h
  | fetch w =>
    obtain ⟨q, rfl, hq⟩ := hg
    refine always_bind.2 (always_ret.2
      (always_bind.2 (always_event (G := fun _ _ => True) trivial (fun x _ => ?_) fun e he => ?_)))
    · refine ⟨_, ⟨q, x, rfl, rfl, rfl⟩, h.le, h.content, ?_, h.handed⟩
      show fetchedUnits u ++ [q.ref] = _
      rw [h.fetched, List.append_assoc]
    · obtain ⟨v, hv⟩ := he
      cases hv
  | transform y w => exact ⟨s, ⟨rfl, rfl⟩, h⟩
  | hasOutput => exact ⟨s, ⟨rfl, rfl⟩, h⟩
  | output y w =>
    obtain ⟨q, rfl, hq⟩ := hg
    exact smooth_output h hq
  | persist res w =>
    obtain ⟨y, q, rfl, rfl, hq⟩ := hg
    refine always_event (G := fun _ _ => True) trivial (fun v _ => ?_) fun e he => ?_
    · refine ⟨_, ⟨q, rfl, rfl, rfl⟩, h.le, h.content, h.fetched, ?_⟩
      show DatasourceKit.handed u ++ [some q.ref] = _
      rw [h.handed, List.append_assoc, List.map_append]
      rfl
    · obtain ⟨v, hv⟩ := he
      cases hv
  | save c =>
    obtain ⟨rfl, hlt⟩ := hg
    refine always_event (G := fun _ _ => True) trivial
      (fun v _ => ⟨_, ⟨rfl, rfl⟩, hlt, rfl, h.fetched, h.handed⟩) fun e he => ?_
    obtain ⟨v, hv⟩ := he
    cases hv
  | hasCheckpoint => exact hg.elim
  | checkpoint y w => exact hg.elim
  | load =>
    refine smooth_pass (fun r => h.quiet r rfl rfl rfl) fun r hr => ⟨?_, rfl⟩
    rw [← h.content]
    exact hr
  | _ => exact smooth_pass (fun r => h.quiet r rfl rfl rfl) fun r hr => ⟨hr, rfl⟩

end

/-! ## The host -/

section
variable {Ref P ε : Type} {p : SequencePlanner Ref} {i : FetchIntent}
  {s : Progress Ref} (h : WorkerHost ε)

/-- The program of the host returns so. -/
abbrev SmoothRun {α : Type} (p : SequencePlanner Ref) (i : FetchIntent)
    (q : WorkerProg (FetchObj Ref P) ε α) (Q : α → Progress Ref → Prop) (s : Progress Ref) : Prop :=
  q.Always (SmoothStep p i) (SmoothGuard p) Q (fun _ _ => False) s

theorem SmoothRun.mono {α : Type} {q : WorkerProg (FetchObj Ref P) ε α}
    {Q Q' : α → Progress Ref → Prop} (hq : SmoothRun p i q Q s) (hQ : ∀ a s, Q a s → Q' a s) :
    SmoothRun p i q Q' s :=
  Always.mono (fun _ _ h => h) hQ (fun _ _ h => h) hq

/-- What comes after a part that is caught, and does not raise. -/
theorem SmoothRun.caught {α β : Type} {q : WorkerProg (FetchObj Ref P) ε α}
    {f : Except (HostExc ε) α → WorkerProg (FetchObj Ref P) ε β} {Q : α → Progress Ref → Prop}
    {Q' : β → Progress Ref → Prop} (hq : SmoothRun p i q Q s)
    (hf : ∀ a s, Q a s → SmoothRun p i (f (.ok a)) Q' s) : SmoothRun p i (q.catching.bind f) Q' s :=
  always_bind.2 (always_catching.2 (Always.mono (fun _ _ h => h) hf (fun _ _ h => h.elim) hq))

/-- What comes after a part that leaves the walk where it is. -/
theorem SmoothRun.still {α β : Type} {q : WorkerProg (FetchObj Ref P) ε α}
    {f : α → WorkerProg (FetchObj Ref P) ε β} {Q : β → Progress Ref → Prop}
    (hq : SmoothRun p i q (fun _ s' => s' = s) s) (hf : ∀ a, SmoothRun p i (f a) Q s) :
    SmoothRun p i (q.bind f) Q s :=
  always_bind.2 (hq.mono fun a _ hs => hs ▸ hf a)

theorem smooth_emit {state : String} {v : Loop (FetchObj Ref P)} {retryIn : Option ℚ} :
    SmoothRun p i (h.emit state v none retryIn) (fun _ s' => s' = s) s := by
  unfold WorkerHost.emit
  split_ifs
  · rfl
  refine always_bind.2 (always_perform.2 ⟨trivial, ?_, ?_⟩)
  · rintro now s' ⟨-, rfl⟩
    refine always_handle.2 (always_perform.2 ⟨trivial, ?_, ?_⟩)
    · rintro v s'' ⟨-, rfl⟩
      rfl
    · rintro e s'' ⟨⟨v, hv⟩, -⟩
      cases hv
  · rintro e s' ⟨⟨v, hv⟩, -⟩
    cases hv

theorem smooth_wait {seconds : ℚ} :
    SmoothRun p i (h.wait seconds : WorkerProg (FetchObj Ref P) ε Unit) (fun _ s' => s' = s) s := by
  unfold WorkerHost.wait
  split_ifs
  · refine always_perform.2 ⟨trivial, ?_, ?_⟩
    · rintro v s' ⟨-, rfl⟩
      rfl
    · rintro e s' ⟨⟨v, hv⟩, -⟩
      cases hv
  · refine always_bind.2 (always_perform.2 ⟨trivial, ?_, ?_⟩)
    · rintro b s' ⟨hb, rfl⟩
      cases hb
      refine always_perform.2 ⟨trivial, ?_, ?_⟩
      · rintro v s'' ⟨-, rfl⟩
        rfl
      · rintro e s'' ⟨⟨v, hv⟩, -⟩
        cases hv
    · rintro e s' ⟨hb, -⟩
      cases hb

theorem smooth_planStage {v : Loop (FetchObj Ref P)} (hv : v.checkpoint = p.stored s.stored) :
    SmoothRun p i (WorkerHost.planStage (ε := ε) v) (fun d s' => s' = s ∧
      ((∃ q, d = .work (.plan q) none ∧ p.Plans s.stored q) ∨
        p.units.length ≤ s.stored ∧ d = .stop)) s := by
  refine always_bind.2 (always_perform.2 ⟨hv, ?_, ?_⟩)
  · rintro d s' ⟨rfl, ⟨q, hd, hq⟩ | ⟨hend, w, hd⟩⟩
    · cases hd
      exact ⟨rfl, .inl ⟨q, rfl, hq⟩⟩
    · cases hd
      exact ⟨rfl, .inr ⟨hend, rfl⟩⟩
  · rintro e s' ⟨rfl, ⟨q, hd, -⟩ | ⟨-, w, hd⟩⟩ <;> cases hd

/-- The walk when the next unit is done. -/
def Progress.next (s : Progress Ref) (x : Ref) :
    Progress Ref := ⟨s.stored + 1, s.fetched ++ [x], s.handed ++ [x]⟩

/-- **The work on a unit**: it is fetched, handed over and stored. -/
theorem smooth_workStage {v : Loop (FetchObj Ref P)} {q : FetchPlan Ref} (hq : p.Plans s.stored q) :
    SmoothRun p i (h.workStage v (.plan q) none)
      (fun x s' => x = (p.stored (s.stored + 1), nextDirective p i s.stored) ∧
        s' = s.next q.ref) s := by
  refine (smooth_emit h).still fun _ => always_bind.2 (always_perform.2 ⟨⟨q, rfl, hq⟩, ?_, ?_⟩)
  · rintro y s₁ ⟨_, x, hw, hy, rfl⟩
    cases hw
    cases hy
    refine always_bind.2 (always_perform.2 ⟨trivial, ?_, ?_⟩)
    · rintro z _ ⟨hz, rfl⟩
      cases hz
      have hresult : SmoothRun p i
          (WorkerHost.resultStage (ε := ε) (.payload x) (.plan q) none) (fun out s' =>
          out = (p.stored (s.stored + 1), nextDirective p i s.stored) ∧
            s' = ⟨s.stored, s.fetched ++ [q.ref], s.handed ++ [q.ref]⟩)
          { s with fetched := s.fetched ++ [q.ref] } := by
        refine always_bind.2 (always_perform.2 ⟨trivial, ?_, ?_⟩)
        · rintro b _ ⟨hb, rfl⟩
          cases hb
          refine always_bind.2 (always_perform.2 ⟨⟨q, rfl, hq⟩, ?_, ?_⟩)
          · rintro out _ ⟨hout, rfl⟩
            cases hout
            refine always_bind.2 (always_perform.2 ⟨⟨_, q, rfl, rfl, hq⟩, ?_, ?_⟩)
            · rintro _ _ ⟨_, hw, -, rfl⟩
              cases hw
              exact ⟨rfl, rfl⟩
            · rintro e _ ⟨_, -, he, -⟩
              cases he
          · rintro e _ ⟨he, -⟩
            cases he
        · rintro e _ ⟨he, -⟩
          cases he
      refine always_bind.2 (hresult.mono ?_)
      rintro out _ ⟨rfl, rfl⟩
      have hlt : s.stored < p.units.length := (List.getElem?_eq_some_iff.1 hq.1).1
      refine always_bind.2 (always_perform.2 ⟨⟨rfl, hlt⟩, ?_, ?_⟩)
      · rintro _ _ ⟨-, rfl⟩
        exact ⟨rfl, rfl⟩
      · rintro e _ ⟨he, -⟩
        cases he
    · rintro e _ ⟨he, -⟩
      cases he
  · rintro e _ ⟨_, x, -, he, -⟩
    cases he

theorem smooth_afterCommit {v : Loop (FetchObj Ref P)} {directive : WorkDirective} :
    SmoothRun p i (h.afterCommit v directive)
    (fun stop s' => s' = s ∧ (stop = true → directive = .stop)) s := by
  refine (smooth_emit h).still fun _ => ?_
  cases directive with
  | stop => exact ⟨rfl, fun _ => rfl⟩
  | idle => exact (smooth_emit h).still fun _ => (smooth_wait h).still fun _ =>
    ⟨rfl, fun hf => nomatch hf⟩
  | cont => exact ⟨rfl, fun hf => nomatch hf⟩

/-- A run that has begun after the first `m` units. -/
structure Walking (p : SequencePlanner Ref) (m : ℕ) (v : Loop (FetchObj Ref P))
    (s : Progress Ref) : Prop where
  begun : m ≤ s.stored
  le : s.stored ≤ p.units.length
  checkpoint : v.checkpoint = p.stored s.stored
  fetched : s.fetched = (p.units.take s.stored).drop m
  handed : s.handed = (p.units.take s.stored).drop m
  completed : v.completed = s.stored - m
  failures : v.failures = 0

theorem Walking.next {m : ℕ} {v : Loop (FetchObj Ref P)} {q : FetchPlan Ref} (hw : Walking p m v s)
    (hq : p.Plans s.stored q) {n : ℕ} :
    Walking p m ({ v with checkpoint := p.stored (s.stored + 1),
                          completed := v.completed + 1, consecutive := n } :
      Loop (FetchObj Ref P)) (s.next q.ref) := by
  have hlt : s.stored < p.units.length := (List.getElem?_eq_some_iff.1 hq.1).1
  have htake : (p.units.take (s.stored + 1)).drop m =
      (p.units.take s.stored).drop m ++ [q.ref] := by
    rw [List.take_add_one, hq.1, Option.toList_some, List.drop_append_of_le_length]
    rw [List.length_take, Nat.min_eq_left hw.le]
    exact hw.begun
  refine ⟨Nat.le_succ_of_le hw.begun, hlt, rfl, ?_, ?_, ?_, hw.failures⟩
  · show s.fetched ++ [q.ref] = (p.units.take (s.stored + 1)).drop m
    rw [htake, ← hw.fetched]
  · show s.handed ++ [q.ref] = (p.units.take (s.stored + 1)).drop m
    rw [htake, ← hw.handed]
  · show v.completed + 1 = s.stored + 1 - m
    rw [hw.completed, Nat.succ_sub hw.begun]

/-- The run has come to the end of the sequence. -/
def Finished (p : SequencePlanner Ref) (m : ℕ) (e : LoopEnd (FetchObj Ref P) ε)
    (s : Progress Ref) : Prop :=
  e.2 = .ok () ∧ s.stored = p.units.length ∧ Walking p m e.1 s

/-- **One round**: a unit more is done, or none is left. -/
theorem smooth_round {m : ℕ} {v : Loop (FetchObj Ref P)} (hw : Walking p m v s) :
    SmoothRun p i (h.round none v) (fun x s' => match x with
      | .inl v' => Walking p m v' s' ∧ s'.left p < s.left p
      | .inr e => Finished p m e s') s := by
  refine always_bind.2 (always_catching.2 (always_perform.2 ⟨trivial, ?_, ?_⟩))
  · rintro b s ⟨hb, rfl⟩
    cases hb
    refine (smooth_planStage (v := { v with iterations := v.iterations + 1 })
      hw.checkpoint).caught ?_
    rintro d s ⟨rfl, ⟨q, rfl, hq⟩ | ⟨hend, rfl⟩⟩
    · have hlt : s.stored < p.units.length := (List.getElem?_eq_some_iff.1 hq.1).1
      refine (smooth_workStage h hq).caught ?_
      rintro _ _ ⟨rfl, rfl⟩
      refine (smooth_afterCommit h).caught ?_
      rintro stop _ ⟨rfl, hstop⟩
      have hnext := hw.next hq (n := 0)
      cases stop with
      | true =>
        refine ⟨rfl, ?_, ⟨hnext.begun, hnext.le, hnext.checkpoint, hnext.fetched, hnext.handed,
          hnext.completed, hnext.failures⟩⟩
        have hlast := hstop rfl
        unfold nextDirective at hlast
        split_ifs at hlast with hmore
        exact Nat.le_antisymm hlt (Nat.le_of_not_lt hmore)
      | false =>
        refine ⟨⟨hnext.begun, hnext.le, hnext.checkpoint, hnext.fetched, hnext.handed,
          hnext.completed, hnext.failures⟩, ?_⟩
        simp only [Progress.left, Progress.next]
        omega
    · exact ⟨rfl, Nat.le_antisymm hw.le hend,
        ⟨hw.begun, hw.le, hw.checkpoint, hw.fetched, hw.handed, hw.completed,
        hw.failures⟩⟩
  · rintro e _ ⟨hb, -⟩
    cases hb

/-- What a run that has begun after the first `m` units returns. -/
def Completes (p : SequencePlanner Ref) (m : ℕ) (r : Option (WorkerRun (FetchObj Ref P)))
    (s : Progress Ref) : Prop :=
  s.stored = p.units.length ∧ s.fetched = p.units.drop m ∧ s.handed = p.units.drop m ∧
    ∃ w, r = some w ∧ w.checkpoint = p.stored p.units.length ∧
      w.completed = p.units.length - m ∧ w.failures = 0

theorem smooth_run {m rounds : ℕ} (hm : m ≤ p.units.length)
    (hrounds : p.units.length - m < rounds) :
    SmoothRun p i (h.run none rounds : WorkerProg (FetchObj Ref P) ε _)
    (Completes p m) { stored := m } := by
  unfold WorkerHost.run
  rw [if_neg (by simp)]
  refine always_bind.2 (always_perform.2 ⟨trivial, ?_, ?_⟩)
  · rintro b _ ⟨hb, rfl⟩
    cases hb
    refine always_bind.2 (always_catching.2 (always_perform.2 ⟨trivial, ?_, ?_⟩))
    · rintro c _ ⟨hc, rfl⟩
      cases hc
      have hstart : Walking p m ({ checkpoint := p.stored m } : Loop (FetchObj Ref P))
          { stored := m } := by
        have hnil : (p.units.take m).drop m = [] := List.drop_eq_nil_of_le (by simp)
        exact ⟨le_rfl, hm, rfl, hnil.symm, hnil.symm, (Nat.sub_self m).symm, rfl⟩
      refine (smooth_emit h).caught ?_
      rintro _ _ rfl
      have hloop : SmoothRun p i
          (iterate (h.round none) rounds ({ checkpoint := p.stored m } : Loop (FetchObj Ref P)))
          (fun x s => ∃ e, x = some e ∧ Finished p m e s) { stored := m } := by
        refine always_iterate_ends (I := Walking p m) (m := fun _ s => s.left p)
          (fun v s hw => ?_) hstart hrounds
        exact (smooth_round h hw).mono fun x _ hx => by cases x <;> exact hx
      refine always_bind.2 (SmoothRun.mono hloop ?_)
      rintro _ s ⟨e, rfl, ⟨hok, hstored, hw⟩⟩
      refine (smooth_emit h).still fun _ => always_bind.2 (always_perform.2 ⟨trivial, ?_, ?_⟩)
      · rintro _ s ⟨-, rfl⟩
        rw [hok]
        have hall : (p.units.take s.stored).drop m = p.units.drop m := by
          rw [hstored, List.take_length]
        exact ⟨hstored, hall ▸ hw.fetched, hall ▸ hw.handed, _, rfl, hstored ▸ hw.checkpoint,
          hstored ▸ hw.completed, hw.failures⟩
      · rintro e _ ⟨⟨v, hv⟩, -⟩
        cases hv
    · rintro e _ ⟨hc, -⟩
      cases hc
  · rintro e _ ⟨hb, -⟩
    cases hb

end

/-! ## Completion -/

section
variable {Ref P ε : Type} [StrRepr]

/-- **A walk that nothing fails completes.**  From any stored unit on, whatever has been
    called before, a run fetches and hands over each unit that is left, once and in order,
    and returns with the checkpoint of the last one; it does not raise. -/
theorem sequence_completes {p : SequencePlanner Ref} (i : FetchIntent) (h : WorkerHost ε)
    {m rounds : ℕ} {u₀ : FetchHist Ref P ε} (hm : m ≤ p.units.length)
    (hstored : fetchContent u₀ = p.stored m) (hrounds : p.units.length - m < rounds)
    {u : FetchHist Ref P ε} {q : FetchProg Ref P ε _}
    (hr : Reaches p.Smooth (i.program h none rounds) u₀ u q) :
    (∀ e, q ≠ .raise e) ∧ ∀ r, q = .ret r →
      fetchedUnits u = fetchedUnits u₀ ++ p.units.drop m ∧
      handed u = handed u₀ ++ (p.units.drop m).map some ∧
      fetchContent u = p.stored p.units.length ∧
      ∃ w, r = some w ∧ w.checkpoint = p.stored p.units.length ∧
      w.completed = p.units.length - m ∧ w.failures = 0 := by
  have hstart : SmoothShows p u₀ { stored := m } u₀ := ⟨hm, hstored, by simp, by simp⟩
  have hrun := Always.lower (SmoothShows p u₀) (fun o s u hs hg => smooth_call i o hs hg)
    (smooth_run (i := i) (P := P) h hm hrounds) hstart
  have hend := Always.reaches hrun hr
  constructor
  · rintro e rfl
    obtain ⟨s, -, hs⟩ := hend
    exact hs
  · rintro r rfl
    obtain ⟨s, hs, hstored, hfetched, hhanded, hw⟩ := hend
    refine ⟨?_, ?_, ?_, hw⟩
    · rw [hs.fetched, hfetched]
    · rw [hs.handed, hhanded]
    · rw [hs.content, hstored]

/-- An environment where no call fails is one. -/
theorem answer_smooth (p : SequencePlanner Ref) (fetcher : Ref → P) (o : FetchOp Ref P ε)
    (u : FetchHist Ref P ε) :
    p.Smooth o (p.planner.answer fetcher (fun _ => .ok ()) o u) u := by
  cases o with
  | plan cursor => rfl
  | checkpointAfter y q => rfl
  | host o =>
    cases o with
    | acquire => rfl
    | isSet => rfl
    | load => rfl
    | _ => exact ⟨_, rfl⟩
  | _ => exact ⟨_, rfl⟩

end

/-! ### A run -/

section

local instance markedRepr : StrRepr := ⟨fun s => "'" ++ s ++ "'"⟩

/-- A run that begins when the first of three units is stored. -/
theorem sequence_completes_run : ∃ (p : SequencePlanner ℕ) (u : FetchHist ℕ ℕ Unit),
    SequencePlanner.make (ε := Unit) [1, 2, 3] "page"
    (fun n => if n = 1 then "one" else if n = 2 then "two" else "three")
    SequenceOrder.forward.value = .ok p ∧ fetchedUnits u = [2, 3] ∧ handed u = [some 2, some 3] ∧
    fetchContent u = .mapping (some "page") (some "three") := by
  obtain ⟨p, hmake, hkind, hencode, hunits⟩ := @SequencePlanner.make_eq_ok ℕ Unit _ [1, 2, 3] "page"
    (fun n => if n = 1 then "one" else if n = 2 then "two" else "three") .forward
      (by decide +kernel) (by decide +kernel) (by decide +kernel)
  have hunits : p.units = [1, 2, 3] := hunits
  let u₀ : FetchHist ℕ ℕ Unit := [⟨.host (.save (.mapping (some "page") (some "one"))), .ok ()⟩]
  have hstored : fetchContent u₀ = p.stored 1 := by
    rw [SequencePlanner.stored_succ (x := 1) (by rw [hunits]; rfl),
      SequencePlanner.checkpointOf, hkind, hencode]
    rfl
  have hr := exec_reaches _ (answer_smooth p id) (FetchIntent.program {} plainHost none 4) u₀
  obtain ⟨hraise, hret⟩ :=
    sequence_completes (p := p) {} plainHost (m := 1) (by rw [hunits]; decide) hstored
    (by rw [hunits]; decide) hr
  cases hout : ((FetchIntent.program {} plainHost none 4).exec
      (p.planner.answer id fun _ => .ok ()) u₀).1 with
  | error e => exact absurd (congrArg ofExcept hout) (hraise e)
  | ok r =>
    obtain ⟨hfetched, hhanded, hcontent, -⟩ := hret r (congrArg ofExcept hout)
    refine ⟨p, ((FetchIntent.program {} plainHost none 4).exec (p.planner.answer id fun _ => .ok ())
      u₀).2, hmake, ?_, ?_, ?_⟩
    · rw [hfetched, hunits]
      rfl
    · rw [hhanded, hunits]
      rfl
    · rw [hcontent, hunits]
      exact (SequencePlanner.stored_succ (x := 3) (by rw [hunits]; rfl)).trans
        (by rw [SequencePlanner.checkpointOf, hkind, hencode]; rfl)

end

end DatasourceKit

/-
  `ResumePlanner` (`fetch.py`): the chain of resume tokens.

  * `ResumePlanner`: a start cursor and an `advance` function, which may answer anything
    and differently each time;
  * `lastPlanned`, `HasSaved`: what a history shows of the chain;
  * `Linked`: what the last planned cursor and the store have to do with each other;
    `Linked.step`: every call keeps it;
  * `resume_chain`: each planned cursor is the one before again, or the one that `advance`
    has returned for its page, which has been persisted and stored.
-/
import DatasourceKit.Fetch.Intent

namespace DatasourceKit

open Interleave Interleave.Prog

/-! ## The planner -/

/-- A planner whose references are the values of its cursors. -/
structure ResumePlanner (P ε : Type) where
  start : Cursor
  advance : FetchHist String P ε → FetchObj String P → FetchPlan String →
    Except (HostExc ε) Advanced

namespace ResumePlanner
variable {P ε : Type}

/-- `ResumePlanner(kind=kind, start=start, advance=advance)`. -/
def make (kind start : String)
    (advance : FetchHist String P ε → FetchObj String P → FetchPlan String →
      Except (HostExc ε) Advanced) :
    Except (HostExc ε) (ResumePlanner P ε) :=
  (Cursor.make kind start).map fun cursor => ⟨cursor, advance⟩

/-- The plan for a cursor. -/
def planOf (current : Cursor) : FetchPlan String := ⟨current.value, current⟩

variable [StrRepr] (p : ResumePlanner P ε)

def plan (cursor : Option Cursor) : Except (HostExc ε) (Planned (FetchObj String P)) := do
  let current := cursor.getD p.start
  requireKind p.start.kind current
  return .decision (some .cont) (.plan (planOf current))

/-- `checkpoint_after`, which calls `advance` after the history `u`. -/
def checkpointAfter (u : FetchHist String P ε) (payload : FetchObj String P)
    (current : FetchPlan String) :
    Except (HostExc ε) Advanced := do
  match ← p.advance u payload current with
  | .none => return .none
  | .other => .error (.typeError "advance() must return Cursor or None")
  | .cursor next => do
    requireKind p.start.kind next
    return .cursor next

def planner : CursorPlanner String P ε := ⟨p.plan, p.checkpointAfter⟩

variable {p} {cursor : Option Cursor} {q : FetchPlan String} {c : Cursor} {a : Advanced}
  {u : FetchHist String P ε} {y : FetchObj String P}

theorem plan_eq_ok {d : Planned (FetchObj String P)} (h : p.plan cursor = .ok d) :
    (cursor.getD p.start).kind = p.start.kind ∧
      d = .decision (some .cont) (.plan (planOf (cursor.getD p.start))) := by
  unfold plan requireKind at h
  dsimp only at h
  split_ifs at h with hkind
  · cases h
    exact ⟨hkind, rfl⟩
  · cases h

/-- What `checkpoint_after` answers, `advance` has returned. -/
theorem checkpointAfter_eq_ok (h : p.checkpointAfter u y q = .ok a) :
    p.advance u y q = .ok a ∧ a ≠ .other ∧ ∀ c, a = .cursor c → c.kind = p.start.kind := by
  unfold checkpointAfter at h
  cases hadv : p.advance u y q with
  | error e =>
    rw [hadv] at h
    cases h
  | ok b =>
    rw [hadv] at h
    cases b with
    | none =>
      cases h
      exact ⟨rfl, by simp, by simp⟩
    | other => cases h
    | cursor c =>
      change (requireKind p.start.kind c >>= fun _ => _) = _ at h
      unfold requireKind at h
      split_ifs at h with hkind
      · cases h
        exact ⟨rfl, by simp, fun c' hc => by cases hc; exact hkind⟩
      · cases h

end ResumePlanner

/-! ## The chain -/

section
variable {P ε : Type}

/-- The last plan that the history shows. -/
def lastPlanned : FetchHist String P ε → Option (FetchPlan String)
  | [] => none
  | ⟨.plan _, .ok (.decision (some .cont) (.plan q))⟩ :: _ => some q
  | _ :: u => lastPlanned u

/-- The last call has stored the cursor `c`, after the page `x` of `q` was persisted. -/
def HasSaved (s : FetchHist String P ε) (q : FetchPlan String) (x : P) (c : Cursor) : Prop :=
  ∃ s', s = ⟨.host (.save c.asDict), .ok ()⟩ :: s' ∧ HasPersisted s' q x (.cursor c)

/-- `advance` has returned `a` for the page `x`, which was fetched for `q`, and `a` is no
    cursor of another kind. -/
def Returned (p : ResumePlanner P ε) (u : FetchHist String P ε) (q : FetchPlan String)
    (x : P) (a : Advanced) :
    Prop :=
  ∃ u₁ u₂, u = u₂ ++ ⟨.checkpointAfter (.payload x) q, .ok a⟩ :: u₁ ∧
    HasFetched (fetchStages u₁) q x ∧ p.advance u₁ (.payload x) q = .ok a ∧ a ≠ .other ∧
    ∀ c, a = .cursor c → c.kind = p.start.kind

/-- What the store and the last plan have to do with each other: nothing is planned yet; or
    the store leads to the last plan again; or the cursor after it has just been stored. -/
inductive Linked (p : ResumePlanner P ε) (u : FetchHist String P ε) : Prop
  | begun : lastPlanned u = none → fetchContent u = .null → Linked p u
  | same {cursor} : cursorFromCheckpoint (ε := ε) (fetchContent u) = .ok cursor →
      lastPlanned u = some (ResumePlanner.planOf (cursor.getD p.start)) → Linked p u
  | next {q x c} : lastPlanned u = some q → HasSaved (fetchStages u) q x c →
    fetchContent u = c.asDict → Returned p u q x (.cursor c) → Linked p u

/-- The first plan is the start; each later one is the plan before again, or that of the
    cursor which `advance` has returned for the page of the plan before, and which was stored
    when the page was persisted; and only pages are persisted for which `advance` has just
    returned `None` or a cursor of the kind. -/
structure Chained (p : ResumePlanner P ε) (u : FetchHist String P ε) : Prop where
  first : ∀ v u₁ cursor q, u = v ++ ⟨.plan cursor, .ok (.decision (some .cont) (.plan q))⟩ :: u₁ →
    lastPlanned u₁ = none → q = ResumePlanner.planOf p.start
  later : ∀ v u₁ cursor q q₁, u = v ++ ⟨.plan cursor, .ok (.decision (some .cont) (.plan q))⟩ ::
    u₁ → lastPlanned u₁ = some q₁ → q = q₁ ∨
      ∃ x c, q = ResumePlanner.planOf c ∧ HasSaved (fetchStages u₁) q₁ x c ∧
        Returned p u₁ q₁ x (.cursor c)
  persisted : ∀ v u₁ y w r, u = v ++ ⟨.persist y w, r⟩ :: u₁ →
    ∃ q x a, y = .payload x ∧ w = .plan q ∧ HasAdvanced (fetchStages u₁) q x a ∧ Returned p u₁ q x a

variable {p : ResumePlanner P ε} {u s : FetchHist String P ε} {q : FetchPlan String} {x : P}
  {c : Cursor} {a : Advanced} {o : FetchOp String P ε} {r : Except (HostExc ε) o.Val}

theorem HasSaved.not_working (h : HasSaved s q x c) (q' : FetchPlan String) : ¬ IsWorking s q' := by
  obtain ⟨s', rfl, -⟩ := h
  exact fun hw => (hw.of_cons (by simp)).2 _ rfl

theorem lastPlanned_of_working (h : IsWorking s q) : lastPlanned s = some q := by
  obtain ⟨cursor, s', rfl⟩ |
      ⟨x, ⟨s', rfl, cursor, s'', rfl⟩ | ⟨a, ⟨-, s', rfl, s'', rfl, cursor, t, rfl⟩ |
    ⟨s', rfl, -, s'', rfl, t, rfl, cursor, t', rfl⟩⟩⟩ := h <;> rfl

theorem lastPlanned_stages : lastPlanned (fetchStages u) = lastPlanned u := by
  induction u with
  | nil => rfl
  | cons e u ih =>
    obtain ⟨o, r⟩ := e
    by_cases ho : o.isStage = true
    · have hst : fetchStages (⟨o, r⟩ :: u) = ⟨o, r⟩ :: fetchStages u := by simp [fetchStages, ho]
      rw [hst]
      cases o with
      | plan cursor =>
        cases r with
        | error e => exact ih
        | ok d =>
          cases d with
          | decision directive w =>
            cases directive with
            | none => exact ih
            | some directive => cases directive <;> cases w <;> first | exact ih | rfl
          | _ => exact ih
      | _ => exact ih
    · have hst : fetchStages (⟨o, r⟩ :: u) = fetchStages u := by simp [fetchStages, ho]
      rw [hst, ih]
      cases o <;> first | rfl | exact absurd rfl ho

theorem lastPlanned_of_not_plan (ho : ∀ cursor, o ≠ .plan cursor) :
    lastPlanned (⟨o, r⟩ :: u) = lastPlanned u := by
  cases o <;> first | rfl | exact absurd rfl (ho _)

theorem Returned.cons (h : Returned p u q x a) : Returned p (⟨o, r⟩ :: u) q x a := by
  obtain ⟨u₁, u₂, rfl, h⟩ := h
  exact ⟨u₁, ⟨o, r⟩ :: u₂, rfl, h⟩

theorem Linked.of_working (h : Linked p u) (hw : IsWorking (fetchStages u) q) :
    ∃ cursor, cursorFromCheckpoint (ε := ε) (fetchContent u) = .ok cursor ∧
      lastPlanned u = some (ResumePlanner.planOf (cursor.getD p.start)) := by
  cases h with
  | begun hnone _ =>
    rw [← lastPlanned_stages, lastPlanned_of_working hw] at hnone
    cases hnone
  | same hc hlast => exact ⟨_, hc, hlast⟩
  | next _ hsaved => exact absurd hw (hsaved.not_working q)

/-- A call of an iteration, up to its commit. -/
theorem Linked.work (h : Linked p u) (hw : IsWorking (fetchStages u) q)
    (ho : ∀ cursor, o ≠ .plan cursor) (hcontent : fetchContent (⟨o, r⟩ :: u) = fetchContent u) :
    Linked p (⟨o, r⟩ :: u) := by
  obtain ⟨cursor, hc, hlast⟩ := h.of_working hw
  exact .same (hcontent ▸ hc) ((lastPlanned_of_not_plan ho).trans hlast)

/-- A call that is no stage. -/
theorem Linked.quiet (h : Linked p u) (ho : o.isStage = false)
    (hcontent : fetchContent (⟨o, r⟩ :: u) = fetchContent u) :
    Linked p (⟨o, r⟩ :: u) := by
  have hplan : lastPlanned (⟨o, r⟩ :: u) = lastPlanned u :=
    lastPlanned_of_not_plan fun cursor h => by rw [h] at ho; cases ho
  have hstages : fetchStages (⟨o, r⟩ :: u) = fetchStages u := by simp [fetchStages, ho]
  cases h with
  | begun hnone hnull => exact .begun (hplan.trans hnone) (hcontent.trans hnull)
  | same hc hlast => exact .same (hcontent ▸ hc) (hplan.trans hlast)
  | next hlast hsaved hc hret =>
    exact .next (hplan.trans hlast) (hstages ▸ hsaved) (hcontent.trans hc) hret.cons

/-- The plan that the last plan and the store lead to. -/
theorem Linked.planned (h : Linked p u) {cursor : Option Cursor}
    (hc : cursorFromCheckpoint (ε := ε) (fetchContent u) = .ok cursor) :
    (lastPlanned u = none → cursor.getD p.start = p.start) ∧
      ∀ q, lastPlanned u = some q → ResumePlanner.planOf (cursor.getD p.start) = q ∨
        ∃ x c, cursor.getD p.start = c ∧ HasSaved (fetchStages u) q x c ∧
        Returned p u q x (.cursor c) := by
  cases h with
  | begun hnone hnull =>
    rw [hnull] at hc
    cases hc
    simp [hnone]
  | same hc' hlast =>
    rw [hc] at hc'
    cases hc'
    simp [hlast]
  | @next q₀ x c hlast hsaved hstored hret =>
    rw [hstored] at hc
    simp only [Cursor.asDict, cursorFromCheckpoint, Cursor.make_self, Except.map] at hc
    cases hc
    refine ⟨fun hnone => by simp [hlast] at hnone, fun q hq => .inr ⟨x, c, rfl, ?_⟩⟩
    rw [hlast, Option.some_inj] at hq
    exact hq ▸ ⟨hsaved, hret⟩

variable [StrRepr]

/-- What `checkpoint_after` has answered for a persisted page, `advance` has returned. -/
theorem Returned.of_persisted (h : HasPersisted (fetchStages u) q x a)
    (hu : Each p.planner.Allows u) :
    Returned p u q x a := by
  obtain ⟨u₁, u₂, rfl, hf, ha⟩ := h.answer hu
  exact ⟨u₁, u₂, rfl, hf, ResumePlanner.checkpointAfter_eq_ok ha⟩

theorem Returned.of_advanced (h : HasAdvanced (fetchStages u) q x a)
    (hu : Each p.planner.Allows u) :
    Returned p u q x a := by
  obtain ⟨u₁, u₂, rfl, hf, ha⟩ := h.answer hu
  exact ⟨u₁, u₂, rfl, hf, ResumePlanner.checkpointAfter_eq_ok ha⟩

/-- The plan that the store leads to. -/
theorem Linked.plan {cursor : Option Cursor} {r : Except (HostExc ε) (Planned (FetchObj String P))}
    (h : Linked p u) (hc : cursorFromCheckpoint (ε := ε) (fetchContent u) = .ok cursor)
    (hr : r = p.plan cursor) : Linked p (⟨.plan cursor, r⟩ :: u) := by
  cases hplan : p.plan (P := P) (ε := ε) cursor with
  | ok d =>
    obtain ⟨-, rfl⟩ := ResumePlanner.plan_eq_ok hplan
    rw [hr, hplan]
    exact .same hc rfl
  | error e =>
    rw [hr, hplan]
    cases h with
    | begun hnone hnull => exact .begun hnone hnull
    | same hc hlast => exact .same hc hlast
    | next _ _ hstored hret =>
      -- The cursor that is stored is of the right kind.
      obtain ⟨-, -, -, -, -, -, hkind⟩ := hret
      rw [hstored] at hc
      simp only [Cursor.asDict, cursorFromCheckpoint, Cursor.make_self] at hc
      cases hc
      simp [ResumePlanner.plan, requireKind, hkind _ rfl] at hplan

/-- **Every call keeps the link** between the store and the last plan. -/
theorem Linked.step (h : Linked p u) (hu : Each p.planner.Allows (⟨o, r⟩ :: u)) :
    Linked p (⟨o, r⟩ :: u) := by
  obtain ⟨⟨henv, hg⟩, hu⟩ := hu
  cases o with
  | plan cursor => exact h.plan hg.1 henv
  | checkpointAfter y w =>
    obtain ⟨x, hf, -⟩ := hg.1
    exact h.work hf.working (by simp) rfl
  | fetch ref =>
    obtain ⟨q, hp, -⟩ := hg.1
    exact h.work (.inl hp) (by simp) rfl
  | persist y w =>
    obtain ⟨q, x, a, ha, -⟩ := hg.1
    exact h.work ha.working (by simp) rfl
  | host o =>
    cases o with
    | save c =>
      obtain ⟨q, x, a, hp, rfl⟩ := hg.1
      cases r with
      | error e => exact h.work hp.working (by simp) rfl
      | ok v =>
        obtain ⟨cursor, -, hlast⟩ := h.of_working hp.working
        have hq := lastPlanned_of_working hp.working
        rw [lastPlanned_stages, hlast, Option.some_inj] at hq
        have hret := Returned.of_persisted hp hu
        cases a with
        | none =>
          -- The source is exhausted, and its last cursor is stored.
          have hc : cursorFromCheckpoint (ε := ε) (q.cursor.asDict : FetchObj String P) =
              .ok (some q.cursor) := by
            simp [Cursor.asDict, cursorFromCheckpoint, Cursor.make_self, Except.map]
          exact .same hc (hlast.trans (by rw [← hq]; rfl))
        | cursor c => exact .next (hlast.trans (congrArg some hq)) ⟨_, rfl, hp⟩ rfl hret.cons
        | other =>
          obtain ⟨-, -, -, -, -, hne, -⟩ := hret
          exact absurd rfl hne
    | _ => exact h.quiet rfl rfl

theorem linked_of_each (hu : Each p.planner.Allows u) : Linked p u := by
  induction u with
  | nil => exact .begun rfl rfl
  | cons e u ih => exact (ih hu.2).step (o := e.1) (r := e.2) hu

/-- **The chain has no gaps**, over successive runs of the intent with an empty store at first,
    each cut anywhere. -/
theorem resume_chain {i : FetchIntent} (hu : Sessions p.planner.Env i.IsRun u) : Chained p u := by
  have heach : Each p.planner.Allows u := CursorPlanner.each hu
  constructor
  · rintro v u₁ cursor q rfl hnone
    obtain ⟨⟨henv, hg⟩, hu₁⟩ := heach.of_append
    obtain ⟨-, hq⟩ := ResumePlanner.plan_eq_ok (p := p) henv.symm
    cases hq
    rw [((linked_of_each hu₁).planned hg.1).1 hnone]
  · rintro v u₁ cursor q q₁ rfl hq₁
    obtain ⟨⟨henv, hg⟩, hu₁⟩ := heach.of_append
    obtain ⟨-, hq⟩ := ResumePlanner.plan_eq_ok (p := p) henv.symm
    cases hq
    rcases ((linked_of_each hu₁).planned hg.1).2 q₁ hq₁ with h | ⟨x, c, h, hsaved, hret⟩
    · exact .inl h
    · exact .inr ⟨x, c, by rw [h], hsaved, hret⟩
  · rintro v u₁ y w r rfl
    obtain ⟨⟨-, hg⟩, hu₁⟩ := heach.of_append
    obtain ⟨q, x, a, ha, rfl, rfl⟩ := hg.1
    exact ⟨q, x, a, rfl, rfl, ha, .of_advanced ha hu₁⟩

end

/-! ### A run -/

/-- Two pages, of which the second one is the last. -/
def twoPages : ResumePlanner Unit Unit where
  start := ⟨"page", "a", by decide +kernel, by decide +kernel⟩
  advance _ _ q := .ok (if q.ref = "a" then
    .cursor ⟨"page", "b", by decide +kernel, by decide +kernel⟩ else .none)

section

local instance quotingRepr : StrRepr := ⟨fun s => "'" ++ s ++ "'"⟩

/-- A run over two pages plans the second one when the first is stored. -/
theorem resume_chain_run : ∃ u : FetchHist String Unit Unit,
    Sessions twoPages.planner.Env (FetchIntent.IsRun {}) u ∧
      (lastPlanned u).map (·.ref) = some "b" ∧ Chained twoPages u := by
  have hrun : Sessions twoPages.planner.Env (FetchIntent.IsRun {})
      ((FetchIntent.program {} plainHost none 4).exec
          (twoPages.planner.answer (fun _ => ()) fun _ => .ok ()) []).2 :=
    .run .nil ⟨plainHost, none, 4, rfl⟩ (exec_reaches _ (twoPages.planner.answer_env _ _) _ [])
  exact ⟨_, hrun, by rfl, resume_chain hrun⟩

end

end DatasourceKit

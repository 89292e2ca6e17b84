/-
  `SequencePlanner` (`fetch.py`): the walk over a finite sequence of units.

  * `SequencePlanner`: the planner, with the index it has built; its fields say what the
    index looks up;
  * `SequencePlanner.make`: the constructor;
  * `Walk`: how far successive runs have got, and how often each unit has been handed to
    `persist`; `Walk.step`: every call keeps it;
  * `sequence_coverage`: no unit is skipped, and none is revisited after its successor.
-/
import Mathlib.Data.List.Nodup
import DatasourceKit.Fetch.Intent

namespace DatasourceKit

open Interleave Interleave.Prog

/-! ## The planner -/

inductive SequenceOrder where
  | forward | reverse
deriving DecidableEq

def SequenceOrder.value : SequenceOrder → String
  | forward => "forward"
  | reverse => "reverse"

/-- `SequenceOrder(order)`. -/
def SequenceOrder.ofValue (order : String) : Option SequenceOrder :=
  [forward, reverse].find? (·.value == order)

/-- The units in the chosen order. -/
def SequenceOrder.walk {α : Type} : SequenceOrder → List α → List α
  | forward, units => units
  | reverse, units => units.reverse

/-- A planner over units that are ordered and indexed. -/
structure SequencePlanner (Ref : Type) where
  kind : String
  encode : Ref → String
  units : List Ref
  index : List (String × ℕ)
  kind_text : isBlank kind = false
  value_text : ∀ x ∈ units, isBlank (encode x) = false
  distinct : (units.map encode).Nodup
  indexed : index = (units.map encode).zipIdx

namespace SequencePlanner
variable {Ref P ε : Type}

section
variable [StrRepr]

/-- The loop of the constructor, which indexes the units from the `n`-th on. -/
def indexUnits (kind : String) (encode : Ref → String) :
    List Ref → ℕ → List (String × ℕ) → Except (HostExc ε) (List (String × ℕ))
  | [], _, index => .ok index
  | unit :: units, n, index =>
    match Cursor.make kind (encode unit) with
    | .error e => .error e
    | .ok cursor =>
      if (index.lookup cursor.value).isSome then
        .error (.validation ("duplicate cursor value " ++ StrRepr.repr cursor.value))
      else indexUnits kind encode units (n + 1) (index ++ [(cursor.value, n)])

/-- What the loop indexes, and when it gets to its end. -/
theorem indexUnits_eq_ok {kind : String} {encode : Ref → String} (hkind : isBlank kind = false)
    {units : List Ref} {n : ℕ} {index index' : List (String × ℕ)} :
    indexUnits (ε := ε) kind encode units n index = .ok index' ↔
      (∀ x ∈ units, isBlank (encode x) = false) ∧ (units.map encode).Nodup ∧
        (∀ x ∈ units, index.lookup (encode x) = none) ∧
        index' = index ++ (units.map encode).zipIdx n := by
  induction units generalizing n index with
  | nil =>
    constructor
    · rintro ⟨⟩
      simp
    · rintro ⟨-, -, -, rfl⟩
      simp [indexUnits]
  | cons unit units ih =>
    by_cases hblank : isBlank (encode unit) = true
    · have herr : indexUnits (ε := ε) kind encode (unit :: units) n index =
          .error (.validation "cursor value must be a non-empty string") := by
        simp [indexUnits.eq_2, Cursor.make, hkind, hblank]
      simp [herr, hblank]
    have hmake : Cursor.make (ε := ε) kind (encode unit) =
        .ok ⟨kind, encode unit, hkind, by simpa using hblank⟩ := by
      simp [Cursor.make, hkind, hblank]
    by_cases hold : (index.lookup (encode unit)).isSome = true
    · have herr : indexUnits (ε := ε) kind encode (unit :: units) n index =
          .error (.validation ("duplicate cursor value " ++ StrRepr.repr (encode unit))) := by
        simp [indexUnits.eq_2, hmake, hold]
      have hsome : index.lookup (encode unit) ≠ none := Option.isSome_iff_ne_none.1 hold
      exact iff_of_false (by simp [herr]) fun h => hsome (h.2.2.1 unit List.mem_cons_self)
    · have hstep : indexUnits (ε := ε) kind encode (unit :: units) n index =
          indexUnits kind encode units (n + 1) (index ++ [(encode unit, n)]) := by
        simp [indexUnits.eq_2, hmake, hold]
      have hlookup : ∀ v, (index ++ [(encode unit, n)]).lookup v = none ↔
          index.lookup v = none ∧ v ≠ encode unit := by
        intro v
        rw [List.lookup_append, Option.or_eq_none_iff]
        refine and_congr_right fun _ => ?_
        simp
      have hnone : index.lookup (encode unit) = none := Option.not_isSome_iff_eq_none.1 hold
      rw [hstep, ih]
      simp only [hlookup, List.mem_cons, forall_eq_or_imp, List.map_cons, List.nodup_cons,
        List.mem_map, List.zipIdx_cons, List.append_assoc, List.singleton_append, hnone]
      constructor
      · rintro ⟨ht, hd, hl, rfl⟩
        refine ⟨⟨by simpa using hblank, ht⟩, ⟨?_, hd⟩, ⟨trivial, fun x hx => (hl x hx).1⟩, rfl⟩
        rintro ⟨x, hx, he⟩
        exact (hl x hx).2 he
      · rintro ⟨⟨-, ht⟩, ⟨hnew, hd⟩, ⟨-, hl⟩, rfl⟩
        exact ⟨ht, hd, fun x hx => ⟨hl x hx, fun he => hnew ⟨x, hx, he⟩⟩, rfl⟩

/-- The planner over units in their order, for what the loop has answered. -/
def ofIndex {kind : String} {encode : Ref → String} {units : List Ref}
    (hkind : isBlank kind = false) :
    (r : Except (HostExc ε) (List (String × ℕ))) → indexUnits kind encode units 0 [] = r →
      Except (HostExc ε) (SequencePlanner Ref)
  | .error e, _ => .error e
  | .ok index, hindex =>
    have hspec := (indexUnits_eq_ok hkind).1 hindex
    .ok ⟨kind, encode, units, index, hkind, hspec.1, hspec.2.1, by simpa using hspec.2.2.2⟩

/-- `SequencePlanner(units, kind=kind, encode=encode, order=order)`. -/
def make (units : List Ref) (kind : String) (encode : Ref → String) (order : String) :
    Except (HostExc ε) (SequencePlanner Ref) :=
  match SequenceOrder.ofValue order with
  | none => .error (.validation ("order must be one of: " ++
      ", ".intercalate ([SequenceOrder.forward, .reverse].map (·.value))))
  | some direction =>
    if hkind : isBlank kind = false then
      ofIndex hkind (indexUnits kind encode (direction.walk units) 0 []) rfl
    else .error (.validation "cursor kind must be a non-empty string")

def continueAt (p : SequencePlanner Ref) (index : Fin p.units.length) :
    Except (HostExc ε) (Planned (FetchObj Ref P)) := do
  let unit := p.units[index]
  let cursor ← Cursor.make p.kind (p.encode unit)
  return .decision (some .cont) (.plan ⟨unit, cursor⟩)

def plan (p : SequencePlanner Ref) (cursor : Option Cursor) :
    Except (HostExc ε) (Planned (FetchObj Ref P)) :=
  if hunits : p.units = [] then .ok (.decision (some .stop) .null)
  else
    match cursor with
    | none => p.continueAt ⟨0, List.length_pos_iff.2 hunits⟩
    | some cursor => do
      requireKind p.kind cursor
      match p.index.lookup cursor.value with
      | none => .error (.validation ("unknown cursor value " ++ StrRepr.repr cursor.value))
      | some index =>
        if hindex : index + 1 < p.units.length then p.continueAt ⟨index + 1, hindex⟩
        else .ok (.decision (some .stop) .null)

def checkpointAfter (p : SequencePlanner Ref) (current : FetchPlan Ref) :
    Except (HostExc ε) Advanced := do
  requireKind p.kind current.cursor
  match p.index.lookup current.cursor.value with
  | none => .error (.validation ("unknown cursor value " ++ StrRepr.repr current.cursor.value))
  | some index => .ok (if p.units.length ≤ index + 1 then .none else .cursor current.cursor)

/-- The planner, as an intent calls it. -/
def planner (p : SequencePlanner Ref) : CursorPlanner Ref P ε :=
  ⟨p.plan, fun _ _ current => p.checkpointAfter current⟩

/-- Units of one kind with distinct texts have a planner. -/
theorem make_eq_ok {units : List Ref} {kind : String} {encode : Ref → String}
    (order : SequenceOrder) (hkind : isBlank kind = false)
    (htext : ∀ x ∈ units, isBlank (encode x) = false) (hdistinct : (units.map encode).Nodup) :
    ∃ p : SequencePlanner Ref, make (ε := ε) units kind encode order.value = .ok p ∧ p.kind = kind ∧
      p.encode = encode ∧ p.units = order.walk units := by
  have horder : SequenceOrder.ofValue order.value = some order := by cases order <;> decide
  have hindex : indexUnits (ε := ε) kind encode (order.walk units) 0 [] =
      .ok ([] ++ ((order.walk units).map encode).zipIdx) := by
    refine (indexUnits_eq_ok hkind).2 ⟨?_, ?_, fun _ _ => rfl, rfl⟩
    · cases order with
      | forward => exact htext
      | reverse => exact fun x hx => htext x (List.mem_reverse.1 hx)
    · cases order with
      | forward => exact hdistinct
      | reverse => simpa [SequenceOrder.walk, List.map_reverse] using hdistinct
  have hof : ∀ (r : Except (HostExc ε) (List (String × ℕ)))
      (h : indexUnits kind encode (order.walk units) 0 [] = r),
      r = .ok ([] ++ ((order.walk units).map encode).zipIdx) →
      ∃ p : SequencePlanner Ref, ofIndex hkind r h = .ok p ∧ p.kind = kind ∧ p.encode = encode ∧
        p.units = order.walk units := by
    rintro _ h rfl
    exact ⟨_, rfl, rfl, rfl, rfl⟩
  unfold make
  rw [horder]
  dsimp only
  rw [dif_pos hkind]
  exact hof _ rfl hindex

end

/-! ## The answers of the planner -/

theorem lookup_zipIdx {values : List String} (hdistinct : values.Nodup) {k n : ℕ} {v : String}
    (h : values[n]? = some v) : (values.zipIdx k).lookup v = some (k + n) := by
  induction values generalizing k n with
  | nil => simp at h
  | cons w values ih =>
    obtain ⟨hw, hdistinct⟩ := List.nodup_cons.1 hdistinct
    cases n with
    | zero =>
      cases h
      simp
    | succ n =>
      have hv : values[n]? = some v := by simpa using h
      have hne : v ≠ w := fun he => hw (he ▸ List.mem_of_getElem? hv)
      rw [List.zipIdx_cons, List.lookup_cons, beq_eq_false_iff_ne.2 hne, ih hdistinct hv,
        Nat.add_assoc, Nat.add_comm 1]

variable (p : SequencePlanner Ref)

/-- `q` is the plan for the `n`-th unit. -/
def Plans (n : ℕ) (q : FetchPlan Ref) : Prop :=
  p.units[n]? = some q.ref ∧ q.cursor.kind = p.kind ∧ q.cursor.value = p.encode q.ref

/-- The checkpoint of a unit. -/
def checkpointOf (x : Ref) : FetchObj Ref P := .mapping (some p.kind) (some (p.encode x))

/-- The content of the store when the first `n` units are done. -/
def stored : ℕ → FetchObj Ref P
  | 0 => .null
  | n + 1 => (p.units[n]?).elim .null p.checkpointOf

variable {p} {n : ℕ} {q : FetchPlan Ref} {x : Ref} {a : Advanced}

theorem stored_succ (h : p.units[n]? = some x) :
    (p.stored (n + 1) : FetchObj Ref P) = p.checkpointOf x := by
  simp [stored, h]

theorem Plans.checkpoint (h : p.Plans n q) :
    (q.cursor.asDict : FetchObj Ref P) = p.stored (n + 1) := by
  rw [stored_succ h.1, Cursor.asDict, checkpointOf, h.2.1, h.2.2]

theorem lookup_index (h : p.units[n]? = some x) : p.index.lookup (p.encode x) = some n := by
  rw [p.indexed, lookup_zipIdx p.distinct (n := n) (by simp [h])]
  simp

theorem continueAt_plans {i : Fin p.units.length}
    (h : p.continueAt (ε := ε) (P := P) i = .ok (.decision (some .cont) (.plan q))) :
    p.Plans i q := by
  have hmake : Cursor.make (ε := ε) p.kind (p.encode p.units[i]) =
      .ok ⟨p.kind, p.encode p.units[i], p.kind_text, p.value_text _ (List.getElem_mem _)⟩ :=
    Cursor.make_self ⟨_, _, _, _⟩
  unfold continueAt at h
  simp only [hmake] at h
  cases h
  exact ⟨by simp, rfl, rfl⟩

section
variable [StrRepr]

/-- **The plan after the first `n` units** is that for the next one. -/
theorem plan_plans (hn : n ≤ p.units.length) {cursor : Option Cursor}
    (hc : cursorFromCheckpoint (ε := ε) (p.stored n : FetchObj Ref P) = .ok cursor)
    (h : p.plan (ε := ε) (P := P) cursor = .ok (.decision (some .cont) (.plan q))) :
    p.Plans n q := by
  unfold plan at h
  split_ifs at h with hunits
  · cases h
  cases n with
  | zero =>
    cases hc
    exact continueAt_plans h
  | succ n =>
    have hx : p.units[n]? = some p.units[n] := List.getElem?_eq_getElem hn
    have hmake : Cursor.make (ε := ε) p.kind (p.encode p.units[n]) =
        .ok ⟨p.kind, p.encode p.units[n], p.kind_text, p.value_text _ (List.getElem_mem _)⟩ :=
      Cursor.make_self ⟨_, _, _, _⟩
    rw [stored_succ hx] at hc
    simp only [cursorFromCheckpoint, checkpointOf, hmake, Except.map] at hc
    cases hc
    simp only [requireKind, if_true, lookup_index hx] at h
    by_cases hlt : n + 1 < p.units.length
    · rw [dif_pos hlt] at h
      exact continueAt_plans h
    · rw [dif_neg hlt] at h
      cases h

/-- **The checkpoint after the `n`-th unit** is that unit's, also where it exhausts the walk. -/
theorem nextCheckpoint_plans (hq : p.Plans n q) (h : p.checkpointAfter (ε := ε) q = .ok a) :
    (nextCheckpoint q a : FetchObj Ref P) = p.stored (n + 1) := by
  rw [← hq.checkpoint]
  unfold checkpointAfter at h
  simp only [requireKind, hq.2.1, if_true, hq.2.2, lookup_index hq.1] at h
  cases h
  split_ifs <;> rfl

end

end SequencePlanner

/-! ## What has been handed over -/

section
variable {Ref P ε : Type}

/-- The unit that an object is a plan for. -/
def FetchObj.unit : FetchObj Ref P → Option Ref
  | .plan p => some p.ref
  | _ => none

/-- The units handed to `persist`, in this order. -/
def handed : FetchHist Ref P ε → List (Option Ref)
  | [] => []
  | ⟨.persist _ w, _⟩ :: u => handed u ++ [w.unit]
  | _ :: u => handed u

/-- A persistence of the unit has failed, or the save after it has failed, or was cut off:
    the next call is the first one of another run. -/
def Interrupted (u : FetchHist Ref P ε) (x : Ref) : Prop :=
  ∃ v y w r u₁, u = v ++ ⟨.persist y w, r⟩ :: u₁ ∧ w.unit = some x ∧
    ((∃ e, r = .error e) ∨ (∃ c e, v.getLast? = some ⟨.host (.save c), .error e⟩) ∨
      ∃ r', v.getLast? = some ⟨.host .acquire, r'⟩)

/-- The last call has persisted the unit. -/
def Pending (u : FetchHist Ref P ε) (x : Ref) : Prop :=
  ∃ y w u₁, u = ⟨.persist y w, .ok ()⟩ :: u₁ ∧ w.unit = some x

variable {u : FetchHist Ref P ε} {x : Ref} {o : FetchOp Ref P ε} {r : Except (HostExc ε) o.Val}

theorem Interrupted.cons (h : Interrupted u x) : Interrupted (⟨o, r⟩ :: u) x := by
  obtain ⟨v, y, w, r', u₁, rfl, hw, hcut⟩ := h
  refine ⟨⟨o, r⟩ :: v, y, w, r', u₁, rfl, hw, ?_⟩
  rcases hcut with he | ⟨c, e, hv⟩ | ⟨r'', hv⟩
  · exact .inl he
  · exact .inr (.inl ⟨c, e, by simp [List.getLast?_cons, hv]⟩)
  · exact .inr (.inr ⟨r'', by simp [List.getLast?_cons, hv]⟩)

/-- Only a save that succeeds leaves no trace of the unit. -/
theorem Pending.interrupted (h : Pending u x) (hg : FetchGuard o u)
    (ho : ∀ c, (⟨o, r⟩ : Event FetchOp.Val (HostExc ε)) ≠ ⟨.host (.save c), .ok ()⟩) :
    Interrupted (⟨o, r⟩ :: u) x := by
  obtain ⟨y, w, u₁, rfl, hw⟩ := h
  refine ⟨[⟨o, r⟩], y, w, .ok (), u₁, rfl, hw, .inr ?_⟩
  rcases hg.2 ⟨y, w, u₁, rfl⟩ with rfl | ⟨c, rfl⟩
  · exact .inr ⟨r, rfl⟩
  · cases r with
    | ok _ => exact absurd rfl (ho c)
    | error e => exact .inl ⟨c, e, rfl⟩

theorem unit_mem_handed {y w : FetchObj Ref P} {r : Except (HostExc ε) Unit}
    (h : (⟨.persist y w, r⟩ : Event FetchOp.Val (HostExc ε)) ∈ u) : w.unit ∈ handed u := by
  induction u with
  | nil => cases h
  | cons e u ih =>
    rcases List.mem_cons.1 h with rfl | hu
    · simp [handed]
    · obtain ⟨o, r'⟩ := e
      cases o <;> first | exact ih hu | exact List.mem_append_left _ (ih hu)

end

/-! ## The walk -/

section
variable {Ref P ε : Type} {p : SequencePlanner Ref} {u : FetchHist Ref P ε} {n : ℕ} {k : Ref → ℕ}

/-- The first `n` units are done, and every unit has been handed over as often as `k` says. -/
structure Walk (p : SequencePlanner Ref) (u : FetchHist Ref P ε) (n : ℕ) (k : Ref → ℕ) : Prop where
  le : n ≤ p.units.length
  content : fetchContent u = p.stored n
  handed : handed u = (p.units.take (n + 1)).flatMap fun x => List.replicate (k x) (some x)
  done : ∀ x ∈ p.units.take n, 1 ≤ k x
  ahead : ∀ x, x ∉ p.units.take (n + 1) → k x = 0
  working : ∀ q, IsWorking (fetchStages u) q → p.Plans n q
  again : ∀ x, 2 ≤ k x → Interrupted u x
  last : ∀ x, p.units[n]? = some x → 1 ≤ k x → Interrupted u x ∨ Pending u x

theorem SequencePlanner.units_nodup (p : SequencePlanner Ref) :
    p.units.Nodup := .of_map _ p.distinct

theorem SequencePlanner.not_mem_take (p : SequencePlanner Ref) {x : Ref}
    (h : p.units[n]? = some x) :
    x ∉ p.units.take n := by
  intro hx
  obtain ⟨i, hi, hix⟩ := List.mem_take_iff_getElem.1 hx
  obtain ⟨hn, hnx⟩ := List.getElem?_eq_some_iff.1 h
  have : i = n := (p.units_nodup.getElem_inj_iff).1 (hix.trans hnx.symm)
  omega

theorem Walk.start : Walk p ([] : FetchHist Ref P ε) 0 fun _ => 0 := by
  refine ⟨Nat.zero_le _, rfl, ?_,
    fun x hx => by simp at hx, fun _ _ => rfl, ?_, fun _ h => by omega, fun _ _ h => by omega⟩
  · simp [DatasourceKit.handed]
  · rintro q (⟨_, _, h⟩ | ⟨_, ⟨_, h, _⟩ | ⟨_, ⟨_, _, h, _⟩ | ⟨_, h, _⟩⟩⟩) <;> cases h

variable {o : FetchOp Ref P ε} {r : Except (HostExc ε) o.Val}

/-- Calls that neither hand over nor store. -/
theorem Walk.quiet (h : Walk p u n k) (hg : FetchGuard o u)
    (hs : ∀ c, (⟨o, r⟩ : Event FetchOp.Val (HostExc ε)) ≠ ⟨.host (.save c), .ok ()⟩)
    (hcontent : fetchContent (⟨o, r⟩ :: u) = fetchContent u)
    (hhanded : DatasourceKit.handed (⟨o, r⟩ :: u) = DatasourceKit.handed u)
    (hwork : ∀ q, IsWorking (fetchStages (⟨o, r⟩ :: u)) q → p.Plans n q) :
    Walk p (⟨o, r⟩ :: u) n k where
  le := h.le
  content := hcontent.trans h.content
  handed := hhanded.trans h.handed
  done := h.done
  ahead := h.ahead
  working := hwork
  again x hx := (h.again x hx).cons
  last x hx hk := .inl ((h.last x hx hk).elim (·.cons) (·.interrupted hg hs))

theorem Walk.mem_iff (h : Walk p u n k) {x : Ref} : some x ∈ DatasourceKit.handed u ↔ 1 ≤ k x := by
  rw [h.handed, List.mem_flatMap]
  constructor
  · rintro ⟨z, -, hz⟩
    obtain ⟨hk, hzx⟩ := List.mem_replicate.1 hz
    cases hzx
    omega
  · intro hk
    have hx : x ∈ p.units.take (n + 1) := by
      by_contra hx
      have := h.ahead x hx
      omega
    exact ⟨x, hx, List.mem_replicate.2 ⟨by omega, rfl⟩⟩

open Classical in
/-- The next unit is handed over. -/
theorem Walk.persist {y w : FetchObj Ref P} {r : Except (HostExc ε) Unit} (h : Walk p u n k)
    (hg : FetchGuard (.persist y w) u) :
    ∃ k', Walk p (⟨.persist y w, r⟩ :: u) n k' := by
  obtain ⟨⟨q, x, a, hadv, rfl, rfl⟩, hcommit⟩ := hg
  have hnot : ¬ JustPersisted u := fun hj => by
    rcases hcommit hj with h | ⟨c, h⟩ <;> cases h
  have hq : p.Plans n q := h.working q hadv.working
  have hfresh : q.ref ∉ p.units.take n := p.not_mem_take hq.1
  have htake : p.units.take (n + 1) = p.units.take n ++ [q.ref] := by
    rw [List.take_add_one, hq.1]
    rfl
  have hother : ∀ z, z ≠ q.ref → Function.update k q.ref (k q.ref + 1) z = k z := fun z hz =>
    Function.update_of_ne hz _ _
  refine ⟨Function.update k q.ref (k q.ref + 1), h.le, h.content, ?_, ?_, ?_, ?_, ?_, ?_⟩
  · have hbefore : (p.units.take n).flatMap (fun x => List.replicate
        (Function.update k q.ref (k q.ref + 1) x) (some x)) =
        (p.units.take n).flatMap fun x => List.replicate (k x) (some x) := by
      refine List.flatMap_congr fun z hz => ?_
      rw [hother z fun he => hfresh (he ▸ hz)]
    have hhanded := h.handed
    rw [htake, List.flatMap_append] at hhanded ⊢
    rw [hbefore]
    simp [DatasourceKit.handed, FetchObj.unit, hhanded, List.replicate_succ']
  · intro z hz
    rw [hother z fun he => hfresh (he ▸ hz)]
    exact h.done z hz
  · intro z hz
    rw [hother z fun he => hz (by rw [he, htake]; simp)]
    exact h.ahead z hz
  · exact fun q' hq' => h.working q' (hq'.of_cons (by simp)).1
  · intro z hz
    by_cases hzq : z = q.ref
    · subst hzq
      rw [Function.update_self] at hz
      -- The unit has been handed over before, and that call is not the last one.
      refine (((h.last _ hq.1 (by omega)).resolve_right ?_)).cons
      rintro ⟨y', w', u₁, rfl, -⟩
      exact hnot ⟨y', w', u₁, rfl⟩
    · rw [hother z hzq] at hz
      exact (h.again z hz).cons
  · intro z hz _
    rw [hq.1] at hz
    cases hz
    cases r with
    | ok v => exact .inr ⟨_, _, u, rfl, rfl⟩
    | error e => exact .inl ⟨[], _, _, _, u, rfl, rfl, .inl ⟨e, rfl⟩⟩

section
variable [StrRepr]

/-- The checkpoint of the next unit is stored. -/
theorem Walk.save {c : FetchObj Ref P} (h : Walk p u n k)
    (hu : Each p.planner.Allows u) (hg : FetchGuard (.host (.save c)) u) :
    Walk p (⟨.host (.save c), .ok ()⟩ :: u) (n + 1) k := by
  obtain ⟨⟨q, x, a, hper, rfl⟩, -⟩ := hg
  have hq : p.Plans n q := h.working q hper.working
  obtain ⟨u₁, -, -, -, hanswer⟩ := hper.answer hu
  obtain ⟨s', hs, -⟩ := hper
  obtain ⟨hn, hnq⟩ := List.getElem?_eq_some_iff.1 hq.1
  -- What is stored has been handed over.
  have hone : 1 ≤ k q.ref :=
    h.mem_iff.1 (unit_mem_handed (List.mem_filter.1 (hs ▸ List.mem_cons_self)).1)
  have htake : p.units.take (n + 1) = p.units.take n ++ [q.ref] := by
    rw [List.take_add_one, hq.1]
    rfl
  have hnext : ∀ z, p.units[n + 1]? = some z → k z = 0 := fun z hz => h.ahead z (p.not_mem_take hz)
  refine ⟨hn, SequencePlanner.nextCheckpoint_plans hq hanswer, ?_, ?_, ?_, ?_, ?_, ?_⟩
  · have hrest : (p.units[n + 1]?.toList).flatMap
        (fun x => List.replicate (k x) (some x)) = [] := by
      cases hz : p.units[n + 1]? with
      | none => rfl
      | some z => simp [hnext z hz]
    rw [List.take_add_one, List.flatMap_append, hrest, List.append_nil]
    exact h.handed
  · intro z hz
    rw [htake] at hz
    rcases List.mem_append.1 hz with hz | hz
    · exact h.done z hz
    · rw [List.mem_singleton.1 hz]
      exact hone
  · intro z hz
    refine h.ahead z fun hz' => hz ?_
    rw [List.take_add_one]
    exact List.mem_append_left _ hz'
  · exact fun q' hq' => absurd rfl ((hq'.of_cons (by simp)).2 _)
  · exact fun z hz => (h.again z hz).cons
  · intro z hz hk
    have := hnext z hz
    omega

/-- **Every call keeps the walk**, and none takes it back. -/
theorem Walk.step {o : FetchOp Ref P ε} {r : Except (HostExc ε) o.Val} (h : Walk p u n k)
    (hu : Each p.planner.Allows (⟨o, r⟩ :: u)) : ∃ n' k', n ≤ n' ∧ Walk p (⟨o, r⟩ :: u) n' k' := by
  obtain ⟨⟨henv, hg⟩, hu⟩ := hu
  cases o with
  | plan cursor =>
    refine ⟨n, k, le_rfl, h.quiet hg (by simp) rfl rfl ?_⟩
    rintro q (⟨_, _, hs⟩ | ⟨_, ⟨_, hs, _⟩ | ⟨_, ⟨_, _, hs, _⟩ | ⟨_, hs, _⟩⟩⟩) <;> cases hs
    refine SequencePlanner.plan_plans h.le ?_ henv.symm
    rw [← h.content]
    exact hg.1
  | checkpointAfter y w =>
    exact ⟨n, k, le_rfl, h.quiet hg (by simp) rfl rfl fun q hq =>
      h.working q (hq.of_cons (by simp)).1⟩
  | fetch ref =>
    exact ⟨n, k, le_rfl, h.quiet hg (by simp) rfl rfl fun q hq =>
      h.working q (hq.of_cons (by simp)).1⟩
  | persist y w =>
    obtain ⟨k', hk'⟩ := h.persist (r := r) hg
    exact ⟨n, k', le_rfl, hk'⟩
  | host o =>
    cases o with
    | save c =>
      cases r with
      | ok v => exact ⟨n + 1, k, Nat.le_succ n, h.save hu hg⟩
      | error e =>
        exact ⟨n, k, le_rfl, h.quiet hg (by simp) rfl rfl fun q hq =>
          h.working q (hq.of_cons (by simp)).1⟩
    | _ => exact ⟨n, k, le_rfl, h.quiet hg (by simp) rfl rfl h.working⟩

theorem walk_of_each (hu : Each p.planner.Allows u) : ∃ n k, Walk p u n k := by
  induction u with
  | nil => exact ⟨0, _, .start⟩
  | cons e u ih =>
    obtain ⟨n, k, h⟩ := ih hu.2
    obtain ⟨n', k', -, h'⟩ := h.step (o := e.1) (r := e.2) hu
    exact ⟨n', k', h'⟩

/-- After the last unit nothing is fetched. -/
theorem Walk.no_fetch (h : Walk p u p.units.length k) {v : FetchHist Ref P ε}
    (hv : Each p.planner.Allows (v ++ u)) :
    (∃ k', Walk p (v ++ u) p.units.length k') ∧ ∀ e ∈ v, ∀ ref, e.1 ≠ .fetch ref := by
  induction v with
  | nil => exact ⟨⟨k, h⟩, fun e he => by cases he⟩
  | cons e v ih =>
    obtain ⟨⟨k', h'⟩, hnone⟩ := ih hv.2
    constructor
    · obtain ⟨n'', k'', hle, h''⟩ := h'.step (o := e.1) (r := e.2) hv
      have hn : n'' = p.units.length := le_antisymm h''.le hle
      exact ⟨k'', hn ▸ h''⟩
    · intro e' he' ref href
      rcases List.mem_cons.1 he' with rfl | he'
      · have hj := hv.1.2.1
        rw [href] at hj
        obtain ⟨q, hq, -⟩ := hj
        have hlt := (h'.working q (.inl hq)).1
        simp at hlt
      · exact hnone e' he' ref href

end

/-- The checkpoint of the last unit is stored when all are done. -/
theorem Walk.length_of_last (h : Walk p u n k) {x : Ref} (hx : p.units.getLast? = some x)
    (hstored : fetchContent u = p.checkpointOf x) : n = p.units.length := by
  have hcontent := h.content.symm.trans hstored
  rw [List.getLast?_eq_getElem?] at hx
  cases n with
  | zero => cases hcontent
  | succ n =>
    have hle := h.le
    have hn : p.units[n]? = some (p.units.get ⟨n, hle⟩) := List.getElem?_eq_getElem hle
    rw [SequencePlanner.stored_succ hn] at hcontent
    have hvalue : p.encode (p.units.get ⟨n, hle⟩) = p.encode x := by
      simpa [SequencePlanner.checkpointOf] using hcontent
    -- Both are where the index has the text.
    have hindex := SequencePlanner.lookup_index hn
    rw [hvalue, SequencePlanner.lookup_index hx, Option.some_inj] at hindex
    omega

end

/-! ## Coverage -/

/-- How the runs with the history `u` have covered the units: each of the first `m` of them
    has been handed over `k` times, one after the other, and more than once only if it was
    interrupted; once the checkpoint of the last unit is stored, nothing is fetched. -/
structure Covers {Ref P ε : Type} (units : List Ref) (checkpointOf : Ref → FetchObj Ref P)
    (u : FetchHist Ref P ε) : Prop where
  walk : ∃ (m : ℕ) (k : Ref → ℕ),
    handed u = (units.take m).flatMap (fun x => List.replicate (k x) (some x)) ∧
      ∀ x ∈ units.take m, 1 ≤ k x ∧ (k x ≠ 1 → Interrupted u x)
  finished : ∀ v u₁ x, u = v ++ u₁ → units.getLast? = some x → fetchContent u₁ = checkpointOf x →
    ∀ e ∈ v, ∀ ref, e.1 ≠ .fetch ref

/-- **A sequence is covered without gaps**: over units of one kind with distinct texts, in
    either order, successive runs of the intent, with an empty store at first and each cut
    anywhere, hand every unit over until it is stored, and then only its successor. -/
theorem sequence_coverage {Ref P ε : Type} [StrRepr] {units : List Ref} {kind : String}
    {encode : Ref → String} (order : SequenceOrder) (hkind : isBlank kind = false)
    (htext : ∀ x ∈ units, isBlank (encode x) = false) (hdistinct : (units.map encode).Nodup) :
    ∃ p : SequencePlanner Ref, SequencePlanner.make (ε := ε) units kind encode order.value = .ok p ∧
      ∀ (i : FetchIntent) (u : FetchHist Ref P ε), Sessions p.planner.Env i.IsRun u →
        Covers (order.walk units) (fun x => .mapping (some kind) (some (encode x))) u := by
  obtain ⟨p, hmake, rfl, rfl, hunits⟩ :=
    SequencePlanner.make_eq_ok (ε := ε) order hkind htext hdistinct
  refine ⟨p, hmake, fun i u hu => ?_⟩
  rw [← hunits]
  have heach : Each p.planner.Allows u := CursorPlanner.each hu
  obtain ⟨n, k, h⟩ := walk_of_each heach
  constructor
  · -- The unit that is not stored counts if it has been handed over.
    by_cases hlast : ∃ x, p.units[n]? = some x ∧ 1 ≤ k x
    · obtain ⟨x, hx, hk⟩ := hlast
      refine ⟨n + 1, k, h.handed, fun z hz => ⟨?_, fun hz' => ?_⟩⟩
      · rw [List.take_add_one, hx] at hz
        rcases List.mem_append.1 hz with hz | hz
        · exact h.done z hz
        · rw [List.mem_singleton.1 hz]
          exact hk
      · have : k z ≠ 0 := fun hz0 => by
          rw [List.take_add_one, hx] at hz
          rcases List.mem_append.1 hz with hz | hz
          · have := h.done z hz
            omega
          · rw [List.mem_singleton.1 hz] at hz0
            omega
        exact h.again z (by omega)
    · refine ⟨n, k, ?_, fun z hz => ⟨h.done z hz, fun hz' => h.again z ?_⟩⟩
      · have hrest : (p.units[n]?.toList).flatMap
            (fun x => List.replicate (k x) (some x)) = [] := by
          cases hx : p.units[n]? with
          | none => rfl
          | some x =>
            have : k x = 0 := by
              by_contra hk
              exact hlast ⟨x, hx, by omega⟩
            simp [this]
        rw [h.handed, List.take_add_one, List.flatMap_append, hrest, List.append_nil]
      · have := h.done z hz
        omega
  · rintro v u₁ x rfl hx hstored
    obtain ⟨n₁, k₁, h₁⟩ := walk_of_each heach.of_append
    have hn : n₁ = p.units.length := h₁.length_of_last hx hstored
    exact ((hn ▸ h₁).no_fetch heach).2

/-! ### A run -/

section

local instance plainRepr : StrRepr := ⟨fun s => "'" ++ s ++ "'"⟩

/-- The first save fails. -/
def failingSave (u : FetchHist ℕ ℕ Unit) : Except (HostExc Unit) Unit :=
  if (handed u).length = 1 then .error (.consumer ()) else .ok ()

/-- A walk backwards over two units, of which the first is handed over twice. -/
theorem sequence_coverage_run : ∃ (p : SequencePlanner ℕ) (u : FetchHist ℕ ℕ Unit),
    SequencePlanner.make (ε := Unit) [1, 2] "page" (fun n => if n = 1 then "one" else "two")
      SequenceOrder.reverse.value = .ok p ∧
    Sessions p.planner.Env (FetchIntent.IsRun {}) u ∧ handed u = [some 2, some 2, some 1] ∧
    Covers [2, 1] (fun x => .mapping (some "page") (some (if x = 1 then "one" else "two"))) u := by
  obtain ⟨p, hmake, hcovers⟩ := @sequence_coverage ℕ ℕ Unit _ [1, 2] "page"
    (fun n => if n = 1 then "one" else "two") .reverse (by decide +kernel)
      (by decide +kernel) (by decide +kernel)
  have hrun : Sessions p.planner.Env (FetchIntent.IsRun {})
      ((FetchIntent.program {} plainHost none 4).exec (p.planner.answer id failingSave) []).2 :=
    .run .nil ⟨plainHost, none, 4, rfl⟩ (exec_reaches _ (p.planner.answer_env id failingSave) _ [])
  refine ⟨p, _, hmake, hrun, ?_, hcovers _ _ hrun⟩
  cases hmake
  rfl

end

end DatasourceKit

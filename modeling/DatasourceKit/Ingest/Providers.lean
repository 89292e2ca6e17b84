/-
  The built-in `diff.by_id` (`providers.py`).

  * `pyStr`: `str(v)`; the texts of composite values are the interpreter's;
  * `recordIdentity`, `diffById`: the source functions; the records are filtered by one key and
    identified by another;
  * `diff_partitions_iff`: the three lists partition the identities of the records exactly where
    the filter loses none of them, and all texts exist.
-/
import Mathlib.Data.Finset.Sort
import Mathlib.Data.String.Basic
import DatasourceKit.Value

namespace DatasourceKit

/-- `repr` of floats and of composite values, which may raise. -/
class PyRepr where
  repr : PyVal → Except Exc String

/-- `str(v)`. -/
def pyStr [PyRepr] : PyVal → Except Exc String
  | .str s => .ok s
  | .none => .ok "None"
  | .bool b => .ok (if b then "True" else "False")
  | .int n =>
    if (Nat.toDigits 10 n.natAbs).length ≤ digitLimit then .ok (toString n)
    else .error (.valueError "Exceeds the limit for integer string conversion")
  | v => PyRepr.repr v

/-- `key in record`. -/
def PyDict.has (record : PyDict) (key : String) : Bool := (record.lookup (.str key)).isSome

/-- `record[key]`. -/
def PyDict.getItem (record : PyDict) (key : String) : Except Exc PyVal :=
  (record.lookup (.str key)).elim (.error (.keyError key)) .ok

section
variable [PyRepr]

/-- `str(config.get("field", "id"))`. -/
def identityField (config : PyDict) : Except Exc String :=
  pyStr ((config.lookup (.str "field")).getD (.str "id"))

/-- `_record_id`. -/
def recordIdentity (record config : PyDict) : Except Exc String := do
  let field ← identityField config
  pyStr (← record.getItem field)

/-- `{_record_id(record, config) for record in records if "id" in record}`. -/
def identities (config : PyDict) (records : List PyDict) : Except Exc (Finset String) :=
  return (← (records.filter (·.has "id")).mapM (recordIdentity · config)).toFinset

structure DiffResult where
  added : List String
  removed : List String
  unchanged : List String
deriving DecidableEq

/-- `_diff_by_id`. -/
def diffById (fetched stored : List PyDict) (config : PyDict) : Except Exc DiffResult := do
  let fetchedIds ← identities config fetched
  let storedIds ← identities config stored
  return ⟨(fetchedIds \ storedIds).sort (· ≤ ·), (storedIds \ fetchedIds).sort (· ≤ ·),
    (fetchedIds ∩ storedIds).sort (· ≤ ·)⟩

/-! ## The identities -/

/-- Some record of the list has the identity `x`. -/
def Identifies (config : PyDict) (records : List PyDict) (x : String) : Prop :=
  ∃ record ∈ records, recordIdentity record config = .ok x

variable {config : PyDict} {records fetched stored : List PyDict}

omit [PyRepr] in
theorem mapM_cons_eq_ok {β : Type} {l : List PyDict} {f : PyDict → Except Exc β} {a : PyDict}
    {xs : List β} (h : (a :: l).mapM f = .ok xs) :
    ∃ y ys, f a = .ok y ∧ l.mapM f = .ok ys ∧ y :: ys = xs := by
  rw [List.mapM_cons] at h
  rcases hfa : f a with e | y
  · rw [hfa] at h
    cases h
  rcases hfl : l.mapM f with e | ys
  · rw [hfa, hfl] at h
    cases h
  rw [hfa, hfl] at h
  exact ⟨y, ys, rfl, rfl, Except.ok.inj h⟩

omit [PyRepr] in
theorem mapM_eq_ok {β : Type} {l : List PyDict} {f : PyDict → Except Exc β} :
    (∃ xs, l.mapM f = .ok xs) ↔ ∀ a ∈ l, ∃ x, f a = .ok x := by
  induction l with
  | nil => simp [pure, Except.pure]
  | cons a l ih =>
    rw [List.forall_mem_cons, ← ih, List.mapM_cons]
    rcases hfa : f a with e | x
    · simp [bind, Except.bind]
    · rcases hfl : l.mapM f with e | xs <;> simp [bind, Except.bind, pure, Except.pure]

omit [PyRepr] in
theorem mem_of_mapM {l : List PyDict} {f : PyDict → Except Exc String} {xs : List String}
    (h : l.mapM f = .ok xs) (x : String) : x ∈ xs ↔ ∃ a ∈ l, f a = .ok x := by
  induction l generalizing xs with
  | nil =>
    cases h
    simp
  | cons a l ih =>
    obtain ⟨y, ys, hfa, hfl, rfl⟩ := mapM_cons_eq_ok h
    simp [ih hfl, hfa, eq_comm]

/-- The identities that the filter leaves. -/
theorem identities_ok {ids : Finset String} (h : identities config records = .ok ids) (x : String) :
    x ∈ ids ↔ Identifies config (records.filter (·.has "id")) x := by
  rw [identities] at h
  rcases hxs : (records.filter (·.has "id")).mapM (recordIdentity · config) with e | xs
  · rw [hxs] at h
    cases h
  · rw [hxs] at h
    obtain rfl : xs.toFinset = ids := Except.ok.inj h
    rw [List.mem_toFinset, mem_of_mapM hxs]
    rfl

/-- There are identities where the records that have an `id` have one. -/
theorem exists_identities :
    (∃ ids, identities config records = .ok ids) ↔
      ∀ record ∈ records, record.has "id" = true → ∃ x, recordIdentity record config = .ok x := by
  have hmapM := @mapM_eq_ok _ (records.filter (·.has "id")) (recordIdentity · config)
  simp only [List.mem_filter, and_imp] at hmapM
  rw [← hmapM, identities]
  constructor
  · rintro ⟨ids, h⟩
    rcases hxs : (records.filter (·.has "id")).mapM (recordIdentity · config) with e | xs
    · rw [hxs] at h
      cases h
    · exact ⟨xs, hxs⟩
  · rintro ⟨xs, hxs⟩
    exact ⟨xs.toFinset, by rw [hxs]; rfl⟩

/-! ## The partition -/

/-- The three lists are sorted, without repetition, and disjoint, and they make up the
    identities of the two lists of records. -/
structure Partitions (config : PyDict) (fetched stored : List PyDict) (d : DiffResult) : Prop where
  added_sorted : d.added.Pairwise (· < ·)
  removed_sorted : d.removed.Pairwise (· < ·)
  unchanged_sorted : d.unchanged.Pairwise (· < ·)
  added_removed : d.added.Disjoint d.removed
  added_unchanged : d.added.Disjoint d.unchanged
  removed_unchanged : d.removed.Disjoint d.unchanged
  fetched : ∀ x, x ∈ d.added ∨ x ∈ d.unchanged ↔ Identifies config fetched x
  stored : ∀ x, x ∈ d.removed ∨ x ∈ d.unchanged ↔ Identifies config stored x

/-- The filter loses no identity: every record with an `id` has a text for an identity, and a
    record without `id` shares its identity with one that has an `id`. -/
structure LosesNone (config : PyDict) (records : List PyDict) : Prop where
  texts : ∀ record ∈ records, record.has "id" = true → ∃ x, recordIdentity record config = .ok x
  shared : ∀ record ∈ records, record.has "id" = false → ∀ x, recordIdentity record config = .ok x →
    Identifies config (records.filter (·.has "id")) x

theorem identifies_filter {x : String} (h : Identifies config (records.filter (·.has "id")) x) :
    Identifies config records x := by
  obtain ⟨record, hrecord, hx⟩ := h
  exact ⟨record, (List.mem_filter.1 hrecord).1, hx⟩

/-- What is not lost, the filter leaves. -/
theorem LosesNone.filter (h : LosesNone config records) {x : String} :
    Identifies config (records.filter (·.has "id")) x ↔ Identifies config records x := by
  refine ⟨identifies_filter, ?_⟩
  rintro ⟨record, hrecord, hx⟩
  rcases hid : record.has "id" with _ | _
  · exact h.shared record hrecord hid x hx
  · exact ⟨record, List.mem_filter.2 ⟨hrecord, hid⟩, hx⟩

/-- **The diff partitions the identities** exactly where the filter loses none of them. -/
theorem diff_partitions_iff :
    (∃ d, diffById fetched stored config = .ok d ∧ Partitions config fetched stored d) ↔
      LosesNone config fetched ∧ LosesNone config stored := by
  constructor
  · rintro ⟨d, hd, hpart⟩
    rw [diffById] at hd
    rcases hf : identities config fetched with e | fetchedIds
    · rw [hf] at hd
      cases hd
    rcases hs : identities config stored with e | storedIds
    · rw [hf, hs] at hd
      cases hd
    rw [hf, hs] at hd
    obtain rfl := Except.ok.inj hd
    have hfmem : ∀ x, x ∈ fetchedIds ↔ Identifies config fetched x := by
      intro x
      rw [← hpart.fetched x]
      simp only [Finset.mem_sort, Finset.mem_sdiff, Finset.mem_inter]
      tauto
    have hsmem : ∀ x, x ∈ storedIds ↔ Identifies config stored x := by
      intro x
      rw [← hpart.stored x]
      simp only [Finset.mem_sort, Finset.mem_sdiff, Finset.mem_inter]
      tauto
    refine ⟨⟨exists_identities.1 ⟨_, hf⟩, fun record hrecord _ x hx => ?_⟩,
      exists_identities.1 ⟨_, hs⟩, fun record hrecord _ x hx => ?_⟩
    · exact (identities_ok hf x).1 ((hfmem x).2 ⟨record, hrecord, hx⟩)
    · exact (identities_ok hs x).1 ((hsmem x).2 ⟨record, hrecord, hx⟩)
  · rintro ⟨hfetched, hstored⟩
    obtain ⟨fetchedIds, hf⟩ := exists_identities.2 hfetched.texts
    obtain ⟨storedIds, hs⟩ := exists_identities.2 hstored.texts
    have hdisjoint : ∀ {s t : Finset String}, Disjoint s t →
        (s.sort (· ≤ ·)).Disjoint (t.sort (· ≤ ·)) :=
      fun hst x hx hx' =>
        Finset.disjoint_left.1 hst ((Finset.mem_sort _).1 hx) ((Finset.mem_sort _).1 hx')
    refine ⟨_, by rw [diffById, hf, hs]; rfl, ?_⟩
    refine ⟨Finset.sortedLT_sort _ |>.pairwise, Finset.sortedLT_sort _ |>.pairwise,
      Finset.sortedLT_sort _ |>.pairwise, hdisjoint ?_, hdisjoint ?_, hdisjoint ?_,
      fun x => ?_, fun x => ?_⟩
    · exact disjoint_sdiff_sdiff
    · exact Finset.disjoint_sdiff_inter _ _
    · rw [Finset.inter_comm]
      exact Finset.disjoint_sdiff_inter _ _
    · rw [← hfetched.filter, ← identities_ok hf]
      simp only [Finset.mem_sort, Finset.mem_sdiff, Finset.mem_inter]
      tauto
    · rw [← hstored.filter, ← identities_ok hs]
      simp only [Finset.mem_sort, Finset.mem_sdiff, Finset.mem_inter]
      tauto

end

section

local instance raisingRepr : PyRepr := ⟨fun _ => .error .typeError⟩

/-- A record that has the configured field and no `id`. -/
def namedRecord : PyDict := [(.str "name", .str "a")]

/-- The identity of a fetched record without `id` is in none of the lists. -/
theorem diff_loses_identity :
    diffById [namedRecord] [] [(.str "field", .str "name")] = .ok ⟨[], [], []⟩ ∧
      recordIdentity namedRecord [(.str "field", .str "name")] = .ok "a" ∧
      ¬∃ d, diffById [namedRecord] [] [(.str "field", .str "name")] = .ok d ∧
        Partitions [(.str "field", .str "name")] [namedRecord] [] d := by
  have hrun : diffById [namedRecord] [] [(.str "field", .str "name")] = .ok ⟨[], [], []⟩ := by
    have hids : ∀ records, records = [namedRecord] ∨ records = [] →
        identities [(.str "field", .str "name")] records = .ok ∅ := by
      rintro _ (rfl | rfl) <;> rfl
    rw [diffById, hids _ (.inl rfl), hids _ (.inr rfl)]
    simp [bind, Except.bind, pure, Except.pure]
  have hid : recordIdentity namedRecord [(.str "field", .str "name")] = .ok "a" := by rfl
  refine ⟨hrun, hid, ?_⟩
  rintro ⟨d, hd, hpart⟩
  rw [hrun] at hd
  obtain rfl := Except.ok.inj hd
  simpa using (hpart.fetched "a").2 ⟨_, List.mem_singleton_self _, hid⟩

end

end DatasourceKit

/-
  The records of a launch in `pid.json`, and the metadata of a consumer in them.

  * `pidPayload_inv`, `dump_inv`: what the template and the record of a launch are;
  * `Carries spec g d`: the record `d` holds the metadata of `spec`, next to the fields of
    the launch with the generation `g`;
  * `Survivable`: the entries that the records do not overwrite or refuse; they are carried
    (`carries_dump`, `Carries.stopped`).
-/
import DatasourceKit.Fleet.Unit

namespace DatasourceKit

/-! ## Encoding -/

mutual

/-- `sort_keys` does not change the value that is encoded. -/
theorem toJson_unsorted : ∀ {v : PyVal} {j : Json}, v.toJson true = some j → v.toJson false = some j
  | .none, _, h => h
  | .bool _, _, h => h
  | .int _, _, h => h
  | .float _, _, h => h
  | .nan, _, h => h
  | .infinity _, _, h => h
  | .str _, _, h => h
  | .other, _, h => h
  | .list l, j, h => by
    simp only [PyVal.toJson] at h ⊢
    obtain ⟨js, hl, rfl⟩ := Option.map_eq_some_iff.1 h
    rw [toJsonList_unsorted hl, Option.map_some]
  | .dict m, j, h => by
    simp only [PyVal.toJson, Bool.false_and, Bool.false_eq_true, if_false] at h ⊢
    split_ifs at h
    obtain ⟨js, hl, rfl⟩ := Option.map_eq_some_iff.1 h
    rw [toJsonDict_unsorted hl, Option.map_some]

theorem toJsonList_unsorted : ∀ {l : List PyVal} {js : List Json},
    PyVal.toJsonList true l = some js → PyVal.toJsonList false l = some js
  | [], _, h => h
  | v :: l, js, h => by
    simp only [PyVal.toJsonList, Option.bind_eq_bind, Option.bind_eq_some_iff, Option.pure_def,
        Option.some.injEq] at h ⊢
    obtain ⟨j, hv, js', hl, rfl⟩ := h
    exact ⟨j, toJson_unsorted hv, js', toJsonList_unsorted hl, rfl⟩

theorem toJsonDict_unsorted : ∀ {m : List (PyKey × PyVal)} {js : List (String × Json)},
    PyVal.toJsonDict true m = some js → PyVal.toJsonDict false m = some js
  | [], _, h => h
  | (k, v) :: m, js, h => by
    simp only [PyVal.toJsonDict, Option.bind_eq_bind, Option.bind_eq_some_iff, Option.pure_def,
        Option.some.injEq] at h ⊢
    obtain ⟨t, hk, j, hv, js', hl, rfl⟩ := h
    exact ⟨t, hk, j, toJson_unsorted hv, js', toJsonDict_unsorted hl, rfl⟩

end

/-- Only `null`, a string or an integer. -/
def Json.IsScalar : Json → Prop
  | .null => True
  | .str _ => True
  | .int _ => True
  | _ => False

theorem toJson_scalar {v : PyVal} {j : Json} (hj : j.IsScalar) (h : v.toJson false = some j) :
    v.toJson true = some j := by
  cases v with
  | list l =>
    simp only [PyVal.toJson] at h
    obtain ⟨js, -, rfl⟩ := Option.map_eq_some_iff.1 h
    cases hj
  | dict m =>
    simp only [PyVal.toJson, Bool.false_and, Bool.false_eq_true, if_false] at h
    obtain ⟨js, -, rfl⟩ := Option.map_eq_some_iff.1 h
    cases hj
  | _ => exact h

/-- The members of an encoded mapping, entry by entry. -/
theorem toJsonDict_forall {sort : Bool} {m : PyDict} {l : List (String × Json)}
    (h : PyVal.toJsonDict sort m = some l) :
    List.Forall₂ (fun e p => e.1.text = some p.1 ∧ e.2.toJson sort = some p.2) m l := by
  induction m generalizing l with
  | nil => cases h; exact .nil
  | cons e m ih =>
    obtain ⟨k, v⟩ := e
    simp only [PyVal.toJsonDict, Option.bind_eq_bind, Option.bind_eq_some_iff, Option.pure_def,
      Option.some.injEq] at h
    obtain ⟨t, hk, j, hv, js, hl, rfl⟩ := h
    exact .cons ⟨hk, hv⟩ (ih hl)

theorem dumpsWith_inv {sort : Bool} {base d : Dict} {m : PyDict}
    (h : dumpsWith sort base m = .ok d) :
    (sort = true → ∀ e ∈ m, e.1.isStr = true) ∧
      ∃ l, PyVal.toJsonDict sort m = some l ∧ d = base.update l ∧ dumps d = .ok d := by
  unfold dumpsWith at h
  split_ifs at h with hs
  split at h
  · cases h
  rename_i l hl
  obtain rfl := dumps_ok h
  refine ⟨?_, l, hl, rfl, h⟩
  rintro rfl
  simpa using hs

/-- The value of a key in an encoded mapping. -/
theorem lookup_dumpsWith {sort : Bool} {base d : Dict} {m : PyDict} (hm : (m.map Prod.fst).Nodup)
    (hstr : ∀ e ∈ m, e.1.isStr = true) (h : dumpsWith sort base m = .ok d) {k : String} {v : PyVal}
    (hk : (PyKey.str k, v) ∈ m) : ∃ j, v.toJson sort = some j ∧ d.lookup k = some j := by
  obtain ⟨-, l, hl, rfl, -⟩ := dumpsWith_inv h
  have hall := toJsonDict_forall hl
  have hkeys : m.map Prod.fst = l.map fun p => PyKey.str p.1 := by
    clear hl hm hk h
    induction hall with
    | nil => rfl
    | @cons e p m l hep _ ih =>
      have hhead : e.1 = .str p.1 := by
        obtain ⟨k, v⟩ := e
        have hs := hstr _ (List.mem_cons_self ..)
        cases k <;> simp_all [PyKey.isStr, PyKey.text]
      rw [List.map_cons, List.map_cons, hhead, ih fun e he => hstr e (List.mem_cons_of_mem _ he)]
  have hnodup : (l.map Prod.fst).Nodup := by
    rw [hkeys] at hm
    exact List.Nodup.of_map PyKey.str (by rwa [List.map_map])
  obtain ⟨i, hi, hget⟩ := List.getElem_of_mem hk
  have hi' : i < l.length := hall.length_eq ▸ hi
  have hp := hall.get hi hi'
  simp only [List.get_eq_getElem, hget] at hp
  refine ⟨l[i].2, hp.2, Dict.lookup_update_of_mem _ hnodup ?_⟩
  have hkey : l[i].1 = k := (Option.some.inj hp.1).symm
  rw [← hkey]
  exact List.getElem_mem ..

/-! ## The records of a launch -/

/-- `spawn`'s first result, before there is a child. -/
def noResult : SpawnResult := ⟨0, 0, false, none, none⟩

/-- The standard fields of the record. -/
def baseFields (spec : ProcessSpec) : Dict :=
  Dict.update ∅ [("pid", .int 0), ("command", .arr (spec.command.map .str)),
  ("started_at", .float 0), ("label", .str spec.label)]

/-- The metadata is that of `spec`, and has none of the standard keys. -/
theorem pidPayload_inv {spec : ProcessSpec} {t : PidTemplate}
    (h : pidPayload spec noResult = .ok t) :
    t = ⟨baseFields spec, spec.pidMetadata⟩ ∧
    (∀ k ∈ standardPidKeys, ∀ e ∈ spec.pidMetadata, e.1 ≠ .str k) ∧
    ∃ d, dumpsWith false (baseFields spec) spec.pidMetadata = .ok d := by
  simp only [pidPayload] at h
  split_ifs at h with hcol
  rw [not_not] at hcol
  change (dumpsWith false (baseFields spec) spec.pidMetadata).map _ = _ at h
  cases hd : dumpsWith false (baseFields spec) spec.pidMetadata with
  | error e => rw [hd] at h; cases h
  | ok d =>
    rw [hd] at h
    cases h
    refine ⟨rfl, fun k hk e he hek => ?_, d, rfl⟩
    have hnot := List.filter_eq_nil_iff.1 hcol k hk
    exact hnot (List.any_eq_true.2 ⟨e, he, by rw [hek]; exact beq_self_eq_true _⟩)

/-- The metadata that no field of the launch replaces. -/
def keptEntries (m : PyDict) (fields : List (String × Json)) : PyDict :=
  m.filter fun e => !fields.any fun f => e.1 == .str f.1

theorem mem_keptEntries {m : PyDict} {fields : List (String × Json)} {e : PyKey × PyVal} :
    e ∈ keptEntries m fields ↔ e ∈ m ∧ ∀ f ∈ fields, e.1 ≠ .str f.1 := by
  simp [keptEntries]

theorem dump_inv {t : PidTemplate} {fields : List (String × Json)} {d : Dict}
    (h : t.dump fields = .ok d) :
    ∃ d₁, dumpsWith true t.base (keptEntries t.metadata fields) = .ok d₁ ∧
    d = d₁.update fields ∧ dumps d = .ok d := by
  change (dumpsWith true t.base (keptEntries t.metadata fields)).bind _ = _ at h
  cases hd : dumpsWith true t.base (keptEntries t.metadata fields) with
  | error e => rw [hd] at h; cases h
  | ok d₁ =>
    rw [hd] at h
    obtain rfl := dumps_ok h
    exact ⟨d₁, rfl, rfl, h⟩

/-- The record holds the metadata, next to the fields of the launch. -/
structure Carries (spec : ProcessSpec) (g : Option ℤ) (d : Dict) : Prop where
  metadata : ∀ e ∈ spec.pidMetadata, ∃ k j, e.1.text = some k ∧
    e.2.toJson false = some j ∧ d.lookup k = some j
  unit : d.get "unit" = .str spec.unit
  generation : d.get "generation" = generationJson g
  token : ∃ t, d.get "token" = .str t ∧ d.get "incarnation" = .str t
  command : d.get "command" = .arr (spec.command.map .str)
  label : d.get "label" = .str spec.label

/-- The fields that a record gets in any case, and their values. -/
def fixedFields (spec : ProcessSpec) (g : Option ℤ) : List (String × Json) :=
  [("unit", .str spec.unit), ("generation", generationJson g), ("stop_requested", .bool true),
    ("operator_verification_required", .bool true)]

/-- The fields whose values differ from record to record. -/
def variableKeys : List String := ["token", "incarnation", "status"]

/-- Every entry has a string for a key and can be encoded with sorted keys, and the fields
    of the launch and of a stop leave its value. -/
def Survivable (spec : ProcessSpec) (g : Option ℤ) : Prop := ∀ e ∈ spec.pidMetadata, ∃ k j,
  e.1 = .str k ∧ e.2.toJson true = some j ∧ k ∉ variableKeys ∧
    ∀ v, (k, v) ∈ fixedFields spec g → j = v

section
variable {spec : ProcessSpec} {g : Option ℤ} {t : PidTemplate} {pid started : Json}
  {token status : String} {d : Dict}

/-- The fields of a launch are in its record. -/
theorem lookup_dump {t : PidTemplate} {k : String} {v : Json}
    (h : t.dump (launchFields pid started spec.unit g token status) = .ok d)
    (hkv : (k, v) ∈ launchFields pid started spec.unit g token status) : d.lookup k = some v := by
  have hfields : ((launchFields pid started spec.unit g token status).map Prod.fst).Nodup := by
    show List.Nodup ["pid", "started_at", "unit", "generation", "token", "incarnation", "status"]
    decide
  obtain ⟨d₁, -, rfl, -⟩ := dump_inv h
  exact Dict.lookup_update_of_mem _ hfields hkv

/-- The record of a launch carries what survives. -/
theorem carries_dump (hm : (spec.pidMetadata.map Prod.fst).Nodup) (hs : Survivable spec g)
    (ht : pidPayload spec noResult = .ok t)
    (h : t.dump (launchFields pid started spec.unit g token status) = .ok d) :
    Carries spec g d := by
  have hget : ∀ k v, (k, v) ∈ launchFields pid started spec.unit g token status →
      d.lookup k = some v :=
    fun k v hkv => lookup_dump h hkv
  obtain ⟨rfl, hstd, -⟩ := pidPayload_inv ht
  obtain ⟨d₁, hd₁, rfl, -⟩ := dump_inv h
  have hbase : ∀ k, k ∈ standardPidKeys →
      (∀ f ∈ launchFields pid started spec.unit g token status, k ≠ f.1) →
      (d₁.update (launchFields pid started spec.unit g token status)).get k =
      (baseFields spec).get k := by
    intro k hk hf
    rw [Dict.get_update_of_notMem _ hf]
    exact get_of_dumpsWith hd₁ fun e he => hstd k hk e (mem_keptEntries.1 he).1
  refine ⟨?_, ?_, ?_, ⟨token, ?_, ?_⟩, ?_, ?_⟩
  · intro e he
    obtain ⟨k, j, hk, hj, hvar, hfix⟩ := hs e he
    refine ⟨k, j, by rw [hk]; rfl, toJson_unsorted hj, ?_⟩
    by_cases hf : ∃ f ∈ launchFields pid started spec.unit g token status, f.1 = k
    · obtain ⟨⟨k', v⟩, hf, rfl⟩ := hf
      rw [hget _ v hf]
      simp only [launchFields, List.mem_cons, List.not_mem_nil, or_false, Prod.mk.injEq] at hf
      rcases hf with ⟨rfl, -⟩ | ⟨rfl, -⟩ | ⟨rfl, rfl⟩ | ⟨rfl, rfl⟩ | ⟨rfl, -⟩ | ⟨rfl, -⟩ | ⟨rfl, -⟩
      · exact absurd hk (hstd "pid" (by decide) e he)
      · exact absurd hk (hstd "started_at" (by decide) e he)
      · rw [hfix (.str spec.unit) (by simp [fixedFields])]
      · rw [hfix (generationJson g) (by simp [fixedFields])]
      · exact absurd (by simp [variableKeys]) hvar
      · exact absurd (by simp [variableKeys]) hvar
      · exact absurd (by simp [variableKeys]) hvar
    · have hne : ∀ f ∈ launchFields pid started spec.unit g token status, k ≠ f.1 :=
          fun f hf' he => hf ⟨f, hf', he.symm⟩
      rw [Dict.lookup_update_of_notMem _ hne]
      have hkept : (PyKey.str k, e.2) ∈ keptEntries spec.pidMetadata
          (launchFields pid started spec.unit g token status) := by
        rw [← hk]
        refine mem_keptEntries.2 ⟨he, fun f hf' hkf => hne f hf' ?_⟩
        rw [hk] at hkf
        exact PyKey.str.inj hkf
      obtain ⟨j', hj', hlookup⟩ := lookup_dumpsWith (hm.sublist (List.filter_sublist.map _))
        ((dumpsWith_inv hd₁).1 rfl) hd₁ hkept
      rw [hj] at hj'
      cases hj'
      exact hlookup
  · rw [Dict.get, hget "unit" (.str spec.unit) (by simp [launchFields])]
    rfl
  · rw [Dict.get, hget "generation" (generationJson g) (by simp [launchFields])]
    rfl
  · rw [Dict.get, hget "token" (.str token) (by simp [launchFields])]
    rfl
  · rw [Dict.get, hget "incarnation" (.str token) (by simp [launchFields])]
    rfl
  · exact hbase "command" (by decide) (by simp [launchFields])
  · exact hbase "label" (by decide) (by simp [launchFields])

/-- The record that `stop` leaves carries what the one before has carried. -/
theorem Carries.stopped (hs : Survivable spec g) (hd : Carries spec g d) :
    Carries spec g (stoppedRecord d) := by
  have hfields : (([("stop_requested", Json.bool true), ("operator_verification_required", .bool true),
      ("status", .str "stop_requested_or_unknown")] :
      List (String × Json)).map Prod.fst).Nodup := by decide
  have hget : ∀ k, k ∉ ["stop_requested", "operator_verification_required", "status"] →
      (stoppedRecord d).get k = d.get k := by
    intro k hk
    refine Dict.get_update_of_notMem _ ?_
    simp only [List.mem_cons, List.not_mem_nil, or_false, not_or] at hk
    simp [hk]
  obtain ⟨token, htoken, hinc⟩ := hd.token
  refine ⟨fun e he => ?_, (hget _ (by decide)).trans hd.unit,
    (hget _ (by decide)).trans hd.generation,
    ⟨token, (hget _ (by decide)).trans htoken, (hget _ (by decide)).trans hinc⟩,
    (hget _ (by decide)).trans hd.command, (hget _ (by decide)).trans hd.label⟩
  obtain ⟨k, j, hk, hj, hlookup⟩ := hd.metadata e he
  obtain ⟨k', j', hk', hj', hvar, hfix⟩ := hs e he
  rw [hk'] at hk
  cases hk
  rw [toJson_unsorted hj'] at hj
  cases hj
  refine ⟨k, j, by rw [hk']; rfl, toJson_unsorted hj', ?_⟩
  by_cases hstop : k = "stop_requested" ∨ k = "operator_verification_required"
  · rw [hfix (.bool true) (by rcases hstop with rfl | rfl <;> simp [fixedFields])]
    exact Dict.lookup_update_of_mem _ hfields (by rcases hstop with rfl | rfl <;> simp)
  · rw [← hlookup]
    refine Dict.lookup_update_of_notMem _ ?_
    have hstatus : k ≠ "status" := by
      rintro rfl
      exact hvar (by decide)
    rw [not_or] at hstop
    simp [hstop, hstatus]

end

end DatasourceKit

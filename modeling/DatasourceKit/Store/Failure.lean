/-
  Store writes that raise (`protocols.py`, `providers.py`).

  * `InMemoryStore`: a dict of records under their ids; `upsert` writes the records one by one,
    `replace_all` builds the new dict first;
  * `Connection`: nothing that its statements have written is ever rolled back;
  * `failed_write_iff`: a call that raises changes nothing of what is read from then on exactly
    where the records before the failing one were there already.
-/
import DatasourceKit.Store.Drivers

namespace DatasourceKit

/-! ## What later operations return -/

/-- Whatever is called from then on, the same is read from both states. -/
def Unaffected {σ ω ρ : Type} (call : σ → ω → σ) (read : σ → ρ) (s s' : σ) : Prop :=
  ∀ ops : List ω, read (ops.foldl call s') = read (ops.foldl call s)

/-- If calls only depend on what is read, it is enough to read once. -/
theorem unaffected_iff {σ ω ρ : Type} {call : σ → ω → σ} {read : σ → ρ}
    (hcall : ∀ s s' op, read s' = read s → read (call s' op) = read (call s op)) (s s' : σ) :
    Unaffected call read s s' ↔ read s' = read s := by
  constructor
  · exact fun h => h []
  · intro h ops
    induction ops generalizing s s' with
    | nil => exact h
    | cons op ops ih => exact ih _ _ (hcall s s' op h)

/-! ## The store in memory -/

section
variable [PyRepr]

/-- A record of a caller: a mapping, or an object; `none` is an `AttributeError`. -/
inductive StoredRecord where
  | mapping (items : PyDict)
  | object (getattr : String → Option (Except Exc PyVal))

/-- `raise KeyError(f"record is missing id key {self.id_key!r}")`. -/
def missingIdKey (idKey : String) : Except Exc String := do
  let text ← PyRepr.repr (.str idKey)
  .error (.keyError ("record is missing id key " ++ text))

/-- `InMemoryStore._record_id`. -/
def storedId (idKey : String) : StoredRecord → Except Exc String
  | .mapping items => (items.lookup (.str idKey)).elim (missingIdKey idKey) pyStr
  | .object getattr => (getattr idKey).elim (missingIdKey idKey) (· >>= pyStr)

/-- `InMemoryStore`: the records in the order of the dict, each under its id. -/
structure InMemoryStore (idKey : String) where
  records : List (String × StoredRecord)
  keyed : (records.map Prod.fst).Nodup
  owned : ∀ entry ∈ records, storedId idKey entry.2 = .ok entry.1

/-- A call of `StoragePort`. -/
inductive PortOp where
  | upsert (records : List StoredRecord)
  | replaceAll (records : List StoredRecord)

namespace InMemoryStore

variable {idKey : String}

/-- `{}`. -/
def empty : InMemoryStore idKey := ⟨[], List.nodup_nil, by simp⟩

/-- `self._records[self._record_id(record)] = record`. -/
def put (s : InMemoryStore idKey) (record : StoredRecord) {id : String}
    (h : storedId idKey record = .ok id) :
    InMemoryStore idKey where
  records := Keyed.assign Prod.fst s.records (id, record)
  keyed := Keyed.nodup_assign s.keyed _
  owned entry hentry := by
    rcases Keyed.mem_assign.1 hentry with rfl | ⟨hentry, -⟩
    · exact h
    · exact s.owned entry hentry

/-- The assignments of `upsert` and of the dict display in `replace_all`. -/
def putAll (s : InMemoryStore idKey) : List StoredRecord → InMemoryStore idKey × Except Exc Unit
  | [] => (s, .ok ())
  | record :: records =>
    match h : storedId idKey record with
    | .error e => (s, .error e)
    | .ok _ => (s.put record h).putAll records

def upsert (s : InMemoryStore idKey) (records : List StoredRecord) :
    InMemoryStore idKey × Except Exc Summary :=
  let put := s.putAll records
  (put.1, put.2.map fun _ => [("upserted", records.length)])

def replaceAll (s : InMemoryStore idKey) (records : List StoredRecord) :
    InMemoryStore idKey × Except Exc Summary :=
  let built := empty.putAll records
  match built.2 with
  | .error e => (s, .error e)
  | .ok () => (built.1, .ok [("replaced", records.length)])

def all (s : InMemoryStore idKey) : List StoredRecord := s.records.map Prod.snd

def existingIds (s : InMemoryStore idKey) : Finset String := (s.records.map Prod.fst).toFinset

def call (s : InMemoryStore idKey) : PortOp → InMemoryStore idKey × Except Exc Summary
  | .upsert records => s.upsert records
  | .replaceAll records => s.replaceAll records

/-- What the store returns later is the same. -/
def Unaffected (s s' : InMemoryStore idKey) : Prop :=
  DatasourceKit.Unaffected (fun s op => (s.call op).1) (fun s => (s.all, s.existingIds)) s s'

/-- The records before the first one without an id, under their ids. -/
def identified (idKey : String) : List StoredRecord → List (String × StoredRecord)
  | [] => []
  | record :: records =>
    match storedId idKey record with
    | .error _ => []
    | .ok id => (id, record) :: identified idKey records

/-- All records have ids, or those before the first without one are what the store holds. -/
def Spares (s : InMemoryStore idKey) : PortOp → Prop
  | .upsert records => (∀ record ∈ records, ∃ id, storedId idKey record = .ok id) ∨
      ∀ entry ∈ Keyed.latest Prod.fst (identified idKey records), entry ∈ s.records
  | .replaceAll _ => True

/-- The records determine their ids. -/
theorem eq_of_all {s s' : InMemoryStore idKey} (h : s'.all = s.all) : s' = s := by
  suffices hrecords : s'.records = s.records by
    cases s
    cases s'
    cases hrecords
    rfl
  have hlength : s'.records.length = s.records.length := by simpa [all] using congrArg List.length h
  refine List.ext_getElem hlength fun n hn' hn => ?_
  have hsnd : s'.records[n].2 = s.records[n].2 := by
    have hget : s'.all[n]? = s.all[n]? := by rw [h]
    simpa [all, hn', hn] using hget
  have hid' := s'.owned _ (List.getElem_mem hn')
  rw [hsnd, s.owned _ (List.getElem_mem hn)] at hid'
  exact Prod.ext (Except.ok.inj hid').symm hsnd

theorem unaffected_iff {s s' : InMemoryStore idKey} : s.Unaffected s' ↔ s' = s := by
  rw [Unaffected, DatasourceKit.unaffected_iff]
  · constructor
    · exact fun h => eq_of_all (congrArg Prod.fst h)
    · rintro rfl
      rfl
  · intro s s' op h
    rw [eq_of_all (congrArg Prod.fst h)]

/-- **The loop** writes the records before the first one without an id. -/
theorem putAll_spec (s : InMemoryStore idKey) (records : List StoredRecord) :
    (s.putAll records).1.records = (identified idKey records).foldl (Keyed.assign Prod.fst)
    s.records ∧ ((s.putAll records).2 = .ok () ↔
      ∀ record ∈ records, ∃ id, storedId idKey record = .ok id) := by
  induction records generalizing s with
  | nil => simp [putAll, identified]
  | cons record records ih =>
    rw [putAll, identified, List.forall_mem_cons]
    split
    · rename_i e he
      simp [he]
    · rename_i id hid
      obtain ⟨hrecords, hok⟩ := ih (s.put record hid)
      rw [hrecords, hok, hid]
      simp [put]

theorem upsert_spares {s : InMemoryStore idKey} {records : List StoredRecord} :
    ((∃ e, (s.upsert records).2 = .error e) → s.Unaffected (s.upsert records).1) ↔
    s.Spares (.upsert records) := by
  obtain ⟨hrecords, hok⟩ := s.putAll_spec records
  have hself : (s.upsert records).1 = s ↔
      ∀ entry ∈ Keyed.latest Prod.fst (identified idKey records), entry ∈ s.records := by
    rw [← Keyed.foldl_assign_eq_self s.keyed, ← hrecords]
    constructor
    · exact fun h => congrArg InMemoryStore.records h
    · exact fun h => eq_of_all (congrArg (List.map Prod.snd) h)
  have hraise : (∃ e, (s.upsert records).2 = .error e) ↔
      ¬∀ record ∈ records, ∃ id, storedId idKey record = .ok id := by
    rw [← hok, upsert]
    rcases (s.putAll records).2 with e | ⟨⟩ <;> simp [Except.map]
  rw [unaffected_iff, hself, hraise, Spares, ← or_iff_not_imp_left]

/-- `replace_all` leaves the store alone if it raises. -/
theorem replaceAll_raises {s : InMemoryStore idKey} {records : List StoredRecord} {e : Exc}
    (h : (s.replaceAll records).2 = .error e) : (s.replaceAll records).1 = s := by
  simp only [replaceAll] at h ⊢
  rcases hbuilt : (putAll empty records).2 with e' | ⟨⟩
  · rfl
  · rw [hbuilt] at h
    cases h

theorem call_spares {s : InMemoryStore idKey} {op : PortOp} :
    ((∃ e, (s.call op).2 = .error e) → s.Unaffected (s.call op).1) ↔ s.Spares op := by
  cases op with
  | upsert records => exact upsert_spares
  | replaceAll records =>
    refine iff_of_true ?_ trivial
    rintro ⟨e, he⟩
    exact unaffected_iff.2 (replaceAll_raises he)

end InMemoryStore

/-! ## The table behind a connection -/

namespace Connection

/-- What the driver returns later is the same. -/
def Unaffected (c c' : Connection) : Prop :=
  DatasourceKit.Unaffected (fun c (op : StatementFaults × StoreOp) => (c.call op.1 op.2).1)
    (fun c => (c.load, c.existingIds)) c c'

/-- The call completes, or what it wrote before it raised is what the table held. -/
def Spares (c : Connection) (faults : StatementFaults) : StoreOp → Prop
  | .upsert records => Completes faults 0 records ∨
    Keyed.latest (·.id) (inserted faults 0 records) <:+ c.table.rows
  | .replaceAll records => (faults 0).isSome ∨ Completes faults 1 records ∨
      Keyed.latest (·.id) (inserted faults 1 records) = c.table.rows

omit [PyRepr] in
theorem load_inj {c c' : Connection} (h : c'.load = c.load) : c'.table = c.table := by
  have hinj : Function.Injective fun row : Row =>
      ([(.str "id", .str row.id), (.str "payload", .str row.payload)] : PyDict) := by
    rintro ⟨id, payload⟩ ⟨id', payload'⟩ heq
    simp only [List.cons.injEq, Prod.mk.injEq, PyVal.str.injEq, and_true, true_and] at heq
    rw [heq.1, heq.2]
  have hrows : c'.table.rows = c.table.rows := hinj.list_map h
  rcases c with ⟨⟨rows, hkeyed⟩, committed⟩
  rcases c' with ⟨⟨rows', hkeyed'⟩, committed'⟩
  cases hrows
  rfl

/-- The table after a call depends on the table before it. -/
theorem save_table {c c' : Connection} (h : c'.table = c.table) (faults : StatementFaults) (n : ℕ)
    (records : List PyDict) :
    (c'.save faults n records).1.table = (c.save faults n records).1.table := by
  induction records generalizing c c' n with
  | nil =>
    rw [save, save]
    cases faults n <;> exact h
  | cons record records ih =>
    rw [save, save]
    cases recordRow record with
    | error e => exact h
    | ok row =>
      cases faults n with
      | some e => exact h
      | none => exact ih (by rw [h]) (n + 1)

theorem call_table {c c' : Connection} (h : c'.table = c.table)
    (faults : StatementFaults) (op : StoreOp) :
    (c'.call faults op).1.table = (c.call faults op).1.table := by
  cases op with
  | upsert records => exact save_table h faults 0 records
  | replaceAll records =>
    show (c'.replaceAll faults records).1.table = (c.replaceAll faults records).1.table
    rw [replaceAll, replaceAll]
    cases faults 0 with
    | some e => exact h
    | none => exact @save_table _ ⟨_, c.committed⟩ ⟨_, c'.committed⟩ rfl faults 1 records

theorem unaffected_iff {c c' : Connection} : c.Unaffected c' ↔ c'.table = c.table := by
  have hread : ∀ c c' : Connection, (c'.load, c'.existingIds) = (c.load, c.existingIds) ↔
      c'.table = c.table := by
    intro c c'
    constructor
    · exact fun h => load_inj (congrArg Prod.fst h)
    · intro h
      rw [load, existingIds, h]
      rfl
  rw [Unaffected, DatasourceKit.unaffected_iff, hread]
  intro c c' op h
  exact (hread _ _).2 (call_table ((hread _ _).1 h) op.1 op.2)

omit [PyRepr] in
theorem table_eq_iff {t t' : RecordTable} : t' = t ↔ t'.rows = t.rows := by
  constructor
  · rintro rfl
    rfl
  · intro h
    cases t
    cases t'
    cases h
    rfl

omit [PyRepr] in
/-- A call raises where its `save` does. -/
theorem raises_iff {saved : Except Exc Unit} {completes : Prop} {summary : Summary}
    (h : saved = .ok () ↔ completes) :
    (∃ e, saved.map (fun _ => summary) = .error e) ↔ ¬completes := by
  rw [← h]
  rcases saved with e | ⟨⟩ <;> simp [Except.map]

theorem upsert_spares {c : Connection} {faults : StatementFaults} {records : List PyDict} :
    ((∃ e, (c.upsert faults records).2 = .error e) → c.Unaffected (c.upsert faults records).1) ↔
      c.Spares faults (.upsert records) := by
  obtain ⟨hrows, hok, -⟩ := c.save_spec faults 0 records
  have hself : (c.upsert faults records).1.table = c.table ↔
      Keyed.latest (·.id) (inserted faults 0 records) <:+ c.table.rows := by
    rw [table_eq_iff, ← Keyed.foldl_put_eq_self c.table.keyed, ← hrows]
    rfl
  rw [unaffected_iff, hself, upsert, raises_iff hok, Spares, ← or_iff_not_imp_left]

theorem replaceAll_spares {c : Connection} {faults : StatementFaults} {records : List PyDict} :
    ((∃ e, (c.replaceAll faults records).2 = .error e) →
      c.Unaffected (c.replaceAll faults records).1) ↔
      c.Spares faults (.replaceAll records) := by
  rw [Spares, unaffected_iff, replaceAll]
  cases faults 0 with
  | some e => simp
  | none =>
    obtain ⟨hrows, hok, -⟩ := save_spec ⟨⟨[], List.nodup_nil⟩, c.committed⟩ faults 1 records
    have hself : (save ⟨⟨[], List.nodup_nil⟩, c.committed⟩ faults 1 records).1.table = c.table ↔
        Keyed.latest (·.id) (inserted faults 1 records) = c.table.rows := by
      rw [table_eq_iff, hrows, Keyed.foldl_put]
      simp
    simp only [Option.isSome_none, Bool.false_eq_true, false_or]
    rw [hself, raises_iff hok, ← or_iff_not_imp_left]

theorem call_spares {c : Connection} {faults : StatementFaults} {op : StoreOp} :
    ((∃ e, (c.call faults op).2 = .error e) → c.Unaffected (c.call faults op).1) ↔
    c.Spares faults op := by
  cases op with
  | upsert records => exact upsert_spares
  | replaceAll records => exact replaceAll_spares

end Connection

/-- **A failed write changes nothing** of what the stores return from then on exactly where the
    part of it that was written was there already: the latest of those records in the store in
    memory, which `replace_all` always leaves alone, and the last rows of the table, or all of
    them if they were deleted first. -/
theorem failed_write_iff :
    (∀ (idKey : String) (s : InMemoryStore idKey) (op : PortOp),
      ((∃ e, (s.call op).2 = .error e) → s.Unaffected (s.call op).1) ↔ s.Spares op) ∧
    ∀ (c : Connection) (faults : StatementFaults) (op : StoreOp),
      ((∃ e, (c.call faults op).2 = .error e) → c.Unaffected (c.call faults op).1) ↔
      c.Spares faults op :=
  ⟨fun _ _ _ => InMemoryStore.call_spares, fun _ _ _ => Connection.call_spares⟩

end

section

local instance plainTexts : PyRepr := ⟨fun v => .ok v.plainRepr⟩

/-- A record without an id comes second. -/
def secondUnidentified : PortOp := .upsert [.mapping [(.str "id", .str "a")], .mapping []]

/-- A table with one row. -/
def oneRow : Connection := ⟨⟨[⟨"a", ""⟩], by simp⟩, ⟨[⟨"a", ""⟩], by simp⟩⟩

/-- The first record stays in the dict; the row stays deleted. -/
theorem failed_write_changes :
    ((@InMemoryStore.empty _ "id").call secondUnidentified).2 =
        .error (.keyError "record is missing id key 'id'") ∧
      ¬(@InMemoryStore.empty _ "id").Unaffected (InMemoryStore.empty.call secondUnidentified).1 ∧
      (oneRow.call (fun _ => none) (.replaceAll [[]])).2 = .error (.keyError "id") ∧
      (oneRow.call (fun _ => none) (.replaceAll [[]])).1.load = [] ∧
      ¬oneRow.Unaffected (oneRow.call (fun _ => none) (.replaceAll [[]])).1 := by
  refine ⟨rfl, fun h => ?_, rfl, rfl, fun h => ?_⟩
  · have hids := InMemoryStore.unaffected_iff.1 h
    have hlength : 1 = 0 := congrArg (fun s => s.records.length) hids
    omega
  · have htable := Connection.unaffected_iff.1 h
    have hlength : 0 = 1 := congrArg (fun t => t.rows.length) htable
    omega

end

end DatasourceKit

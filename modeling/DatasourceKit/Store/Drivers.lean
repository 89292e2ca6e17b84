/-
  The built-in store drivers (`providers.py`).

  * `InMemoryStoreDriver`: a list of records, which only `replace_all` cuts back;
  * `Connection`: what `_SQLiteStoreDriver` does with its connection, whose statements may raise;
    its table holds texts, and the primary key is `str` of the ids;
  * `stores_agree`: after the same calls the table holds the latest record of each id in
    the list, as a text; `stores_differ`: the loads of the two are not the same.
-/
import Mathlib.Data.Finset.Dedup
import DatasourceKit.Ingest.Providers
import DatasourceKit.Store.Keyed

namespace DatasourceKit

/-! ## Calls -/

/-- What a call returns: `{"upserted": n}` or `{"replaced": n}`. -/
abbrev Summary := List (String × ℕ)

inductive StoreOp where
  | upsert (records : List PyDict)
  | replaceAll (records : List PyDict)

namespace StoreOp

def records : StoreOp → List PyDict
  | upsert records | replaceAll records => records

/-- The records are dicts with an id. -/
def HasIds (op : StoreOp) : Prop := ∀ record ∈ op.records, record.has "id" = true

def summary : StoreOp → Summary
  | upsert records => [("upserted", records.length)]
  | replaceAll records => [("replaced", records.length)]

/-- What counts as written after the call, when `old` did before. -/
def write (old : List PyDict) : StoreOp → List PyDict
  | upsert records => old ++ records
  | replaceAll records => records

end StoreOp

/-- What has been written since the last `replace_all`. -/
def written (ops : List StoreOp) : List PyDict := ops.foldl (fun records op => op.write records) []

/-! ## The drivers -/

section
variable [PyRepr]

/-- `_InMemoryStoreDriver`. -/
structure InMemoryStoreDriver where
  data : List PyDict := []

namespace InMemoryStoreDriver

def load (s : InMemoryStoreDriver) : List PyDict := s.data

def save (s : InMemoryStoreDriver) (records : List PyDict) :
    InMemoryStoreDriver := ⟨s.data ++ records⟩

def upsert (s : InMemoryStoreDriver) (records : List PyDict) :
    InMemoryStoreDriver × Except Exc Summary :=
  (s.save records, .ok [("upserted", records.length)])

def replaceAll (_ : InMemoryStoreDriver) (records : List PyDict) :
    InMemoryStoreDriver × Except Exc Summary :=
  (⟨records⟩, .ok [("replaced", records.length)])

/-- `{str(record["id"]) for record in self._data if "id" in record}`. -/
def existingIds (s : InMemoryStoreDriver) : Except Exc (Finset String) :=
  return (← (s.data.filter (·.has "id")).mapM fun record => record.getItem "id" >>= pyStr).toFinset

def call (s : InMemoryStoreDriver) : StoreOp → InMemoryStoreDriver × Except Exc Summary
  | .upsert records => s.upsert records
  | .replaceAll records => s.replaceAll records

/-- The store after the calls. -/
def run (ops : List StoreOp) : InMemoryStoreDriver := ops.foldl (fun s op => (s.call op).1) {}

end InMemoryStoreDriver

structure Row where
  id : String
  payload : String
deriving DecidableEq

/-- The table `records`, in the order of its row ids. -/
structure RecordTable where
  rows : List Row
  keyed : (rows.map (·.id)).Nodup

/-- `INSERT OR REPLACE`. -/
def RecordTable.insertOrReplace (t : RecordTable) (row : Row) : RecordTable :=
  ⟨Keyed.put (·.id) t.rows row, Keyed.nodup_put t.keyed row⟩

/-- The `sqlite3.Connection` of `_SQLiteStoreDriver`: the table as its statements see it, and as
    the last commit left it. -/
structure Connection where
  table : RecordTable
  committed : RecordTable

/-- What the statements of one call raise, each by its number. -/
abbrev StatementFaults := ℕ → Option Exc

/-- `(str(record["id"]), str(record))`. -/
def recordRow (record : PyDict) : Except Exc Row := do
  let id ← pyStr (← record.getItem "id")
  return ⟨id, ← pyStr (.dict record)⟩

namespace Connection

/-- `_SQLiteStoreDriver.save`, whose first statement has the number `n`. -/
def save (c : Connection) (faults : StatementFaults) (n : ℕ) :
    List PyDict → Connection × Except Exc Unit
  | [] =>
    match faults n with
    | some e => (c, .error e)
    | none => (⟨c.table, c.table⟩, .ok ())
  | record :: records =>
    match recordRow record with
    | .error e => (c, .error e)
    | .ok row =>
      match faults n with
      | some e => (c, .error e)
      | none => save ⟨c.table.insertOrReplace row, c.committed⟩ faults (n + 1) records

def upsert (c : Connection) (faults : StatementFaults) (records : List PyDict) :
    Connection × Except Exc Summary :=
  let saved := c.save faults 0 records
  (saved.1, saved.2.map fun _ => [("upserted", records.length)])

/-- The rows are deleted first. -/
def replaceAll (c : Connection) (faults : StatementFaults) (records : List PyDict) :
    Connection × Except Exc Summary :=
  match faults 0 with
  | some e => (c, .error e)
  | none =>
    let saved := save ⟨⟨[], List.nodup_nil⟩, c.committed⟩ faults 1 records
    (saved.1, saved.2.map fun _ => [("replaced", records.length)])

def load (c : Connection) : List PyDict :=
  c.table.rows.map fun row => [(.str "id", .str row.id), (.str "payload", .str row.payload)]

def existingIds (c : Connection) : Finset String := (c.table.rows.map (·.id)).toFinset

def call (c : Connection) (faults : StatementFaults) : StoreOp → Connection × Except Exc Summary
  | .upsert records => c.upsert faults records
  | .replaceAll records => c.replaceAll faults records

/-- No table yet has a row. -/
def empty : Connection := ⟨⟨[], List.nodup_nil⟩, ⟨[], List.nodup_nil⟩⟩

/-- The connection after the calls, whose statements raise nothing. -/
def run (ops : List StoreOp) : Connection :=
  ops.foldl (fun c op => (c.call (fun _ => none) op).1) empty

/-! ## The loop of `save` -/

/-- The rows of the records before the first one that has none, or whose statement raises. -/
def inserted (faults : StatementFaults) (n : ℕ) : List PyDict → List Row
  | [] => []
  | record :: records =>
    match recordRow record with
    | .error _ => []
    | .ok row => if (faults n).isSome then [] else row :: inserted faults (n + 1) records

/-- All records have rows, and no statement raises. -/
def Completes (faults : StatementFaults) (n : ℕ) (records : List PyDict) : Prop :=
  (∀ record ∈ records, ∃ row, recordRow record = .ok row) ∧
    ∀ i ≤ records.length, faults (n + i) = none

theorem completes_cons {faults : StatementFaults} {n : ℕ} {record : PyDict}
    {records : List PyDict} :
    Completes faults n (record :: records) ↔
      (∃ row, recordRow record = .ok row) ∧ faults n = none ∧ Completes faults (n + 1) records := by
  rw [Completes, Completes, List.forall_mem_cons, List.length_cons]
  constructor
  · rintro ⟨⟨hrow, hrows⟩, hfaults⟩
    refine ⟨hrow, hfaults 0 (by omega), hrows, fun i hi => ?_⟩
    rw [Nat.add_assoc, Nat.add_comm 1 i]
    exact hfaults (i + 1) (by omega)
  · rintro ⟨hrow, hfault, hrows, hfaults⟩
    refine ⟨⟨hrow, hrows⟩, fun i hi => ?_⟩
    cases i with
    | zero => exact hfault
    | succ i =>
      rw [Nat.add_comm i 1, ← Nat.add_assoc]
      exact hfaults i (by omega)

/-- **The loop** inserts the rows before the first one that fails; nothing takes them back, and
    nothing is committed. -/
theorem save_spec (c : Connection) (faults : StatementFaults) (n : ℕ) (records : List PyDict) :
    (c.save faults n records).1.table.rows =
    (inserted faults n records).foldl (Keyed.put (·.id)) c.table.rows ∧
    ((c.save faults n records).2 = .ok () ↔ Completes faults n records) ∧
    (¬Completes faults n records → (c.save faults n records).1.committed = c.committed) := by
  induction records generalizing c n with
  | nil =>
    have hcompletes : Completes faults n [] ↔ faults n = none := by simp [Completes]
    rw [save, inserted, hcompletes]
    cases hfault : faults n <;> simp
  | cons record records ih =>
    rw [save, inserted, completes_cons]
    cases hrow : recordRow record with
    | error e => simp
    | ok row =>
      cases hfault : faults n with
      | some e => simp
      | none =>
        obtain ⟨hrows, hok, hcommitted⟩ := ih ⟨c.table.insertOrReplace row, c.committed⟩ (n + 1)
        simp only [Except.ok.injEq, exists_eq', true_and, Option.isSome_none,
          Bool.false_eq_true, if_false]
        exact ⟨hrows, hok, hcommitted⟩

end Connection

/-! ## The two after the same calls -/

/-- The records have ids, and the texts of both exist. -/
def StoreOp.HasRows (op : StoreOp) : Prop :=
  ∀ record ∈ op.records, ∃ row, recordRow record = .ok row

/-- A record as the table gives it back. -/
def Row.textForm (row : Row) : PyDict :=
  [(.str "id", .str row.id), (.str "payload", .str row.payload)]

/-- The table holds the latest row of each id in the list. -/
def Reflects (mem : InMemoryStoreDriver) (c : Connection) : Prop :=
  ∃ rows, mem.data.mapM recordRow = .ok rows ∧ c.table.rows = Keyed.latest (·.id) rows

variable {mem : InMemoryStoreDriver} {c : Connection} {records : List PyDict} {rows : List Row}

/-- A record that has a row has the id of the row. -/
theorem recordRow_id {record : PyDict} {row : Row} (hrow : recordRow record = .ok row) :
    record.has "id" = true ∧ (record.getItem "id").bind pyStr = .ok row.id := by
  rw [recordRow, PyDict.getItem] at hrow
  rw [PyDict.has, PyDict.getItem]
  cases hitem : record.lookup (.str "id") with
  | none =>
    rw [hitem] at hrow
    cases hrow
  | some v =>
    rw [hitem] at hrow
    replace hrow :
        (pyStr v).bind (fun id => (pyStr (.dict record)).bind fun payload => .ok ⟨id, payload⟩) =
          .ok row := hrow
    refine ⟨rfl, ?_⟩
    show pyStr v = _
    cases hid : pyStr v with
    | error e =>
      rw [hid] at hrow
      cases hrow
    | ok id =>
      rw [hid] at hrow
      cases htext : pyStr (.dict record) with
      | error e =>
        rw [htext] at hrow
        cases hrow
      | ok payload =>
        rw [htext] at hrow
        cases hrow
        rfl

/-- The ids of records that all have rows are those of the rows. -/
theorem ids_of_rows (h : records.mapM recordRow = .ok rows) :
    (records.filter (·.has "id")).mapM (fun record => record.getItem "id" >>= pyStr) =
    .ok (rows.map (·.id)) := by
  induction records generalizing rows with
  | nil =>
    cases h
    rfl
  | cons record records ih =>
    obtain ⟨row, rows, hrow, hrows, rfl⟩ := mapM_cons_eq_ok h
    obtain ⟨hid, hitem⟩ := recordRow_id hrow
    replace hitem : (record.getItem "id" >>= pyStr) = .ok row.id := hitem
    rw [List.filter_cons_of_pos (by exact hid), List.mapM_cons, hitem, ih hrows]
    rfl

/-- Where no statement raises, the rows of all records are inserted. -/
theorem inserted_of_rows {n : ℕ} (h : records.mapM recordRow = .ok rows) :
    Connection.inserted (fun _ => none) n records = rows := by
  induction records generalizing rows n with
  | nil =>
    cases h
    rfl
  | cons record records ih =>
    obtain ⟨row, rows, hrow, hrows, rfl⟩ := mapM_cons_eq_ok h
    rw [Connection.inserted, hrow, ← ih (n := n + 1) hrows]
    rfl

/-- Saving more records. -/
theorem Reflects.save {n : ℕ} (h : Reflects mem c)
    (hrows : ∀ record ∈ records, ∃ row, recordRow record = .ok row) :
    Reflects (mem.save records) (c.save (fun _ => none) n records).1 ∧
      (c.save (fun _ => none) n records).2 = .ok () := by
  obtain ⟨old, hold, htable⟩ := h
  obtain ⟨new, hnew⟩ := mapM_eq_ok.2 hrows
  obtain ⟨hsaved, hok, -⟩ := c.save_spec (fun _ => none) n records
  refine ⟨⟨old ++ new, ?_, ?_⟩, hok.2 ⟨hrows, fun _ _ => rfl⟩⟩
  · rw [InMemoryStoreDriver.save, List.mapM_append, hold, hnew]
    rfl
  · have hlatest : ∀ l : List Row, Keyed.latest (·.id) l = l.foldl (Keyed.put (·.id)) [] := by
      intro l
      simp [Keyed.foldl_put]
    rw [hsaved, inserted_of_rows hnew, htable, hlatest, hlatest, List.foldl_append]

theorem reflects_empty {committed : RecordTable} :
    Reflects {} ⟨⟨[], List.nodup_nil⟩, committed⟩ := ⟨[], rfl, rfl⟩

/-- **The same call keeps the two together**, and answers the same. -/
theorem Reflects.call (h : Reflects mem c) {op : StoreOp} (hop : op.HasRows) :
    Reflects (mem.call op).1 (c.call (fun _ => none) op).1 ∧ (mem.call op).2 = .ok op.summary ∧
      (c.call (fun _ => none) op).2 = .ok op.summary := by
  cases op with
  | upsert records =>
    have hrows : ∀ record ∈ records, ∃ row, recordRow record = .ok row := hop
    obtain ⟨hsave, hok⟩ := h.save (n := 0) hrows
    refine ⟨hsave, rfl, ?_⟩
    show (c.save _ 0 records).2.map _ = _
    rw [hok]
    rfl
  | replaceAll records =>
    have hrows : ∀ record ∈ records, ∃ row, recordRow record = .ok row := hop
    have hempty : Reflects {} ⟨⟨[], List.nodup_nil⟩, c.committed⟩ := reflects_empty
    obtain ⟨hsave, hok⟩ := hempty.save (n := 1) hrows
    refine ⟨hsave, rfl, ?_⟩
    show (Connection.save _ _ 1 records).2.map _ = _
    rw [hok]
    rfl

/-- The ids of the two are the same. -/
theorem Reflects.existingIds (h : Reflects mem c) : mem.existingIds = .ok c.existingIds := by
  obtain ⟨rows, hrows, htable⟩ := h
  rw [InMemoryStoreDriver.existingIds, ids_of_rows hrows, Connection.existingIds, htable]
  have hids : (rows.map (·.id)).toFinset = ((Keyed.latest (·.id) rows).map (·.id)).toFinset := by
    ext id
    rw [List.mem_toFinset, List.mem_toFinset, Keyed.mem_map_latest]
  rw [← hids]
  rfl

/-- The two keep together over all calls. -/
theorem reflects_run {ops : List StoreOp} (hops : ∀ op ∈ ops, op.HasRows) :
    Reflects (InMemoryStoreDriver.run ops) (Connection.run ops) ∧
      (InMemoryStoreDriver.run ops).data = written ops := by
  suffices hfold : ∀ (mem : InMemoryStoreDriver) (c : Connection), Reflects mem c →
      Reflects (ops.foldl (fun s op => (s.call op).1) mem)
        (ops.foldl (fun c op => (c.call (fun _ => none) op).1) c) ∧
        (ops.foldl (fun s op => (s.call op).1) mem).data =
          ops.foldl (fun records op => op.write records) mem.data from hfold
            {} .empty reflects_empty
  induction ops with
  | nil => exact fun mem c h => ⟨h, rfl⟩
  | cons op ops ih =>
    intro mem c h
    have hdata : (mem.call op).1.data = op.write mem.data := by cases op <;> rfl
    have hstep := ih (fun op' hop' => hops op' (List.mem_cons_of_mem _ hop')) (mem.call op).1
      (c.call (fun _ => none) op).1 (h.call (hops op List.mem_cons_self)).1
    simp only [List.foldl_cons]
    rw [hdata] at hstep
    exact hstep

/-- **The drivers agree up to what each keeps of a record**: after the same calls, where the
    records have ids and texts and no statement raises, they hold the same ids; the list holds
    what has been written since the last `replace_all`; the table holds one record for each id,
    the last one written, as a text. -/
theorem stores_agree {ops : List StoreOp} (hops : ∀ op ∈ ops, op.HasRows) :
    (InMemoryStoreDriver.run ops).existingIds = .ok (Connection.run ops).existingIds ∧
      (InMemoryStoreDriver.run ops).load = written ops ∧
      ((Connection.run ops).load.map fun record => record.get "id").Nodup ∧
      ∃ rows, (written ops).mapM recordRow = .ok rows ∧
        (Connection.run ops).load.Perm ((Keyed.latest (·.id) rows).map Row.textForm) := by
  obtain ⟨hreflects, hdata⟩ := reflects_run hops
  refine ⟨hreflects.existingIds, hdata, ?_, ?_⟩
  · have hids : ((Connection.run ops).load.map fun record => record.get "id") =
        ((Connection.run ops).table.rows.map (·.id)).map PyVal.str := by
      simp [Connection.load, PyDict.get, Function.comp_def]
    rw [hids]
    exact (Connection.run ops).table.keyed.map fun _ _ h => by injection h
  · obtain ⟨rows, hrows, htable⟩ := hreflects
    refine ⟨rows, hdata ▸ hrows, ?_⟩
    rw [Connection.load, htable]
    exact List.Perm.refl _

end

/-! ### Where they differ -/

mutual

/-- `repr` of plain values: no floats, and texts without quotes, backslashes and characters
    that are not printable. -/
def PyVal.plainRepr : PyVal → String
  | .none => "None"
  | .bool b => if b then "True" else "False"
  | .int n => toString n
  | .nan => "nan"
  | .infinity neg => if neg then "-inf" else "inf"
  | .str s => "'" ++ s ++ "'"
  | .list l => "[" ++ ", ".intercalate (PyVal.plainReprs l) ++ "]"
  | .dict m => "\x7b" ++ ", ".intercalate (PyVal.plainItems m) ++ "\x7d"
  | .float _ | .other => ""

def PyVal.plainReprs : List PyVal → List String
  | [] => []
  | v :: l => v.plainRepr :: PyVal.plainReprs l

def PyVal.plainItems : List (PyKey × PyVal) → List String
  | [] => []
  | (.str k, v) :: l => ("'" ++ k ++ "': " ++ v.plainRepr) :: PyVal.plainItems l
  | (_, _) :: l => PyVal.plainItems l

end

section

local instance plainText : PyRepr := ⟨fun v => .ok v.plainRepr⟩

/-- A record that is written twice. -/
def writtenTwice : List StoreOp :=
  [.upsert [[(.str "id", .str "a")]], .upsert [[(.str "id", .str "a")]]]

/-- The list holds the record twice, and what the table gives back is another record. -/
theorem stores_differ : (∀ op ∈ writtenTwice, op.HasIds) ∧
    (InMemoryStoreDriver.run writtenTwice).load =
    [[(.str "id", .str "a")], [(.str "id", .str "a")]] ∧
    (Connection.run writtenTwice).load =
    [[(.str "id", .str "a"), (.str "payload", .str "\x7b'id': 'a'\x7d")]] ∧
    ¬(InMemoryStoreDriver.run writtenTwice).load.Perm (Connection.run writtenTwice).load := by
  refine ⟨?_, rfl, rfl, ?_⟩
  · intro op hop record hrecord
    simp only [writtenTwice, List.mem_cons, List.not_mem_nil, or_false, or_self] at hop
    subst hop
    rw [List.mem_singleton.1 hrecord]
    rfl
  · intro h
    have hlength : 2 = 1 := h.length_eq
    omega

/-- The drivers after one record has replaced another one with an id of the same text. -/
theorem stores_agree_replaced :
    (InMemoryStoreDriver.run
      [.upsert [[(.str "id", .int 1)], [(.str "id", .str "1"), (.str "n", .int 2)]]]).existingIds =
      .ok {"1"} ∧
    (Connection.run
      [.upsert [[(.str "id", .int 1)], [(.str "id", .str "1"), (.str "n", .int 2)]]]).load =
      [[(.str "id", .str "1"), (.str "payload", .str "\x7b'id': '1', 'n': 2\x7d")]] := by
  obtain ⟨hids, -, -, rows, hrows, hload⟩ :=
    @stores_agree _ [.upsert [[(.str "id", .int 1)], [(.str "id", .str "1"), (.str "n", .int 2)]]] (by
      intro op hop record hrecord
      rw [List.mem_singleton.1 hop] at hrecord
      simp only [StoreOp.records, List.mem_cons, List.not_mem_nil, or_false] at hrecord
      rcases hrecord with rfl | rfl <;> exact ⟨_, rfl⟩)
  refine ⟨hids.trans rfl, ?_⟩
  cases hrows
  exact List.perm_singleton.1 hload

end

end DatasourceKit

/-
  Runs of `run_ingest` over one SQLite file, with `diff.by_id` over the field `id` (`runtime.py`,
  `providers.py`).

  The store of a run is a driver over the path of the file, which the consumer has registered: the
  builtin `store.sqlite` opens a new database in memory each time.  Every run opens the file, and
  may be killed at any call; what it has not committed is lost.

  * `RecordTable.ids`: the identities in the table; `Extends`: a diff tells exactly what a run
    has added to them;
  * `StoreObjects`: what the objects of the consumer are to the store; `RerunStep`: the calls of
    a run, on its connection;
  * `always_fileRun`: a run loses no identity, and what it returns tells what it has added;
  * `Ran`: any runs, one after the other; `additions_once`: over all of them, no identity is
    reported as added twice.
-/
import DatasourceKit.Ingest.Accounting
import DatasourceKit.Store.Failure

namespace DatasourceKit

open Interleave Interleave.Prog

/-! ## The table -/

def RecordTable.ids (t : RecordTable) : Finset String := (t.rows.map (·.id)).toFinset

theorem RecordTable.mem_ids {t : RecordTable} {x : String} :
    x ∈ t.ids ↔ x ∈ t.rows.map (·.id) := List.mem_toFinset

/-- A connection to the file. -/
def Connection.opened (t : RecordTable) : Connection := ⟨t, t⟩

/-- What a diff tells of a run that has found the table `t₀` and left the table `t`. -/
structure Extends (t₀ t : RecordTable) (d : DiffResult) : Prop where
  known : ∀ x, x ∈ d.removed ∨ x ∈ d.unchanged ↔ x ∈ t₀.ids
  new : ∀ x ∈ d.added, x ∉ t₀.ids
  kept : ∀ x, x ∈ t.ids ↔ x ∈ t₀.ids ∨ x ∈ d.added

section
variable [PyRepr]

omit [PyRepr] in
theorem ids_foldl_put (rows : List Row) (l : List Row) (x : String) :
    x ∈ (rows.foldl (Keyed.put (·.id)) l).map (·.id) ↔ x ∈ l.map (·.id) ∨ x ∈ rows.map (·.id) := by
  rw [Keyed.foldl_put, List.map_append, List.mem_append, Keyed.mem_map_latest]
  simp only [List.mem_map, List.mem_filter, decide_eq_true_eq]
  constructor
  · rintro (⟨y, ⟨hy, -⟩, rfl⟩ | h)
    · exact .inl ⟨y, hy, rfl⟩
    · exact .inr h
  · rintro (⟨y, hy, rfl⟩ | h)
    · by_cases hrows : ∃ z ∈ rows, z.id = y.id
      · exact .inr hrows
      · exact .inl ⟨y, ⟨hy, hrows⟩, rfl⟩
    · exact .inr h

/-! ## One call of the store -/

/-- A call that completes inserts the row of every record. -/
theorem inserted_of_completes {faults : StatementFaults} {n : ℕ} {records : List PyDict}
    (h : Connection.Completes faults n records) (row : Row) :
    row ∈ Connection.inserted faults n records ↔
    ∃ record ∈ records, recordRow record = .ok row := by
  induction records generalizing n with
  | nil => simp [Connection.inserted]
  | cons record records ih =>
    obtain ⟨⟨row', hrow'⟩, hfault, hrest⟩ := Connection.completes_cons.1 h
    have hinserted : Connection.inserted faults n (record :: records) =
        row' :: Connection.inserted faults (n + 1) records := by
      rw [Connection.inserted, hrow', hfault]
      rfl
    rw [hinserted, List.mem_cons, ih hrest]
    simp only [List.mem_cons, exists_eq_or_imp, hrow', Except.ok.injEq]
    exact or_congr eq_comm Iff.rfl

/-- Only what is committed is in the file after a call that completes. -/
theorem save_committed {c : Connection} {faults : StatementFaults} {n : ℕ} {records : List PyDict}
    (h : (c.save faults n records).2 = .ok ()) :
    (c.save faults n records).1.committed = (c.save faults n records).1.table := by
  induction records generalizing c n with
  | nil =>
    rw [Connection.save] at h ⊢
    cases hfault : faults n with
    | some e =>
      rw [hfault] at h
      cases h
    | none => rfl
  | cons record records ih =>
    rw [Connection.save] at h ⊢
    cases hrow : recordRow record with
    | error e =>
      rw [hrow] at h
      cases h
    | ok row =>
      cases hfault : faults n with
      | some e =>
        rw [hrow, hfault] at h
        cases h
      | none =>
        rw [hrow, hfault] at h
        exact ih h

/-- A call of `save` on a connection that is just opened: it commits the rows of all records, or
    leaves the file as it was. -/
theorem save_opened {t : RecordTable} {faults : StatementFaults} {records : List PyDict} :
    let saved := (Connection.opened t).save faults 0 records
    (saved.2 = .ok () → (∀ record ∈ records, ∃ row, recordRow record = .ok row) ∧
      ∀ x, x ∈ saved.1.committed.ids ↔ x ∈ t.ids ∨
      ∃ record ∈ records, ∃ row, recordRow record = .ok row ∧ row.id = x) ∧
    (saved.2 ≠ .ok () → saved.1.committed = t) := by
  intro saved
  obtain ⟨hrows, hok, hlost⟩ := (Connection.opened t).save_spec faults 0 records
  refine ⟨fun h => ⟨(hok.1 h).1, fun x => ?_⟩, fun h => hlost (mt hok.2 h)⟩
  rw [RecordTable.mem_ids, save_committed h, hrows, ids_foldl_put, RecordTable.mem_ids]
  refine or_congr Iff.rfl ?_
  simp only [List.mem_map, inserted_of_completes (hok.1 h)]
  constructor
  · rintro ⟨row, ⟨record, hrecord, hrow⟩, rfl⟩
    exact ⟨record, hrecord, row, hrow, rfl⟩
  · rintro ⟨record, hrecord, row, hrow, rfl⟩
    exact ⟨row, ⟨record, hrecord, hrow⟩, rfl⟩

/-! ## The diff -/

variable {config : PyDict} {t : RecordTable} {fetched : List PyDict} {d : DiffResult}

theorem recordIdentity_id (h : identityField config = .ok "id") (record : PyDict) :
    recordIdentity record config = (record.getItem "id").bind pyStr := by
  rw [recordIdentity, h]
  rfl

/-- The identities of what the table gives back are its own. -/
theorem identifies_opened (h : identityField config = .ok "id") (x : String) :
    Identifies config ((Connection.opened t).load.filter (·.has "id")) x ↔ x ∈ t.ids := by
  rw [RecordTable.mem_ids, Identifies]
  simp only [Connection.load, Connection.opened, List.mem_filter, List.mem_map]
  constructor
  · rintro ⟨record, ⟨⟨row, hrow, rfl⟩, -⟩, hx⟩
    rw [recordIdentity_id h] at hx
    exact ⟨row, hrow, Except.ok.inj hx⟩
  · rintro ⟨row, hrow, rfl⟩
    exact ⟨_, ⟨⟨row, hrow, rfl⟩, rfl⟩, recordIdentity_id h _⟩

/-- Records that all have rows are identified as their rows are. -/
theorem identifies_rows (h : identityField config = .ok "id")
    (hrows : ∀ record ∈ fetched, ∃ row, recordRow record = .ok row) (x : String) :
    Identifies config (fetched.filter (·.has "id")) x ↔
    ∃ record ∈ fetched, ∃ row, recordRow record = .ok row ∧ row.id = x := by
  rw [Identifies]
  constructor
  · rintro ⟨record, hrecord, hx⟩
    obtain ⟨hmem, -⟩ := List.mem_filter.1 hrecord
    obtain ⟨row, hrow⟩ := hrows record hmem
    rw [recordIdentity_id h, (recordRow_id hrow).2] at hx
    exact ⟨record, hmem, row, hrow, Except.ok.inj hx⟩
  · rintro ⟨record, hmem, row, hrow, rfl⟩
    exact ⟨record, List.mem_filter.2 ⟨hmem, (recordRow_id hrow).1⟩,
      (recordIdentity_id h record).trans (recordRow_id hrow).2⟩

/-- **The diff of a run tells what its call of the store adds.** -/
theorem extends_of_diff (h : identityField config = .ok "id")
    (hd : diffById fetched (Connection.opened t).load config = .ok d) {t' : RecordTable}
    (hrows : ∀ record ∈ fetched, ∃ row, recordRow record = .ok row)
    (hids : ∀ x, x ∈ t'.ids ↔ x ∈ t.ids ∨ ∃ record ∈ fetched, ∃ row,
      recordRow record = .ok row ∧ row.id = x) :
    Extends t t' d := by
  rw [diffById] at hd
  cases hf : identities config fetched with
  | error e =>
    rw [hf] at hd
    cases hd
  | ok fetchedIds =>
    cases hs : identities config (Connection.opened t).load with
    | error e =>
      rw [hf, hs] at hd
      cases hd
    | ok storedIds =>
      rw [hf, hs] at hd
      obtain rfl := Except.ok.inj hd
      have hfetched : ∀ x, x ∈ fetchedIds ↔ _ := fun x =>
        (identities_ok hf x).trans (identifies_rows h hrows x)
      have hstored : ∀ x, x ∈ storedIds ↔ x ∈ t.ids := fun x =>
        (identities_ok hs x).trans (identifies_opened h x)
      refine ⟨fun x => ?_, fun x hx => ?_, fun x => ?_⟩
      · simp only [Finset.mem_sort, Finset.mem_sdiff, Finset.mem_inter, ← hstored]
        tauto
      · rw [Finset.mem_sort, Finset.mem_sdiff, hstored] at hx
        exact hx.2
      · rw [hids, Finset.mem_sort, Finset.mem_sdiff, ← hfetched, ← hstored]
        tauto

end

/-! ## One run -/

/-- What the objects of the consumer are to the store: a record or a policy as a dict, the
    records that `load` has returned, and what `diff.by_id` has; is it a factory of drivers over
    the file, is it such a driver, is it `diff.by_id`? -/
class StoreObjects (Obj : Type) where
  dict : Obj → PyDict
  rows : Obj → List PyDict
  diff : Obj → Option DiffResult
  opensFile : Obj → Bool
  isDriver : Obj → Bool
  diffsById : Obj → Bool

section
variable [PyRepr] {ε Obj : Type} [StoreObjects Obj]

/-- The call of a driver over the file that writes. -/
def IngestOp.storeOp : IngestOp ε Obj → Option StoreOp
  | replaceAll store rs =>
    if StoreObjects.isDriver store then some (.replaceAll (rs.map StoreObjects.dict)) else none
  | upsert store rs | save store rs =>
    if StoreObjects.isDriver store then some (.upsert (rs.map StoreObjects.dict)) else none
  | _ => none

/-- What the drivers over the file and `diff.by_id` answer. -/
def IngestOp.Tells (c : Connection) : (o : IngestOp ε Obj) → Except (RunExc ε) o.Val → Prop
  | storeFactory fn, .ok store => StoreObjects.opensFile fn = true →
    StoreObjects.isDriver store = true
  | load store, .ok stored => StoreObjects.isDriver store = true → StoreObjects.rows stored = c.load
  | differ fn fetched stored config, .ok diff => StoreObjects.diffsById fn = true →
      ∃ d, StoreObjects.diff diff = some d ∧
        diffById (fetched.map StoreObjects.dict) (StoreObjects.rows stored)
          (StoreObjects.dict config) = .ok d
  | hasReplaced diff, .ok b => ∀ d, StoreObjects.diff diff = some d → b = false
  | _, _ => True

/-- A call of a run whose store is the file; its other calls leave the connection alone. -/
def RerunStep (o : IngestOp ε Obj) (c : Connection) (r : Except (RunExc ε) o.Val)
    (c' : Connection) : Prop :=
  match o.storeOp with
  | some op => ∃ faults, c' = (c.call faults op).1 ∧
    ((∃ v, r = .ok v) ↔ ∃ summary, (c.call faults op).2 = .ok summary)
  | none => c' = c ∧ o.Tells c r

omit [PyRepr] [StoreObjects Obj] in
/-- Whatever is answered, the program performs only such operations. -/
theorem uses_of_always {α : Type} {p : IngestProg ε Obj α} {A : IngestOp ε Obj → Prop}
    {G : IngestOp ε Obj → IngestHist ε Obj → Prop} {Q : α → IngestHist ε Obj → Prop}
    {E : RunExc ε → IngestHist ε Obj → Prop} {t : IngestHist ε Obj} (hG : ∀ o t, G o t → A o)
    (h : p.Always (Records fun _ _ _ => True) G Q E t) : p.Uses A := by
  induction p generalizing t with
  | ret a => trivial
  | raise e => trivial
  | call o k ih => exact ⟨hG o t h.1, fun r => ih r (h.2 r _ ⟨trivial, rfl⟩)⟩

variable {objects : Objects ε Obj} {rounds : ℕ} {profile : SourceProfile Obj}
  {slots : Slots Obj} {t : RecordTable}

/-- A call that does not write. -/
theorem always_calm {o : IngestOp ε Obj} {c : Connection} {G : IngestOp ε Obj → Connection → Prop}
    {Q : o.Val → Connection → Prop} {E : RunExc ε → Connection → Prop}
    (ho : o.storeOp = none) (hg : G o c) (hok : ∀ v, o.Tells c (.ok v) → Q v c)
    (herr : ∀ e, E e c) : (perform o).Always RerunStep G Q E c := by
  have hstep : ∀ {r c'}, RerunStep o c r c' → c' = c ∧ o.Tells c r := by
    intro r c' h
    rwa [RerunStep, ho] at h
  refine always_perform.2 ⟨hg, fun v c' h => ?_, fun e c' h => ?_⟩
  · obtain ⟨rfl, htells⟩ := hstep h
    exact hok v htells
  · obtain ⟨rfl, -⟩ := hstep h
    exact herr e

/-- The loop leaves the connection alone. -/
theorem always_loop {throttle : FloatBucket} {p : RetryPolicy ε PyFloat} {windows : List Obj}
    {v : IngestVars Obj} {c : Connection} :
    (Scope.close (do
      windows.forM (processWindow objects rounds profile slots throttle p)
      get) v).Always RerunStep (fun _ c' => c' = c) (fun _ c' =>
      c' = c) (fun _ c' => c' = c) c := by
  have hloop : (Scope.close (do
      windows.forM (processWindow objects rounds profile slots throttle p)
      get) v).Always (Records fun _ _ _ => True) InLoop (fun _ _ => True) (fun _ _ => True) [] := by
    refine Scope.Does.close
      (Scope.does_bind.2 (Scope.Does.mono (fun _ _ h => h) (fun _ _ _ _ => trivial)
      (fun _ _ _ _ => trivial)
      (Scope.does_forM (I := fun _ _ _ => True) (E := fun _ _ _ => True) ?_ trivial)))
    intro window rest v t _
    exact (does_processWindow throttled_any trivial).mono (fun _ _ h => h) (fun _ _ _ _ => trivial)
      fun _ _ _ _ => trivial
  refine Always.of_uses (uses_of_always (A := fun o => o.handed = none) (fun o t h => h.1) hloop) ?_
    rfl
  rintro o c' ho rfl
  refine ⟨rfl, fun r c'' h => ?_⟩
  cases o <;> first | exact h.1 | cases ho

/-- What a run may have left: it has lost no identity. -/
def Keeps (t : RecordTable) (c : Connection) : Prop := t.ids ⊆ c.committed.ids

omit [PyRepr] in
theorem keeps_opened : Keeps t (.opened t) := Finset.Subset.refl _

/-- The call of the store: the records are committed, or the file is as it was. -/
theorem always_upserted {o : IngestOp ε Obj} {fetched : List Obj} {Q : o.Val → Connection → Prop}
    {E : RunExc ε → Connection → Prop}
    (ho : o.storeOp = some (.upsert (fetched.map StoreObjects.dict)))
    (hok : ∀ v c, (∀ record ∈ fetched.map StoreObjects.dict, ∃ row, recordRow record = .ok row) →
      (∀ x, x ∈ c.committed.ids ↔ x ∈ t.ids ∨
        ∃ record ∈ fetched.map StoreObjects.dict, ∃ row,
        recordRow record = .ok row ∧ row.id = x) → Q v c)
    (herr : ∀ e c, Keeps t c → E e c) :
    (perform o).Always RerunStep (fun _ => Keeps t) Q E (.opened t) := by
  have hstep : ∀ {r c'}, RerunStep o (.opened t) r c' → ∃ faults,
      c' = ((Connection.opened t).save faults 0 (fetched.map StoreObjects.dict)).1 ∧
      ((∃ v, r = .ok v) ↔ ((Connection.opened t).save faults 0 (fetched.map StoreObjects.dict)).2 =
          .ok ()) := by
    intro r c' h
    rw [RerunStep, ho] at h
    obtain ⟨faults, rfl, hr⟩ := h
    refine ⟨faults, rfl, hr.trans ?_⟩
    show (∃ summary, Except.map _ _ = _) ↔ _
    rcases ((Connection.opened t).save faults 0 (fetched.map StoreObjects.dict)).2 with e | ⟨⟩ <;>
      simp [Except.map]
  refine always_perform.2 ⟨keeps_opened, fun v c' h => ?_, fun e c' h => ?_⟩
  · obtain ⟨faults, rfl, hr⟩ := hstep h
    obtain ⟨hrows, hids⟩ := (save_opened (t := t)).1 (hr.1 ⟨v, rfl⟩)
    exact hok v _ hrows hids
  · obtain ⟨faults, rfl, hr⟩ := hstep h
    refine herr e _ ?_
    rw [Keeps, (save_opened (t := t)).2 fun hsaved => ?_]
    obtain ⟨v, hv⟩ := hr.2 hsaved
    cases hv

/-- The `try` around the store: where the diff is one by id, the records are merged. -/
theorem always_merged {store diff : Obj} {fetched : List Obj} {d : DiffResult}
    (hstore : StoreObjects.isDriver store = true) (hd : StoreObjects.diff diff = some d)
    (hmerged : ∀ t' : RecordTable,
      (∀ record ∈ fetched.map StoreObjects.dict, ∃ row, recordRow record = .ok row) →
      (∀ x, x ∈ t'.ids ↔ x ∈ t.ids ∨
        ∃ record ∈ fetched.map StoreObjects.dict, ∃ row, recordRow record = .ok row ∧
        row.id = x) → Extends t t' d) :
    (persist store fetched diff : IngestProg ε Obj Unit).Always RerunStep (fun _ => Keeps t)
      (fun _ c => Extends t c.committed d) (fun _ => Keeps t) (.opened t) := by
  refine always_handle.2 (Always.mono (fun _ _ h => h) (fun _ _ h => h) (fun e c hc => ?_)
    (E := fun _ => Keeps t) ?_)
  · split_ifs
    · exact always_bind.2 (always_calm rfl hc (fun text _ => hc) fun _ => hc)
    · exact hc
  refine always_bind.2 (always_calm rfl keeps_opened (fun replaced hreplaced => ?_)
    fun _ => keeps_opened)
  obtain rfl : replaced = false := hreplaced d hd
  refine always_bind.2 (always_calm rfl keeps_opened (fun upsert _ => ?_) fun _ => keeps_opened)
  cases upsert with
  | true => exact always_upserted (if_pos hstore) (fun _ c hrows hids =>
    hmerged _ hrows hids) fun _ _ hc => hc
  | false => exact always_upserted (if_pos hstore) (fun _ c hrows hids =>
    hmerged _ hrows hids) fun _ _ hc => hc

/-- The assessment leaves the file alone. -/
theorem always_assessed {windows fetched : List Obj} {default : String}
    {c : Connection} (hc : Keeps t c) :
    (assessment objects profile slots windows fetched default).Always RerunStep (fun _ => Keeps t)
      (fun _ c' => c' = c) (fun _ => Keeps t) c := by
  unfold assessment
  cases windows.getLast? with
  | none => exact rfl
  | some window =>
    refine always_bind.2 (always_calm rfl hc (fun a _ => ?_) fun _ => hc)
    refine always_bind.2 (always_calm rfl hc (fun status _ => ?_) fun _ => hc)
    exact always_bind.2 (always_calm rfl hc (fun count _ => rfl) fun _ => hc)

/-- The store of a run is opened over the file, and its diff is `diff.by_id` over the field `id`. -/
structure OverFile (objects : Objects ε Obj) (profile : SourceProfile Obj)
    (slots : Slots Obj) : Prop where
  store : StoreObjects.opensFile slots.storeFactory = true
  diff : StoreObjects.diffsById slots.differ = true
  field : identityField (StoreObjects.dict (policy objects profile "diff")) = .ok "id"

/-- **A run loses no identity**, wherever it is stopped, and what it returns tells what it has
    added. -/
theorem always_fileRun (hover : OverFile objects profile slots) :
    (ingest objects rounds profile slots).Always RerunStep (fun _ => Keeps t)
      (fun report c => Keeps t c ∧ ∃ d, StoreObjects.diff report.diff = some d ∧
        Extends t c.committed d)
      (fun _ => Keeps t) (.opened t) := by
  refine always_bind.2 (always_calm rfl keeps_opened (fun store hfactory => ?_)
    fun _ => keeps_opened)
  have hstore : StoreObjects.isDriver store = true := hfactory hover.store
  refine always_bind.2 (always_calm rfl keeps_opened (fun stored hload => ?_) fun _ => keeps_opened)
  have hstored : StoreObjects.rows stored = (Connection.opened t).load := hload hstore
  refine always_bind.2 (always_calm rfl keeps_opened (fun windows _ => ?_) fun _ => keeps_opened)
  cases (bucketOf objects (policy objects profile "rate_limit") :
      Except (RunExc ε) FloatBucket) with
  | error e => exact keeps_opened
  | ok throttle =>
  refine always_bind.2 (always_ret.2
    (always_bind.2 (always_calm rfl keeps_opened (fun now _ => ?_) fun _ => keeps_opened)))
  cases (retryPolicy objects (policy objects profile "retry") :
      Except (RunExc ε) (RetryPolicy ε PyFloat)) with
  | error e => exact keeps_opened
  | ok retry =>
  have hkept : ∀ c : Connection, c = .opened t → Keeps t c := by
    rintro c rfl
    exact keeps_opened
  refine always_bind.2 (always_ret.2
    (always_bind.2 (always_loop.mono (fun _ => hkept) ?_ fun _ => hkept)))
  rintro v c rfl
  -- the diff, of what is then written
  refine always_bind.2 (always_calm rfl keeps_opened (fun diff hdiff => ?_) fun _ => keeps_opened)
  obtain ⟨d, hd, hby⟩ := hdiff hover.diff
  rw [hstored] at hby
  refine always_bind.2 ((always_merged hstore hd fun t' => extends_of_diff hover.field hby).mono
    (fun _ _ h => h) ?_ fun _ _ h => h)
  rintro - c hc
  have hkeeps : Keeps t c := fun x hx => (hc.kept x).2 (.inl hx)
  refine always_bind.2 ((always_assessed hkeeps).mono (fun _ _ h => h) ?_ fun _ _ h => h)
  rintro ⟨status, count⟩ c' rfl
  exact always_bind.2 (always_calm rfl hkeeps (fun digest _ => ⟨hkeeps, d, hd, hc⟩) fun _ => hkeeps)

/-! ## Run after run -/

/-- A run over the file: the slots of its profile are filled as `OverFile` says. -/
def FileRun [StrRepr] (p : IngestProg ε Obj (IngestReport Obj)) : Prop :=
  ∃ (objects : Objects ε Obj) (conv : Convert ε Obj) (builtin : String → Obj) (rounds : ℕ)
    (source : Source Obj) (registry : Option (ProviderRegistry Obj)),
      p = runIngest objects conv builtin rounds source registry ∧
    ∀ profile r slots, source.load conv = .ok profile →
      (registryOr builtin registry : Except (RunExc ε) (ProviderRegistry Obj)) = .ok r →
      (resolveSlots profile r : Except (RunExc ε) (Slots Obj)) = .ok slots →
        OverFile objects profile slots

/-- Runs over one file have left the table and returned the reports, the last one first; a run
    may be stopped anywhere. -/
inductive Ran [StrRepr] : RecordTable → List (IngestReport Obj) → Prop
  | start (t : RecordTable) : Ran t []
  | stopped {t reports p c} {q : IngestProg ε Obj (IngestReport Obj)} : Ran t reports → FileRun p →
      Steps RerunStep p (.opened t) c q → Ran c.committed reports
  | returned {t reports} {p : IngestProg ε Obj (IngestReport Obj)} {c report} : Ran t reports →
    FileRun p → Steps RerunStep p (.opened t) c (.ret report) → Ran c.committed (report :: reports)

variable [StrRepr]

theorem FileRun.always {p : IngestProg ε Obj (IngestReport Obj)} (h : FileRun p) (t : RecordTable) :
    p.Always RerunStep (fun _ => Keeps t)
      (fun report c => Keeps t c ∧ ∃ d, StoreObjects.diff report.diff = some d ∧
        Extends t c.committed d)
      (fun _ => Keeps t) (.opened t) := by
  obtain ⟨objects, conv, builtin, rounds, source, registry, rfl, hover⟩ := h
  obtain ⟨e, he⟩ | ⟨profile, r, slots, hload, hr, hslots, hrun⟩ :=
    @runIngest_cases ε Obj _ objects conv builtin rounds source registry
  · rw [he]
    exact keeps_opened
  · rw [hrun]
    exact always_fileRun (hover profile r slots hload hr hslots)

/-- The identities that a diff names. -/
def DiffResult.Names (d : DiffResult) (x : String) : Prop :=
  x ∈ d.added ∨ x ∈ d.removed ∨ x ∈ d.unchanged

end

/-! ### Two runs -/

section

/-- The objects of a run that fetches one record. -/
inductive DemoObj where
  | other
  | factory
  | driver
  | byId
  | dict (d : PyDict)
  | rows (l : List PyDict)
  | diff (d : DiffResult)

instance : StoreObjects DemoObj where
  dict
    | .dict d => d
    | _ => []
  rows
    | .rows l => l
    | _ => []
  diff
    | .diff d => some d
    | _ => none
  opensFile
    | .factory => true
    | _ => false
  isDriver
    | .driver => true
    | _ => false
  diffsById
    | .byId => true
    | _ => false

/-- No policy has a value. -/
def demoObjects : Objects Unit DemoObj :=
  ⟨fun _ => none, fun _ => .ok .nan, fun _ => .ok 0, fun _ => .ok "", .other⟩

local instance demoTexts : PyRepr := ⟨fun _ => .ok ""⟩

/-- Nothing fails, and the record is the same in all runs. -/
def demoAct : (o : IngestOp Unit DemoObj) → Connection →
    Option (Except (RunExc Unit) o.Val × Connection)
  | .monotonic, c => some (.ok 0, c)
  | .load _, c => some (.ok (.rows c.load), c)
  | .enumerate .., c => some (.ok [.other], c)
  | .records _, c => some (.ok [.dict [(.str "id", .str "a")]], c)
  | .isRecord _, c | .hasUpsert _, c => some (.ok true, c)
  | .len _, c => some (.ok 1, c)
  | .differ _ fetched stored config, c =>
    (diffById (fetched.map StoreObjects.dict) (StoreObjects.rows stored)
      (StoreObjects.dict config)).toOption.map fun d => (.ok (.diff d), c)
  | .hasReplaced _, c => some (.ok false, c)
  | .upsert .driver rs, c =>
    let called := c.call (fun _ => none) (.upsert (rs.map StoreObjects.dict))
    called.2.toOption.map fun _ => (.ok (), called.1)
  | .count _, c => some (.ok 1, c)
  | .storeFactory _, c => some (.ok .driver, c)
  | .fetch .., c | .map .., c | .assess .., c => some (.ok .other, c)
  | .status .., c | .digest _, c => some (.ok "", c)
  | .next _, c => some (.ok (), c)
  | _, _ => none

theorem fileStep_demo (o : IngestOp Unit DemoObj) (c : Connection) (r : Except (RunExc Unit) o.Val)
    (c' : Connection) (h : demoAct o c = some (r, c')) : RerunStep o c r c' := by
  cases o with
  | differ fn fetched stored config =>
    obtain ⟨d, hd, heq⟩ := Option.map_eq_some_iff.1 h
    cases heq
    refine ⟨rfl, fun _ => ⟨d, rfl, ?_⟩⟩
    cases hdiff : diffById (fetched.map StoreObjects.dict) (StoreObjects.rows stored)
        (StoreObjects.dict config) with
    | error e =>
      rw [hdiff] at hd
      cases hd
    | ok d' =>
      rw [hdiff] at hd
      cases hd
      rfl
  | upsert store rs =>
    obtain rfl : store = .driver := by
      cases store <;> first | rfl | cases h
    obtain ⟨summary, hsummary, heq⟩ := Option.map_eq_some_iff.1 h
    cases heq
    refine ⟨fun _ => none, rfl, iff_of_true ⟨(), rfl⟩ ⟨summary, ?_⟩⟩
    cases hcall : (c.call (fun _ => none) (.upsert (rs.map StoreObjects.dict))).2 with
    | error e =>
      rw [hcall] at hsummary
      cases hsummary
    | ok summary' =>
      rw [hcall] at hsummary
      cases hsummary
      rfl
  | storeFactory fn =>
    cases h
    exact ⟨rfl, fun _ => rfl⟩
  | load store =>
    cases h
    exact ⟨rfl, fun _ => rfl⟩
  | hasReplaced diff =>
    cases h
    exact ⟨rfl, fun _ _ => rfl⟩
  | _ => cases h <;> exact ⟨rfl, by trivial⟩

local instance demoStrings : StrRepr := ⟨id⟩

/-- The builtin providers, and a factory of drivers over the path of the file. -/
def fileRegistry : Option (ProviderRegistry DemoObj) :=
  ((builtinRegistry fun name => if name = "diff.by_id" then
    .byId else .other : Except (RunExc Unit) _) >>=
    (·.register "store.file" .factory "store")).toOption

/-- A profile whose store is the file. -/
def fileSource : Source DemoObj :=
  .profile ⟨"stored", "stored", namesOf [("store", "store.file"), ("enumerator", "window.by_day"),
    ("fetcher", "fetch.mock"), ("mapper", "records.passthrough"), ("diff", "diff.by_id"),
    ("assess", "assess.passthrough")],
    ∅, [], [], rfl, rfl, by decide, by decide⟩

def fileRun : IngestProg Unit DemoObj (IngestReport DemoObj) :=
  runIngest demoObjects ⟨fun _ => "", fun _ => .ok ∅, fun _ => .ok []⟩ (fun _ => .other) 2
    fileSource fileRegistry

theorem fileRun_overFile : FileRun fileRun := by
  refine ⟨_, _, _, _, _, _, rfl, fun profile r slots hload hr hslots => ?_⟩
  obtain rfl := Except.ok.inj hload
  have hregistry : (registryOr (fun _ => .other) fileRegistry : Except (RunExc Unit) _) =
      .ok (fileRegistry.getD .empty) := rfl
  obtain rfl := Except.ok.inj (hregistry.symm.trans hr)
  obtain rfl : (⟨.other, .other, .other, .byId, .other, .factory⟩ : Slots DemoObj) = slots :=
    Except.ok.inj hslots
  exact ⟨rfl, rfl, rfl⟩

/-- The table that the runs leave. -/
def oneTable : RecordTable := ⟨[⟨"a", ""⟩], List.nodup_singleton "a"⟩

/-- The run from the table reports the diff, and leaves the one row. -/
def reportsDiff (t : RecordTable) (d : DiffResult) : Bool :=
  (fileRun.drive demoAct (.opened t)).any fun x =>
    x.2.committed.rows == oneTable.rows && match x.1 with
    | .ok report => StoreObjects.diff report.diff == some d
    | .error _ => false

theorem ran_reportsDiff {t : RecordTable} {d : DiffResult} {reports : List (IngestReport DemoObj)}
    (h : reportsDiff t d = true) (hran : Ran (ε := Unit) t reports) :
    ∃ report, StoreObjects.diff report.diff = some d ∧
    Ran (ε := Unit) oneTable (report :: reports) := by
  rw [reportsDiff] at h
  cases hdrive : fileRun.drive demoAct (.opened t) with
  | none =>
    rw [hdrive] at h
    cases h
  | some x =>
    obtain ⟨r, c⟩ := x
    rw [hdrive, Option.any_some, Bool.and_eq_true] at h
    obtain ⟨hrows, hr⟩ := h
    cases r with
    | error e => cases hr
    | ok report =>
      have hsteps := Steps.of_drive fileStep_demo hdrive
      refine ⟨report, eq_of_beq hr, ?_⟩
      have hcommitted : c.committed = oneTable := Connection.table_eq_iff.2 (eq_of_beq hrows)
      exact hcommitted ▸ Ran.returned hran fileRun_overFile hsteps

end

end DatasourceKit

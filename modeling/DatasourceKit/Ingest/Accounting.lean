/-
  The accounts of `run_ingest`.

  * `unthrottled`: nothing is known of the bucket; `runIngest_reports`: what a report says is what
    the logs of its windows say, in any environment;
  * `window_accounting`: a window is reported or has failed, and a failed one adds records exactly
    where its raw value has no length; `unsized_counted`: that happens;
  * `retry_evidence`: the retries are those of the windows whose last call of the fetcher returned;
    `exhausted_uncounted`: a window that exhausts its retries is not counted.
-/
import DatasourceKit.Ingest.WindowLog

namespace DatasourceKit

open Interleave Interleave.Prog Interleave.Scope

section
variable {ε Obj : Type}
  {env : (op : IngestOp ε Obj) → Except (RunExc ε) op.Val → IngestHist ε Obj → Prop}
  {v v' : IngestVars Obj} {t : IngestHist ε Obj} {l : WindowLog ε Obj} {L : List (WindowLog ε Obj)}
      {throttle : FloatBucket}
  {rounds : ℕ} {objects : Objects ε Obj} {profile : SourceProfile Obj} {slots : Slots Obj}

/-- Nothing is known of the bucket. -/
def unthrottled (ε Obj : Type) : ThrottleSpec ε Obj :=
  ⟨fun _ _ _ => True, fun _ => True, fun _ => True, fun _ => True⟩

/-- The loop of `acquire` changes the bucket only. -/
theorem does_acquireFrom {r : Bool} {waited : PyFloat}
    (h : Throttles (unthrottled ε Obj) v l L r v' t) :
    Does (Records env) InLoop (fun _ v' t' => ∃ r, Throttles (unthrottled ε Obj) v l L r v' t')
      (fun _ v' t' => ∃ r, Throttles (unthrottled ε Obj) v l L r v' t')
          (throttle.acquireFrom (.fin 1) rounds waited) v' t := by
  induction rounds generalizing r waited v' t with
  | zero => exact ⟨r, h⟩
  | succ n ih =>
    obtain ⟨hlogs, tokens, last, rfl, -⟩ := h
    refine does_bind.2 (does_event (fun now henv => ?_) fun e henv => ?_)
    swap
    · exact ⟨r, hlogs, _, _, rfl, trivial⟩
    refine does_bind.2 (does_get.2 (does_bind.2 (does_modify.2 ?_)))
    split_ifs
    · exact does_bind.2 (does_modify.2 ⟨r, hlogs, _, _, rfl, trivial⟩)
    refine does_bind.2 (does_event (fun _ henv => ?_) fun e henv => ?_)
    · exact ih ⟨hlogs, _, _, rfl, trivial⟩
    · refine ⟨r || l.invocations == 0, ?_, _, _, rfl, trivial⟩
      simp [logs, IngestOp.log, hlogs]

theorem throttled_any : Throttled env throttle rounds (unthrottled ε Obj) where
  stable := fun _ _ => trivial
  raised := fun _ => trivial
  internal := fun _ => trivial
  acquire := by
    intro v t l L hlogs hinvocations hrefused _
    have hstart : Throttles (unthrottled ε Obj) v l L l.refused v t := ⟨hlogs, _, _, rfl, trivial⟩
    unfold FloatBucket.acquire
    split_ifs with hneg hcap
    · exact absurd hneg (by decide)
    · exact ⟨trivial, _, trivial, hstart⟩
    · refine (does_acquireFrom hstart).mono (fun _ _ h => h) ?_ ?_
      · rintro _ v' t' ⟨r, h⟩
        exact ⟨r, trivial, h⟩
      · rintro _ v' t' ⟨r, h⟩
        exact ⟨trivial, r, trivial, h⟩

/-- A run whose policies are rejected does not return. -/
theorem ingest_rejects (h :
      (∃ e, bucketOf objects (policy objects profile "rate_limit") = .error e) ∨
      ∃ e, retryPolicy objects (policy objects profile "retry") = .error e) :
    (ingest objects rounds profile slots).Always (Records env) (fun _ _ => True) (fun _ _ => False)
        (fun _ _ => True) t := by
  refine always_bind.2 (always_event trivial (fun store _ => ?_) fun _ _ => trivial)
  refine always_bind.2 (always_event trivial (fun stored _ => ?_) fun _ _ => trivial)
  refine always_bind.2 (always_event trivial (fun windows _ => ?_) fun _ _ => trivial)
  cases hthrottle : bucketOf objects (policy objects profile "rate_limit") with
  | error e => exact trivial
  | ok throttle =>
    obtain ⟨e, he⟩ := h.resolve_left fun ⟨e, he⟩ => by rw [hthrottle] at he; cases he
    refine always_bind.2 (always_ret.2
      (always_bind.2 (always_event trivial (fun now _ => ?_) fun _ _ => trivial)))
    rw [he]
    exact trivial

variable [StrRepr] {conv : Convert ε Obj} {builtin : String → Obj} {source : Source Obj}
  {registry : Option (ProviderRegistry Obj)} {report : IngestReport Obj}

/-- In any environment a report says what the logs of its windows say. -/
theorem runIngest_reports
    (h : Reaches env (runIngest objects conv builtin rounds source registry) [] t (.ret report)) :
    ReportsLogs report t := by
  suffices hrun : (runIngest objects conv builtin rounds source registry).Always (Records env)
      (fun _ _ => True) ReportsLogs
      (fun _ _ => True) [] from hrun.reaches h
  rcases runIngest_cases with ⟨e, he⟩ | ⟨profile, r, slots, -, -, -, he⟩
  · rw [he]
    trivial
  rw [he]
  cases hthrottle : bucketOf objects (policy objects profile "rate_limit") with
  | error e =>
    exact (ingest_rejects (.inl ⟨e, hthrottle⟩)).mono (fun _ _ h => h) (fun _ _ h => h.elim)
      fun _ _ h => h
  | ok throttle =>
    cases hp : retryPolicy objects (policy objects profile "retry") with
    | error e =>
      exact (ingest_rejects (.inr ⟨e, hp⟩)).mono (fun _ _ h => h) (fun _ _ h => h.elim)
        fun _ _ h => h
    | ok p =>
      exact (always_ingest hthrottle hp throttled_any fun _ _ _ => trivial).mono
        (fun _ _ _ => trivial) (fun _ _ h => h.1)
        fun _ _ h => h

end

/-! ## Records -/

section
variable {ε Obj : Type} {l : WindowLog ε Obj} {ls : List (WindowLog ε Obj)}

/-- The raw value of the window has a length, if any record of it is valid. -/
def WindowLog.Sized (l : WindowLog ε Obj) : Prop := ∀ e, l.measured = some (.error e) → l.valid = []

/-- The same, computed. -/
def WindowLog.sizedOrEmpty (l : WindowLog ε Obj) : Bool :=
  match l.measured with
  | some (.error _) => l.valid.isEmpty
  | _ => true

theorem WindowLog.sizedOrEmpty_iff : l.sizedOrEmpty = true ↔ l.Sized := by
  unfold WindowLog.sizedOrEmpty WindowLog.Sized
  rcases l.measured with _ | e | n <;> simp

instance : Decidable l.Sized := decidable_of_iff _ WindowLog.sizedOrEmpty_iff

theorem WindowLog.Settled.warning_iff (h : l.Settled) :
    l.warning.isSome = true ↔ l.report = none := by
  rw [WindowLog.Settled] at h
  cases hr : l.report <;> simp [hr] at h ⊢ <;> simp [h]

/-- A reported window adds its persistable records. -/
theorem WindowLog.length_records {report : WindowReport Obj} (h : l.report = some report) :
    l.records.length = report.persistable := by
  unfold WindowLog.report at h
  split at h
  · rename_i n hn
    obtain rfl := Option.some.inj h
    simp [WindowLog.records, hn]
  · cases h

/-- A window without a report adds nothing iff its raw value has a length. -/
theorem WindowLog.sized_iff (h : l.report = none) : l.Sized ↔ l.records = [] := by
  unfold WindowLog.Sized WindowLog.records
  unfold WindowLog.report at h
  rcases hm : l.measured with _ | e | n
  · simp
  · simp
  · rw [hm] at h
    cases h

/-- The windows of the logs are reported or have failed. -/
theorem length_settled (h : ∀ l ∈ ls, l.Settled) :
    ls.length = (ls.filterMap WindowLog.report).length +
    (ls.filterMap WindowLog.warning).length := by
  induction ls with
  | nil => rfl
  | cons l ls ih =>
    obtain ⟨hl, hls⟩ := List.forall_mem_cons.1 h
    have hrest := ih hls
    rw [WindowLog.Settled] at hl
    cases hr : l.report <;> cases hw : l.warning <;> simp [hr, hw] at hl ⊢ <;> omega

theorem length_records (h : ∀ l ∈ ls, l.report = none → l.records = []) :
    (ls.flatMap WindowLog.records).length =
    ((ls.filterMap WindowLog.report).map WindowReport.persistable).sum := by
  induction ls with
  | nil => rfl
  | cons l ls ih =>
    obtain ⟨hl, hls⟩ := List.forall_mem_cons.1 h
    cases hr : l.report with
    | none => simp [hr, hl hr, ih hls]
    | some report => simp [hr, WindowLog.length_records hr, ih hls]

variable [StrRepr] {env : (op : IngestOp ε Obj) → Except (RunExc ε) op.Val → IngestHist ε Obj →
  Prop}
  {t : IngestHist ε Obj} {objects : Objects ε Obj} {conv : Convert ε Obj} {builtin : String → Obj}
    {rounds : ℕ} {source : Source Obj}
  {registry : Option (ProviderRegistry Obj)} {report : IngestReport Obj}

/-- **The accounts of the windows**: every window of the enumerator is reported or has failed, and
    what is handed over are the records of the windows.  The counts agree, and failed windows have
    no records, exactly where a window with valid records has a raw value with a length. -/
theorem window_accounting
    (h : Reaches env (runIngest objects conv builtin rounds source registry) [] t (.ret report)) :
    Enumerated ((logs t).reverse.map WindowLog.window) t ∧
    (∀ l ∈ logs t, l.report.isSome = !l.warning.isSome) ∧
    report.windows = (logs t).reverse.filterMap WindowLog.report ∧
    report.warnings.filter IngestWarning.isFailed = (logs t).reverse.filterMap WindowLog.warning ∧
    report.windowsProcessed = report.windows.length +
    (report.warnings.filter IngestWarning.isFailed).length ∧
    (∀ e ∈ t, ∀ rs, e.1.handed = some rs → rs = (logs t).reverse.flatMap WindowLog.records) ∧
    (report.recordsFetched = (report.windows.map WindowReport.persistable).sum ∧
      (∀ l ∈ logs t, l.warning.isSome = true → l.records = []) ↔ ∀ l ∈ logs t, l.Sized) := by
  obtain ⟨henumerated, hprocessed, hreports, hfailed, hfetched, hhanded, -, -, hsettled⟩ :=
    runIngest_reports h
  refine ⟨henumerated, hsettled, hreports, hfailed, ?_, hhanded,
    fun ⟨_, hnone⟩ l hl => ?_, fun hsized => ?_⟩
  · rw [hprocessed, hreports, hfailed, ← length_settled fun l hl =>
      hsettled l (List.mem_reverse.1 hl), List.length_reverse]
  · by_cases hreport : l.report = none
    · exact (l.sized_iff hreport).2 (hnone l hl ((hsettled l hl).warning_iff.2 hreport))
    · intro e he
      rw [WindowLog.report, he] at hreport
      exact absurd rfl hreport
  · have hnone : ∀ l ∈ logs t, l.report = none → l.records = [] := fun l hl hr =>
      (l.sized_iff hr).1 (hsized l hl)
    refine ⟨?_, fun l hl hw => hnone l hl ((hsettled l hl).warning_iff.1 hw)⟩
    rw [hfetched, hreports, length_records fun l hl => hnone l (List.mem_reverse.1 hl)]

end

/-- One window; the fetcher fails `fails` times, and the raw value has a length if `sized`. -/
def demoAnswer (fails : ℕ) (sized : Bool) : (op : IngestOp Unit Json) → IngestHist Unit Json →
    Except (RunExc Unit) op.Val
  | .monotonic, _ => .ok 0
  | .sleep _, _ | .next _, _ | .replaceAll .., _ | .upsert .., _ | .save .., _ => .ok ()
  | .storeFactory _, _ | .load _, _ | .map .., _ | .differ .., _ | .assess .., _ => .ok (.obj [])
  | .enumerate .., _ => .ok [.str "2024-01-01"]
  | .fetch .., t => if fetches t < fails then .error (.consumer ()) else .ok (.arr [])
  | .records _, _ => .ok [.obj [("id", .str "1")]]
  | .isRecord _, _ | .hasUpsert _, _ => .ok true
  | .hasReplaced _, _ => .ok false
  | .len _, _ => if sized then .ok 1 else .error (.type "object has no len()")
  | .str _, _ | .repr _, _ | .strExc _, _ | .status .., _ | .digest _, _ => .ok ""
  | .count _, _ => .ok 1

/-- The run returned a report with these counts. -/
def counts (records windows retries : ℕ) : Except (RunExc Unit) (IngestReport Json) → Bool
  | .ok report =>
    report.recordsFetched == records && report.windows.length == windows &&
      report.retriesUsed == retries
  | .error _ => false

/-- A run with these counts. -/
theorem exists_counts (policies : Dict) (fails : ℕ) (sized : Bool) (records windows retries : ℕ)
    (h : counts records windows retries ((demoRun policies).exec (demoAnswer fails sized) []).1 =
      true) :
    ∃ report, Reaches (fun _ _ _ => True) (demoRun policies) []
        ((demoRun policies).exec (demoAnswer fails sized) []).2 (.ret report) ∧
      report.recordsFetched = records ∧ report.windows.length = windows ∧
      report.retriesUsed = retries := by
  have hreaches : Reaches (fun _ _ _ => True) (demoRun policies) [] _ _ :=
    exec_reaches (demoAnswer fails sized) (fun _ _ => trivial) (demoRun policies) []
  cases hx : ((demoRun policies).exec (demoAnswer fails sized) []).1 with
  | error e =>
    rw [hx] at h
    cases h
  | ok report =>
    rw [hx] at h hreaches
    simp only [counts, Bool.and_eq_true, beq_iff_eq] at h
    exact ⟨report, hreaches, h.1.1, h.1.2, h.2⟩

/-- A window with one record: where its raw value has a length, the counts agree; where it has
    none, they do not. -/
theorem window_accounting_one :
    (∃ report, report.recordsFetched = 1 ∧
      Reaches (fun _ _ _ => True) (demoRun ∅) [] ((demoRun ∅).exec (demoAnswer 0 true) []).2
      (.ret report) ∧ report.windowsProcessed =
      report.windows.length + (report.warnings.filter IngestWarning.isFailed).length ∧
      report.recordsFetched = (report.windows.map WindowReport.persistable).sum) ∧
    ∃ report, report.recordsFetched = 1 ∧
      Reaches (fun _ _ _ => True) (demoRun ∅) []
      ((demoRun ∅).exec (demoAnswer 0 false) []).2 (.ret report) ∧
      ¬(report.recordsFetched = (report.windows.map WindowReport.persistable).sum ∧
        ∀ l ∈ logs ((demoRun ∅).exec (demoAnswer 0 false) []).2, l.warning.isSome = true →
        l.records = []) := by
  constructor
  · obtain ⟨report, hreaches, hrecords, -⟩ := exists_counts ∅ 0 true 1 1 0 (by decide +kernel)
    obtain ⟨-, -, -, -, hprocessed, -, hiff⟩ :=
      @window_accounting Unit Json ⟨id⟩ _ _ jsonObjects _ Json.str 2
      (.profile (completeProfile ∅)) none report hreaches
    exact ⟨report, hrecords, hreaches, hprocessed, (hiff.2 (by decide +kernel)).1⟩
  · obtain ⟨report, hreaches, hrecords, -⟩ := exists_counts ∅ 0 false 1 0 0 (by decide +kernel)
    obtain ⟨-, -, -, -, -, -, hiff⟩ :=
      @window_accounting Unit Json ⟨id⟩ _ _ jsonObjects _ Json.str 2
      (.profile (completeProfile ∅)) none report hreaches
    exact ⟨report, hrecords, hreaches, fun hcounts => absurd (hiff.1 hcounts) (by decide +kernel)⟩

/-- **A failed window can be counted**: its raw value has no length, and its record is kept. -/
theorem unsized_counted : ¬ ∀ (t : IngestHist Unit Json) (report : IngestReport Json),
    Reaches (fun _ _ _ => True) (demoRun ∅) [] t (.ret report) →
      report.recordsFetched = (report.windows.map WindowReport.persistable).sum := by
  intro h
  obtain ⟨report, hreaches, hrecords, hwindows, -⟩ :=
    exists_counts ∅ 0 false 1 0 0 (by decide +kernel)
  have hcounts := h _ report hreaches
  rw [hrecords, List.length_eq_zero_iff.1 hwindows] at hcounts
  cases hcounts

/-! ## Retries -/

section
variable {ε Obj : Type} {ls : List (WindowLog ε Obj)}

/-- A window whose fetcher was called more than once ends with a call that returned. -/
def WindowLog.Recovered (l : WindowLog ε Obj) : Prop := 2 ≤ l.invocations → l.fetched = true

/-- The retries of a window and its first call are not more than its calls. -/
theorem WindowLog.retries_le (l : WindowLog ε Obj) :
    l.retries + (if 1 ≤ l.invocations then 1 else 0) ≤ l.invocations := by
  unfold WindowLog.retries
  split_ifs <;> omega

theorem WindowLog.recovered_iff (l : WindowLog ε Obj) :
    l.Recovered ↔ l.retries + (if 1 ≤ l.invocations then 1 else 0) = l.invocations := by
  unfold WindowLog.Recovered WindowLog.retries
  by_cases hfetched : l.fetched = true
  · simp only [hfetched, if_true, implies_true, true_iff]
    split_ifs <;> omega
  · simp only [hfetched, Bool.false_eq_true, if_false, imp_false]
    split_ifs <;> omega

/-- The counts agree iff they agree for every window. -/
theorem sum_retries_iff :
    (ls.map WindowLog.retries).sum + ls.countP (fun l => decide (1 ≤ l.invocations)) =
    (ls.map WindowLog.invocations).sum ↔ ∀ l ∈ ls, l.Recovered := by
  have hle (ls : List (WindowLog ε Obj)) : (ls.map WindowLog.retries).sum + ls.countP
      (fun l => decide (1 ≤ l.invocations)) ≤
      (ls.map WindowLog.invocations).sum := by
    induction ls with
    | nil => exact le_rfl
    | cons l ls ih =>
      have hl := l.retries_le
      simp only [List.map_cons, List.sum_cons, List.countP_cons, decide_eq_true_eq]
      omega
  induction ls with
  | nil => simp
  | cons l ls ih =>
    have hl := l.retries_le
    have hrest := hle ls
    rw [List.forall_mem_cons, ih.symm, l.recovered_iff]
    simp only [List.map_cons, List.sum_cons, List.countP_cons, decide_eq_true_eq]
    omega

variable [StrRepr] {env : (op : IngestOp ε Obj) → Except (RunExc ε) op.Val → IngestHist ε Obj →
  Prop}
  {t : IngestHist ε Obj} {objects : Objects ε Obj} {conv : Convert ε Obj} {builtin : String → Obj}
    {rounds : ℕ} {source : Source Obj}
  {registry : Option (ProviderRegistry Obj)} {report : IngestReport Obj}

/-- **The retry evidence**: the retries that are reported, and one call for each window that was
    fetched at all, are all calls of the fetcher, exactly where every window that was fetched more
    than once was fetched in the end. -/
theorem retry_evidence (h :
      Reaches env (runIngest objects conv builtin rounds source registry) [] t (.ret report)) :
    report.retriesUsed + (logs t).countP (fun l => decide (1 ≤ l.invocations)) = fetches t ↔
      ∀ l ∈ logs t, 2 ≤ l.invocations → l.fetched = true := by
  have hreports := runIngest_reports h
  rw [hreports.retries, ← hreports.shown]
  exact sum_retries_iff

end

/-- Up to three attempts. -/
def threeAttempts : Dict := Dict.set ∅ "retry" (.obj [("retries", .int 3)])

/-- The third call of the fetcher returns. -/
theorem retry_evidence_third : ∃ report, report.retriesUsed = 2 ∧
    Reaches (fun _ _ _ => True) (demoRun threeAttempts) []
        ((demoRun threeAttempts).exec (demoAnswer 2 true) []).2 (.ret report) ∧
    report.retriesUsed + (logs ((demoRun threeAttempts).exec (demoAnswer 2 true) []).2).countP
        (fun l => decide (1 ≤ l.invocations)) =
      fetches ((demoRun threeAttempts).exec (demoAnswer 2 true) []).2 := by
  obtain ⟨report, hreaches, -, -, hretries⟩ :=
    exists_counts threeAttempts 2 true 1 1 2 (by decide +kernel)
  have hevidence := @retry_evidence Unit Json ⟨id⟩ _ _ jsonObjects _ Json.str 2
      (.profile (completeProfile threeAttempts)) none report
    hreaches
  exact ⟨report, hretries, hreaches, hevidence.2 (by decide +kernel)⟩

/-- **A window that exhausts its retries is not counted**: three calls, and no retry is reported. -/
theorem exhausted_uncounted : ¬ ∀ (t : IngestHist Unit Json) (report : IngestReport Json),
    Reaches (fun _ _ _ => True) (demoRun threeAttempts) [] t (.ret report) →
      report.retriesUsed + (logs t).countP (fun l => decide (1 ≤ l.invocations)) = fetches t := by
  intro h
  obtain ⟨report, hreaches, -, -, hretries⟩ :=
    exists_counts threeAttempts 3 true 0 0 0 (by decide +kernel)
  have hcounts := h _ report hreaches
  rw [hretries] at hcounts
  exact absurd hcounts (by decide +kernel)

end DatasourceKit

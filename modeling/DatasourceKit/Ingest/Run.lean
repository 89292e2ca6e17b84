/-
  `run_ingest` (`runtime.py`).

  * `IngestOp`: its calls, of the providers, the clock and the builtin functions; what they answer
    is up to the environment;
  * `FloatBucket`: the `TokenBucket` of a run, whose numbers come from the profile;
  * `IngestVars`: the variables; `processWindow`: the body of the loop; `ingest`, `runIngest`;
  * `IngestReport.toReport`: the report as JSON; `always_comes_back`: that of a run is
    read as it was written.
-/
import DatasourceKit.Interleave.Scope
import DatasourceKit.Ingest.Profile
import DatasourceKit.Report

namespace DatasourceKit

open Interleave

/-! ## The calls -/

/-- `except Exception` catches it. -/
def RunExc.isException {ε : Type} : RunExc ε → Bool
  | interrupt | waiting => false
  | _ => true

/-- `digest_payload`. -/
structure DigestPayload (Obj : Type) where
  name : String
  sourceType : String
  providers : AList fun _ : String => String
  policies : AList fun _ : String => Obj
  statusVocabulary : List String
  completenessLayers : List String

/-- The calls of a run; `Obj` are the objects of the consumer.  `next` is the loop that takes its
    next window, `records` iterates over what a mapper returned, `isRecord` is
    `isinstance(record, dict) and record.get("id")`, `status` and `count` are
    `str(assessment.get("status", default))` and `int(assessment.get("count", 0))`. -/
inductive IngestOp (ε Obj : Type) where
  | monotonic
  | sleep (seconds : PyFloat)
  | storeFactory (fn : Obj)
  | load (store : Obj)
  | enumerate (fn config : Obj)
  | next (window : Obj)
  | fetch (fn window config : Obj)
  | map (fn raw config : Obj)
  | records (mapped : Obj)
  | isRecord (record : Obj)
  | len (raw : Obj)
  | str (window : Obj)
  | repr (window : Obj)
  | strExc (e : RunExc ε)
  | differ (fn : Obj) (fetched : List Obj) (stored config : Obj)
  | hasReplaced (diff : Obj)
  | hasUpsert (store : Obj)
  | replaceAll (store : Obj) (records : List Obj)
  | upsert (store : Obj) (records : List Obj)
  | save (store : Obj) (records : List Obj)
  | assess (fn : Obj) (fetched : List Obj) (window config : Obj)
  | status (assessment : Obj) (default : String)
  | count (assessment : Obj)
  | digest (payload : DigestPayload Obj)

abbrev IngestOp.Val {ε Obj : Type} : IngestOp ε Obj → Type
  | monotonic => ℚ
  | enumerate .. | records _ => List Obj
  | isRecord _ | hasReplaced _ | hasUpsert _ => Bool
  | len _ => ℕ
  | count _ => ℤ
  | str _ | repr _ | strExc _ | status .. | digest _ => String
  | storeFactory _ | load _ | fetch .. | map .. | differ .. | assess .. => Obj
  | sleep _ | next _ | replaceAll .. | upsert .. | save .. => Unit

abbrev IngestProg (ε Obj : Type) := Prog (@IngestOp.Val ε Obj) (RunExc ε)

/-! ## The throttle -/

/-- A bucket with numbers that its constructor takes. -/
structure FloatBucket where
  rate : PyFloat
  capacity : PyFloat
  rate_ok : rate.le (.fin 0) = false
  capacity_ok : capacity.le (.fin 0) = false

def FloatBucket.make {ε : Type} (rate capacity : PyFloat) : Except (RunExc ε) FloatBucket :=
  if h : rate.le (.fin 0) = false ∧ capacity.le (.fin 0) = false then .ok ⟨rate, capacity, h.1, h.2⟩
  else .error (.value "rate and capacity must be positive")

/-- `min(self.capacity, self._tokens + elapsed * self.rate)`. -/
def FloatBucket.refill (b : FloatBucket) (tokens : PyFloat) (elapsed : ℚ) : PyFloat :=
  b.capacity.min (tokens.add ((PyFloat.fin elapsed).mul b.rate))

structure WindowReport (Obj : Type) where
  window : Obj
  fetched : ℕ
  persistable : ℕ
  invalid : ℕ

inductive IngestWarning where
  | invalid (count : ℕ) (window : String)
  | failed (window exc : String)

/-- The warning, as the report shows it. -/
def IngestWarning.text : IngestWarning → String
  | invalid count window => toString count ++ " invalid record(s) in " ++ window
  | failed window exc => "window " ++ window ++ " failed: " ++ exc

/-- The variables of a run, those of its bucket included. -/
structure IngestVars (Obj : Type) where
  tokens : PyFloat
  last : ℚ
  attempts : ℕ := 0
  warnings : List IngestWarning := []
  windowReports : List (WindowReport Obj) := []
  allFetched : List Obj := []
  retriesUsed : ℕ := 0
  rateLimitWaits : PyFloat := .fin 0

section
variable {ε Obj : Type}

abbrev IngestScope (ε Obj : Type) := Scope (@IngestOp.Val ε Obj) (RunExc ε) (IngestVars Obj)

/-- The `while True` of `acquire`, cut off after `n` rounds. -/
def FloatBucket.acquireFrom (b : FloatBucket) (tokens : PyFloat) : (n : ℕ) → (waited : PyFloat) →
    IngestScope ε Obj PyFloat
  | 0, _ => throw .waiting
  | n + 1, waited => do
    let now ← Scope.perform IngestOp.monotonic
    let v ← get
    let refilled := b.refill v.tokens (now - v.last)
    modify fun v => { v with tokens := refilled, last := now }
    if tokens.le refilled then
      modify fun v => { v with tokens := refilled.sub tokens }
      return waited
    else
      let wait := (tokens.sub refilled).div b.rate
      Scope.perform (IngestOp.sleep wait)
      b.acquireFrom tokens n (waited.add wait)

def FloatBucket.acquire (b : FloatBucket) (rounds : ℕ) (tokens : PyFloat) :
    IngestScope ε Obj PyFloat :=
  if tokens.le (.fin 0) then throw (.value "tokens must be positive")
  else if b.capacity.lt tokens then throw (.value "tokens cannot exceed capacity")
  else b.acquireFrom tokens rounds (.fin 0)

end

/-! ## The policies -/

/-- What the run asks of the values of a policy: `isinstance(v, dict)` with the items, `float(v)`,
    `int(v)` and `str(v)`; `empty` is `{}`. -/
structure Objects (ε Obj : Type) where
  dict : Obj → Option (AList fun _ : String => Obj)
  float : Obj → Except (RunExc ε) PyFloat
  int : Obj → Except (RunExc ε) ℤ
  str : Obj → Except (RunExc ε) String
  empty : Obj

/-- JSON documents as the objects of a run; here no text is the literal of a number, and only texts
    have a text. -/
def jsonObjects : Objects Unit Json where
  dict
    | .obj items => some (items.foldl (fun d x => d.insert x.1 x.2) ∅)
    | _ => none
  float
    | .int n => .ok (.fin n)
    | .bool b => .ok (.fin b.toInt)
    | .float q => .ok (.fin q)
    | .nan => .ok .nan
    | .infinity neg => .ok (if neg then .negInf else .posInf)
    | _ => .error (.type "float() argument must be a string or a real number")
  int
    | .int n => .ok n
    | .bool b => .ok b.toInt
    | .float q => .ok (q.num.tdiv q.den)
    | _ => .error (.type "int() argument must be a string, a bytes-like object or a real number")
  str
    | .str s => .ok s
    | _ => .ok ""
  empty := .obj []

section
variable {ε Obj : Type} (objects : Objects ε Obj) (profile : SourceProfile Obj)

/-- `policies.get(key, {})`. -/
def policy (key : String) : Obj := (profile.policies.lookup key).getD objects.empty

/-- `_bucket`, up to the first reading of the clock. -/
def bucketOf (raw : Obj) : Except (RunExc ε) FloatBucket := do
  let raw := (objects.dict raw).getD ∅
  let rate ← (raw.lookup "rate" <|> raw.lookup "rate_per_sec").elim
      (.ok (.fin 1000000)) objects.float
  let capacity ← (raw.lookup "capacity" <|> raw.lookup "burst").elim
      (.ok (.fin 1000000)) objects.float
  FloatBucket.make rate capacity

/-- `_retry_policy`. -/
def retryPolicy (raw : Obj) : Except (RunExc ε) (RetryPolicy ε PyFloat) := do
  let raw := (objects.dict raw).getD ∅
  let retries ← (raw.lookup "retries").elim (.ok 1) objects.int
  let backoffSeconds ← (raw.lookup "backoff_seconds").elim (.ok (.fin 0)) objects.float
  let backoff ← (raw.lookup "backoff").elim (.ok "exponential") objects.str
  let maxBackoffSeconds ← (raw.lookup "max_backoff_seconds").elim (.ok (.fin 0)) objects.float
  return { retries, backoffSeconds, backoff, maxBackoffSeconds := some maxBackoffSeconds, retryOn :=
      RunExc.isException }

end

/-! ## The run -/

/-- The providers of a run. -/
structure Slots (P : Type) where
  enumerator : P
  fetcher : P
  mapper : P
  differ : P
  assessor : P
  storeFactory : P

/-- The report, with the objects of the consumer in it. -/
structure IngestReport (Obj : Type) where
  sourceName : String
  status : String
  windows : List (WindowReport Obj)
  windowsProcessed : ℕ
  recordsFetched : ℕ
  diff : Obj
  completeness : Option Report.CompletenessReport
  retriesUsed : ℕ
  rateLimitWaits : PyFloat
  warnings : List IngestWarning
  sourceDigest : String

/-- `_completeness`. -/
def completenessOf (layers : List String) (count : ℤ) : Option Report.CompletenessReport :=
  if layers = [] then none
  else some ⟨.ofPairs (layers.map fun layer => (layer, ⟨layer, count, count⟩)),
    .int count, .int count⟩

section
variable {ε Obj : Type}

/-- `_valid_records`. -/
def validRecords : (records : List Obj) → (valid invalid : List Obj) →
    IngestScope ε Obj (List Obj × List Obj)
  | [], valid, invalid => return (valid, invalid)
  | record :: records, valid, invalid => do
    if ← Scope.perform (IngestOp.isRecord record) then
      validRecords records (valid ++ [record]) invalid
    else validRecords records valid (invalid ++ [record])

variable (objects : Objects ε Obj) (rounds : ℕ) (profile : SourceProfile Obj) (slots : Slots Obj)

/-- `fetch_once`. -/
def fetchOnce (window : Obj) : IngestScope ε Obj Obj := do
  modify fun v => { v with attempts := v.attempts + 1 }
  Scope.perform (IngestOp.fetch slots.fetcher window (policy objects profile "fetcher"))

/-- `if invalid: warnings.append(...)`. -/
def warnInvalid (window : Obj) (invalid : List Obj) : IngestScope ε Obj Unit :=
  if invalid = [] then pure ()
  else do
    let text ← Scope.perform (IngestOp.str window)
    modify fun v => { v with warnings := v.warnings ++ [.invalid invalid.length text] }

/-- The `try` of the loop, after the fetch. -/
def collect (window raw : Obj) : IngestScope ε Obj Unit := do
  let mapped ← Scope.perform (IngestOp.map slots.mapper raw (policy objects profile "mapper"))
  let (valid, invalid) ← validRecords (← Scope.perform (IngestOp.records mapped)) [] []
  warnInvalid window invalid
  modify fun v => { v with allFetched := v.allFetched ++ valid }
  let fetched ← Scope.perform (IngestOp.len raw)
  modify fun v => { v with windowReports := v.windowReports ++
    [⟨window, fetched, valid.length, invalid.length⟩] }

/-- The `try` of the loop. -/
def tryWindow (throttle : FloatBucket) (retryPolicy : RetryPolicy ε PyFloat) (window : Obj) :
    IngestScope ε Obj Unit := do
  let waited ← throttle.acquire rounds (.fin 1)
  modify fun v => { v with rateLimitWaits := v.rateLimitWaits.add waited }
  modify fun v => { v with attempts := 0 }
  let raw ← retry (.floats ε) retryPolicy (fun d => Scope.perform (IngestOp.sleep d))
      (fetchOnce objects profile slots window)
  modify fun v => { v with retriesUsed := v.retriesUsed + (v.attempts - 1) }
  collect objects profile slots window raw

/-- `except Exception as exc`. -/
def failWindow (window : Obj) (exc : RunExc ε) : IngestScope ε Obj Unit :=
  if exc.isException then do
    let window ← Scope.perform (IngestOp.repr window)
    let exc ← Scope.perform (IngestOp.strExc exc)
    modify fun v => { v with warnings := v.warnings ++ [.failed window exc] }
  else throw exc

/-- The body of the loop. -/
def processWindow (throttle : FloatBucket) (retryPolicy : RetryPolicy ε PyFloat) (window : Obj) :
    IngestScope ε Obj Unit := do
  Scope.perform (IngestOp.next window)
  tryCatch (tryWindow objects rounds profile slots throttle retryPolicy window) (failWindow window)

/-- The `try` around the store. -/
def persist (store : Obj) (fetched : List Obj) (diff : Obj) : IngestProg ε Obj Unit :=
  tryCatch (do
    if ← Prog.perform (IngestOp.hasReplaced diff) then
    Prog.perform (IngestOp.replaceAll store fetched)
    else if ← Prog.perform (IngestOp.hasUpsert store) then
    Prog.perform (IngestOp.upsert store fetched)
    else Prog.perform (IngestOp.save store fetched)) fun exc =>
  if exc.isException then do
    throw (.step ("persist failed: " ++ (← Prog.perform (IngestOp.strExc exc))))
  else throw exc

/-- What the assessor says: the status and the count. -/
def assessment (windows fetched : List Obj) (default : String) : IngestProg ε Obj (String × ℤ) :=
  match windows.getLast? with
  | none => return (default, 0)
  | some window => do
    let assessment ← Prog.perform
        (IngestOp.assess slots.assessor fetched window (policy objects profile "assess"))
    let status ← Prog.perform (IngestOp.status assessment default)
    return (status, ← Prog.perform (IngestOp.count assessment))

/-- The run after its loop. -/
def conclude (store stored : Obj) (windows : List Obj) (v : IngestVars Obj) :
    IngestProg ε Obj (IngestReport Obj) := do
  let diff ← Prog.perform
      (IngestOp.differ slots.differ v.allFetched stored (policy objects profile "diff"))
  persist store v.allFetched diff
  let (status, count) ← assessment objects profile slots windows v.allFetched
      (if v.warnings ≠ [] then "partial" else "ok")
  let sourceDigest ← Prog.perform
      (IngestOp.digest ⟨profile.name, profile.sourceType, profile.providers, profile.policies,
        profile.statusVocabulary, profile.completenessLayers⟩)
  return {
    sourceName := profile.name, status
    windows := v.windowReports, windowsProcessed := windows.length
    recordsFetched := v.allFetched.length, diff
    completeness := completenessOf profile.completenessLayers count
    retriesUsed := v.retriesUsed, rateLimitWaits := v.rateLimitWaits
    warnings := v.warnings, sourceDigest }

/-- The run with its providers; every `acquire` is cut off after so many `rounds`. -/
def ingest : IngestProg ε Obj (IngestReport Obj) := do
  let store ← Prog.perform (IngestOp.storeFactory slots.storeFactory)
  let stored ← Prog.perform (IngestOp.load store)
  let windows ← Prog.perform
      (IngestOp.enumerate slots.enumerator (policy objects profile "enumerator"))
  let throttle ← Prog.ofExcept (bucketOf objects (policy objects profile "rate_limit"))
  let now ← Prog.perform IngestOp.monotonic
  let retryPolicy ← Prog.ofExcept (retryPolicy objects (policy objects profile "retry"))
  let v ← Scope.close (do
    windows.forM (processWindow objects rounds profile slots throttle retryPolicy)
    get) ⟨throttle.capacity, now, 0, [], [], [], 0, .fin 0⟩
  conclude objects profile slots store stored windows v

end

section
variable {ε P Obj : Type}

/-- The providers of the six slots. -/
def resolveSlots (profile : SourceProfile Obj) (registry : ProviderRegistry P) :
    Except (RunExc ε) (Slots P) := do
  let enumerator ← resolve profile registry "enumerator"
  let fetcher ← resolve profile registry "fetcher"
  let mapper ← resolve profile registry "mapper"
  let differ ← resolve profile registry "diff"
  let assessor ← resolve profile registry "assess"
  let storeFactory ← resolve profile registry "store"
  return { enumerator, fetcher, mapper, differ, assessor, storeFactory }

/-- `registry or builtin_registry()`: an empty registry is false. -/
def registryOr [StrRepr] (builtin : String → P) :
    Option (ProviderRegistry P) → Except (RunExc ε) (ProviderRegistry P)
  | some registry => if registry.byName.keys = [] then builtinRegistry builtin else .ok registry
  | none => builtinRegistry builtin

/-- A profile, or the document of its folder. -/
inductive Source (Obj : Type) where
  | profile (profile : SourceProfile Obj)
  | document (raw : Option Dict)

def Source.load (conv : Convert ε Obj) : Source Obj → Except (RunExc ε) (SourceProfile Obj)
  | .profile p => .ok p
  | .document raw => loadProfile conv raw

/-- `run_ingest`. -/
def runIngest [StrRepr] (objects : Objects ε Obj) (conv : Convert ε Obj) (builtin : String → Obj)
    (rounds : ℕ) (source : Source Obj) (registry : Option (ProviderRegistry Obj)) :
    IngestProg ε Obj (IngestReport Obj) := do
  let registry ← Prog.ofExcept (registryOr builtin registry)
  let profile ← Prog.ofExcept (source.load conv)
  Prog.ofExcept (validateSource profile registry)
  let slots ← Prog.ofExcept (resolveSlots profile registry)
  ingest objects rounds profile slots

variable [StrRepr] {objects : Objects ε Obj} {conv : Convert ε Obj} {builtin : String → Obj}
  {rounds : ℕ} {source : Source Obj} {registry : Option (ProviderRegistry Obj)}
    {r : ProviderRegistry Obj} {profile : SourceProfile Obj}

/-- The run with its registry and its profile. -/
theorem runIngest_eq (hr : registryOr builtin registry = (.ok r : Except (RunExc ε) _))
    (hp : source.load conv = .ok profile) :
    runIngest objects conv builtin rounds source registry =
    (Prog.ofExcept (validateSource profile r)).bind fun _ =>
      (Prog.ofExcept (resolveSlots profile r)).bind fun slots =>
      ingest objects rounds profile slots := by
  rw [runIngest, hr, hp]
  rfl

/-- A run is rejected before any call, or it is the run of a profile with its providers. -/
theorem runIngest_cases : (∃ e, runIngest objects conv builtin rounds source registry = .raise e) ∨
    ∃ profile r slots, source.load conv = .ok profile ∧
      (registryOr builtin registry : Except (RunExc ε) (ProviderRegistry Obj)) = .ok r ∧
      (resolveSlots profile r : Except (RunExc ε) (Slots Obj)) = .ok slots ∧
      runIngest objects conv builtin rounds source registry =
      ingest objects rounds profile slots := by
  cases hr : (registryOr builtin registry : Except (RunExc ε) (ProviderRegistry Obj)) with
  | error e => exact .inl ⟨e, by rw [runIngest, hr]; rfl⟩
  | ok r =>
    cases hp : source.load conv with
    | error e => exact .inl ⟨e, by rw [runIngest, hr, hp]; rfl⟩
    | ok profile =>
      rw [runIngest_eq hr hp]
      cases (validateSource profile r : Except (RunExc ε) Unit) with
      | error e => exact .inl ⟨e, rfl⟩
      | ok u =>
        cases hslots : (resolveSlots profile r : Except (RunExc ε) (Slots Obj)) with
        | error e => exact .inl ⟨e, rfl⟩
        | ok slots => exact .inr ⟨profile, r, slots, rfl, rfl, hslots, rfl⟩

end

/-! ## The report as JSON -/

/-- The sum of the waits as a JSON value. -/
def PyFloat.json : PyFloat → Json
  | nan => .nan
  | posInf => .infinity false
  | negInf => .infinity true
  | fin q => .float q

section
variable {ε Obj : Type} (json : Obj → Json)

def WindowReport.asDict (w : WindowReport Obj) : Json :=
  .obj [("window", json w.window), ("fetched", .int w.fetched), ("persistable", .int w.persistable),
    ("invalid", .int w.invalid)]

/-- The report that `as_dict` sees; `json` shows the objects of the consumer. -/
def IngestReport.toReport [Report.ReportHost] (r : IngestReport Obj) : Report.IngestReport where
  sourceName := .str r.sourceName
  status := .str r.status
  windows := .arr (r.windows.map (·.asDict json))
  windowsProcessed := .int r.windowsProcessed
  recordsFetched := .int r.recordsFetched
  diff := json r.diff
  completeness := r.completeness
  retriesUsed := .int r.retriesUsed
  rateLimitWaits := r.rateLimitWaits.json
  warnings := .arr (r.warnings.map fun w => .str w.text)
  sourceDigest := .str r.sourceDigest
  kitVersion := .str Report.ReportHost.kitVersion

/-- What is present is all that there is. -/
def IngestReport.Even (r : IngestReport Obj) : Prop :=
  ∀ c, r.completeness = some c → ∃ count : ℤ, c.present = .int count ∧ c.truth = .int count

theorem even_completenessOf {layers : List String} {count : ℤ} {c : Report.CompletenessReport}
    (h : completenessOf layers count = some c) :
    ∃ n : ℤ, c.present = .int n ∧ c.truth = .int n := by
  unfold completenessOf at h
  split_ifs at h
  cases h
  exact ⟨count, rfl, rfl⟩

variable {objects : Objects ε Obj} {rounds : ℕ} {profile : SourceProfile Obj} {slots : Slots Obj}
  {S : Type} {step : (o : IngestOp ε Obj) → S → Except (RunExc ε) o.Val → S → Prop} {s : S}

/-- So is the report of every run. -/
theorem always_even :
    (ingest objects rounds profile slots).Always step (fun _ _ => True) (fun r _ => r.Even)
    (fun _ _ => True) s := by
  refine Prog.always_bind_last fun store s => Prog.always_bind_last fun stored s => ?_
  refine Prog.always_bind_last fun windows s => Prog.always_bind_last fun throttle s => ?_
  refine Prog.always_bind_last fun now s => Prog.always_bind_last fun retryPolicy s => ?_
  refine Prog.always_bind_last fun v s => Prog.always_bind_last fun diff s => ?_
  refine Prog.always_bind_last fun _ s => Prog.always_bind_last fun x s => ?_
  exact Prog.always_bind_last fun digest s c hc => even_completenessOf hc

theorem IngestReport.Even.comes_back [Report.ReportHost] {r : IngestReport Obj} (h : r.Even)
    (hp : (r.toReport json).Proper) : (r.toReport json).RoundTrips ↔
    (r.toReport json).DigitsOk := by
  have ht : (r.toReport json).Typed := by
    refine ⟨⟨_, rfl⟩, ⟨_, rfl⟩, fun c hc => ?_⟩
    obtain ⟨count, hpresent, htruth⟩ := h c hc
    exact ⟨count, count, hpresent, htruth⟩
  have hfinite : (r.toReport json).RatioFinite := by
    intro c a b hc ha hb
    obtain ⟨count, hpresent, htruth⟩ := h c hc
    cases ha.symm.trans hpresent
    cases hb.symm.trans htruth
    by_cases hzero : a = 0
    · exact .inl hzero
    · have hone : (1 : ℤ) < Report.floatOverflow := by decide +kernel
      have hpos : 0 < |a| := abs_pos.2 hzero
      have hle : 1 * |a| < Report.floatOverflow * |a| := (Int.mul_lt_mul_right hpos).2 hone
      exact .inr (by rwa [one_mul] at hle)
  rw [Report.IngestReport.roundTrips_iff ht hp, Report.IngestReport.completenessValue_ok_iff ht,
    and_iff_right hfinite]

/-- **The report of a run comes back**, from its mapping and from the JSON text of it, exactly if
    its integers are not too long to be converted. -/
theorem always_comes_back [Report.ReportHost] :
    (ingest objects rounds profile slots).Always step (fun _ _ => True)
      (fun r _ => (r.toReport json).Proper →
        ((r.toReport json).RoundTrips ↔ (r.toReport json).DigitsOk))
      (fun _ _ => True) s :=
  always_even.mono (fun _ _ h => h) (fun _ _ h => h.comes_back json) fun _ _ h => h

end

/-! ## Profiles of the builtin providers -/

/-- The builtin providers, by their names. -/
def demoRegistry : ProviderRegistry Json :=
  match @builtinRegistry Unit Json ⟨id⟩ Json.str with
  | .ok registry => registry
  | .error _ => .empty

def namesOf (slots : List (String × String)) : AList fun _ : String => String :=
    slots.foldl (fun d x => d.insert x.1 x.2) ∅

/-- A profile with these names for its slots. -/
def demoProfile (slots : List (String × String)) (policies : Dict)
    (hsome : (namesOf slots).keys ≠ [])
    (htext : ∀ x ∈ (namesOf slots).entries, isBlank x.1 = false ∧ isBlank x.2 = false) :
    SourceProfile Json :=
  ⟨"demo", "demo", namesOf slots, policies, [], [], rfl, rfl, hsome, htext⟩

/-- All six slots have names. -/
def completeProfile (policies : Dict) : SourceProfile Json :=
  demoProfile [("enumerator", "window.by_day"), ("fetcher", "fetch.mock"),
    ("mapper", "records.passthrough"), ("diff", "diff.by_id"), ("assess", "assess.passthrough"),
    ("store", "store.in_memory")] policies
        (by decide) (by decide)

/-- The run of the profile with the builtin providers. -/
def demoRun (policies : Dict) : IngestProg Unit Json (IngestReport Json) :=
  @runIngest Unit Json ⟨id⟩ jsonObjects ⟨fun _ => "", fun _ => .ok ∅, fun _ => .ok []⟩ Json.str 2
      (.profile (completeProfile policies))
    none

end DatasourceKit

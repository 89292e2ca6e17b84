/-
  Ingest reports and their completeness (`report.py`, `completeness.py`).

  A report passes its fields on as they are; only `list`, the ratio of a completeness and the
  layers that are read back compute anything.

  * `LayerCoverage`, `CompletenessReport`, `IngestReport`, each with its `asDict`;
    `CompletenessReport.ratio`, which a quotient beyond all floats makes raise;
  * `normalizeLayer`, `CompletenessReport.fromDict`, `IngestReport.fromDict`: the readers;
  * `report_round_trip_iff`: a report comes back, directly and by JSON, exactly where its ratio is
    finite and its integers have texts.
-/
import Mathlib.Algebra.Order.Group.Unbundled.Int
import DatasourceKit.Codec

namespace DatasourceKit
namespace Report

open JsonText

/-- What reading or writing a report raises. -/
inductive ReportExc where
  | exc (e : Exc)
  | attribute                 -- AttributeError
  | validation (layer : String)   -- ValidationError: invalid layer coverage

/-- From here on a quotient is beyond all floats. -/
def floatOverflow : ℤ := (2 ^ 1024 - 2 ^ 970 : ℕ)

/-- What reports use of numbers and texts. -/
class ReportHost extends FloatCodec where
  /-- `version("datasource-kit")`. -/
  kitVersion : String
  /-- The float that is nearest to the quotient. -/
  trueDiv : ℤ → ℤ → ℚ
  isFloat_trueDiv : ∀ {a b}, b ≠ 0 → |a| < floatOverflow * |b| → IsFloat (trueDiv a b)
  /-- `v / w`, where one of them is no integer. -/
  divide : Json → Json → Except ReportExc Json
  /-- `str(v)` of what is no string. -/
  strOf : Json → String

/-- `d.get(k, default)`. -/
def getOr (d : List (String × Json)) (k : String) (default : Json) :
    Json := (d.lookup k).getD default

/-- `list(v)`. -/
def pyList : Json → Except ReportExc Json
  | .arr l => .ok (.arr l)
  | .str s => .ok (.arr (s.toList.map fun c => .str (String.singleton c)))
  | .obj l => .ok (.arr (l.map fun e => .str e.1))
  | _ => .error (.exc .typeError)

/-! ## Completeness -/

structure LayerCoverage where
  layer : String
  truthCount : ℤ
  presentCount : ℤ

namespace LayerCoverage

def missingCount (c : LayerCoverage) : ℤ := max (c.truthCount - c.presentCount) 0

def asDict (c : LayerCoverage) : List (String × Json) :=
  [("layer", .str c.layer), ("truth_count", .int c.truthCount),
    ("present_count", .int c.presentCount), ("missing_count", .int c.missingCount)]

end LayerCoverage

/-- A `dict[str, LayerCoverage]`. -/
structure Layers where
  members : List (String × LayerCoverage)
  nodup : (members.map Prod.fst).Nodup

/-- The layers of these pairs. -/
def Layers.ofPairs (pairs : List (String × LayerCoverage)) :
    Layers := ⟨dictOf pairs, nodup_dictOf pairs⟩

theorem Layers.ofPairs_members (l : Layers) : .ofPairs l.members = l := by
  cases l with
  | mk members nodup => simp only [ofPairs, dictOf_eq nodup]

/-- The counts are what the caller gives. -/
structure CompletenessReport where
  layers : Layers
  present : Json
  truth : Json

section
variable [ReportHost]

/-- What `__post_init__` makes of a layer. -/
def normalizeLayer (name : String) (value : Json) : Except ReportExc LayerCoverage :=
  match value.asInt with
  | some n => .ok ⟨name, n, n⟩
  | none =>
    match value with
    | .obj l => do
      let truth ← (pyInt (getOr l "truth_count" (getOr l "truth" (.int 0)))).mapError .exc
      let present ← (pyInt (getOr l "present_count" (getOr l "present" (.int 0)))).mapError .exc
      let layer := match getOr l "layer" (.str name) with
        | .str s => s
        | v => ReportHost.strOf v
      return ⟨layer, truth, present⟩
    | _ => .error (.validation name)

namespace CompletenessReport

/-- `self.ratio`. -/
def ratio (c : CompletenessReport) : Except ReportExc Json :=
  if c.truth.eqInt 0 then .ok .null
  else match c.present.asInt, c.truth.asInt with
    | some a, some b =>
      if |a| < floatOverflow * |b| then .ok (.float (ReportHost.trueDiv a b))
        else .error (.exc .overflow)
    | _, _ => ReportHost.divide c.present c.truth

def asDict (c : CompletenessReport) : Except ReportExc (List (String × Json)) :=
  c.ratio.map fun ratio =>
    [("layers", .obj (c.layers.members.map fun e => (e.1, .obj e.2.asDict))),
      ("present", c.present), ("truth", c.truth), ("ratio", ratio)]

/-- `CompletenessReport.from_dict(d)`. -/
def fromDict (d : List (String × Json)) : Except ReportExc CompletenessReport :=
  match getOr d "layers" (.obj []) with
  | .obj l => (l.mapM fun e => (normalizeLayer e.1 e.2).map fun c => (e.1, c)).map fun pairs =>
      ⟨.ofPairs pairs, getOr d "present" (.int 0), getOr d "truth" (.int 0)⟩
  | _ => .error .attribute

end CompletenessReport

/-! ## Reports -/

structure IngestReport where
  sourceName : Json
  status : Json
  windows : Json
  windowsProcessed : Json
  recordsFetched : Json
  diff : Json
  completeness : Option CompletenessReport
  retriesUsed : Json
  rateLimitWaits : Json
  warnings : Json
  sourceDigest : Json
  kitVersion : Json

namespace IngestReport

/-- `self.completeness.as_dict() if self.completeness is not None else None`. -/
def completenessValue (r : IngestReport) : Except ReportExc Json :=
  match r.completeness with
  | some c => c.asDict.map .obj
  | none => .ok .null

/-- `report.as_dict()`. -/
def asDict (r : IngestReport) : Except ReportExc (List (String × Json)) := do
  let completeness ← r.completenessValue
  let windows ← pyList r.windows
  let warnings ← pyList r.warnings
  return [("source", r.sourceName), ("source_name", r.sourceName), ("status", r.status),
    ("windows", windows), ("windows_processed", r.windowsProcessed),
    ("records_fetched", r.recordsFetched), ("diff", r.diff), ("completeness", completeness),
    ("retries_used", r.retriesUsed), ("rate_limit_waits", r.rateLimitWaits), ("warnings", warnings),
    ("source_digest", r.sourceDigest), ("kit_version", r.kitVersion)]

/-- The completeness of a raw value. -/
def readCompleteness : Json → Except ReportExc (Option CompletenessReport)
  | .null => .ok none
  | .obj l => (CompletenessReport.fromDict l).map some
  | _ => .error .attribute

/-- `IngestReport.from_dict(d)`. -/
def fromDict (d : List (String × Json)) : Except ReportExc IngestReport := do
  let completeness ← readCompleteness (getOr d "completeness" (.obj []))
  return {
    sourceName := getOr d "source_name" (getOr d "source" (.str ""))
    status := getOr d "status" (.str "ok")
    windows := getOr d "windows" (.arr [])
    windowsProcessed := getOr d "windows_processed" (.int 0)
    recordsFetched := getOr d "records_fetched" (.int 0)
    diff := getOr d "diff" (.obj [])
    completeness := completeness
    retriesUsed := getOr d "retries_used" (.int 0)
    rateLimitWaits := getOr d "rate_limit_waits" (.int 0)
    warnings := getOr d "warnings" (.arr [])
    sourceDigest := getOr d "source_digest" (.str "")
    kitVersion := getOr d "kit_version" (.str ReportHost.kitVersion) }

end IngestReport

/-- `json.dumps(d, ...)`, without `sort_keys`. -/
def dumpsReport (st : JsonStyle) (d : List (String × Json)) : Except ReportExc (List Char) :=
  if Json.digitsOkObj d then .ok ((Json.obj d).render st 0)
  else .error (.exc (.valueError "Exceeds the limit for integer string conversion"))

/-- `save_json`: `indent=2, ensure_ascii=False`. -/
def reportStyle : JsonStyle := ⟨false, [','], [':', ' '], some 2⟩

/-! ## What is written is read -/

theorem normalizeLayer_asDict (name : String) (c : LayerCoverage) :
    normalizeLayer name (.obj c.asDict) = .ok c :=
  rfl

theorem mapM_normalizeLayer (l : List (String × LayerCoverage)) :
    ((l.map fun e => (e.1, Json.obj e.2.asDict)).mapM fun e =>
      (normalizeLayer e.1 e.2).map fun c => (e.1, c)) = .ok l := by
  induction l with
  | nil => rfl
  | cons e l ih =>
    rw [List.map_cons, List.mapM_cons, normalizeLayer_asDict, ih]
    rfl

/-- **A completeness comes back**, if `as_dict` does not raise. -/
theorem CompletenessReport.fromDict_asDict {c : CompletenessReport} {d : List (String × Json)}
    (h : c.asDict = .ok d) :
    fromDict d = .ok c := by
  unfold asDict at h
  rcases hratio : c.ratio with e | v
  · rw [hratio] at h
    cases h
  rw [hratio] at h
  cases h
  have hread := mapM_normalizeLayer c.layers.members
  show (((c.layers.members.map fun e => (e.1, Json.obj e.2.asDict)).mapM fun e =>
    (normalizeLayer e.1 e.2).map fun c => (e.1, c)).map fun pairs =>
      (⟨.ofPairs pairs, c.present, c.truth⟩ : CompletenessReport)) = _
  rw [hread]
  simp only [Except.map, Layers.ofPairs_members]

namespace IngestReport
variable {r : IngestReport} {d : List (String × Json)}

/-- What `as_dict` gives, where the windows and the warnings are lists. -/
def members (r : IngestReport) (completeness : Json) : List (String × Json) :=
  [("source", r.sourceName), ("source_name", r.sourceName), ("status", r.status),
    ("windows", r.windows), ("windows_processed", r.windowsProcessed),
    ("records_fetched", r.recordsFetched), ("diff", r.diff), ("completeness", completeness),
    ("retries_used", r.retriesUsed), ("rate_limit_waits", r.rateLimitWaits),
    ("warnings", r.warnings), ("source_digest", r.sourceDigest), ("kit_version", r.kitVersion)]

/-- The windows and the warnings are lists, and the counts are integers. -/
structure Typed (r : IngestReport) : Prop where
  windows : ∃ l, r.windows = .arr l
  warnings : ∃ l, r.warnings = .arr l
  counts : ∀ c, r.completeness = some c → ∃ a b, c.present = .int a ∧ c.truth = .int b

theorem asDict_eq (ht : r.Typed) : r.asDict = r.completenessValue.map r.members := by
  obtain ⟨⟨l, hl⟩, ⟨m, hm⟩, -⟩ := ht
  unfold asDict
  rw [hl, hm]
  cases r.completenessValue with
  | error e => rfl
  | ok v =>
    show _ = Except.ok (r.members v)
    rw [members, hl, hm]
    rfl

/-- A ratio that raises makes `as_dict` raise. -/
theorem asDict_of_ratio {c : CompletenessReport} {e : ReportExc} (hc : r.completeness = some c)
    (h : c.ratio = .error e) :
    r.asDict = .error e := by
  have hvalue : r.completenessValue = .error e := by
    simp only [completenessValue, hc, CompletenessReport.asDict, h]
    rfl
  rw [asDict, hvalue]
  rfl

theorem readCompleteness_value {v : Json} (h : r.completenessValue = .ok v) :
    readCompleteness v = .ok r.completeness := by
  unfold completenessValue at h
  split at h
  · rename_i c hc
    rcases hd : c.asDict with e | d
    · rw [hd] at h
      cases h
    · rw [hd] at h
      cases h
      rw [readCompleteness, CompletenessReport.fromDict_asDict hd, hc]
      rfl
  · rename_i hc
    cases h
    rw [hc]
    rfl

/-- **A report comes back from its mapping.** -/
theorem fromDict_members {v : Json} (h : r.completenessValue = .ok v) :
    fromDict (r.members v) = .ok r := by
  have hvalue : fromDict (r.members v) = (readCompleteness v).bind fun completeness =>
    .ok { r with completeness := completeness } := rfl
  rw [hvalue, readCompleteness_value h]
  rfl

/-! ## Where a report comes back -/

/-- The ratio is a float, or there is none: `present / truth` does not raise. -/
def RatioFinite (r : IngestReport) : Prop :=
  ∀ c a b, r.completeness = some c → c.present = .int a → c.truth = .int b →
    b = 0 ∨ |a| < floatOverflow * |b|

/-- `as_dict` does not raise. -/
theorem completenessValue_ok_iff (ht : r.Typed) :
    (∃ v, r.completenessValue = .ok v) ↔ r.RatioFinite := by
  unfold completenessValue RatioFinite
  cases hc : r.completeness with
  | none => simp
  | some c =>
    obtain ⟨a, b, ha, hb⟩ := ht.counts c hc
    have hvalue : (∃ v, c.asDict.map Json.obj = .ok v) ↔ ∃ v, c.ratio = .ok v := by
      unfold CompletenessReport.asDict
      cases c.ratio with
      | error e => simp [Except.map]
      | ok v => simp [Except.map]
    have hratio : (∃ v, c.ratio = .ok v) ↔ b = 0 ∨ |a| < floatOverflow * |b| := by
      unfold CompletenessReport.ratio
      rw [ha, hb]
      simp only [Json.eqInt, Json.asInt, beq_iff_eq]
      split_ifs with hzero hfinite
      · simp [hzero]
      · simp [hfinite]
      · simp [hzero, hfinite]
    show (∃ v, c.asDict.map Json.obj = .ok v) ↔ _
    rw [hvalue, hratio]
    constructor
    · rintro h c' a' b' heq ha' hb'
      cases heq
      cases ha.symm.trans ha'
      cases hb.symm.trans hb'
      exact h
    · exact fun h => h c a b rfl ha hb

/-- The fields that are passed on as they are. -/
def fields (r : IngestReport) : List Json :=
  [r.sourceName, r.status, r.windows, r.windowsProcessed, r.recordsFetched, r.diff, r.retriesUsed,
    r.rateLimitWaits, r.warnings, r.sourceDigest, r.kitVersion]

/-- The fields hold JSON values. -/
def Proper (r : IngestReport) : Prop := ∀ v ∈ r.fields, v.Proper

/-- No integer of the report, and no missing count, has more digits than `int` converts to text. -/
structure DigitsOk (r : IngestReport) : Prop where
  fields : ∀ v ∈ r.fields, v.digitsOk = true
  counts : ∀ c, r.completeness = some c → c.present.digitsOk = true ∧ c.truth.digitsOk = true
  layers : ∀ c, r.completeness = some c → ∀ e ∈ c.layers.members, Json.digitsOkObj e.2.asDict = true

/-- The report comes back, directly and by JSON. -/
def RoundTrips (r : IngestReport) : Prop :=
  ∃ d, r.asDict = .ok d ∧ fromDict d = .ok r ∧ ∀ st : JsonStyle, st.Plain →
    ∃ text raw, dumpsReport st d = .ok text ∧ readText text = .ok (.obj raw) ∧ fromDict raw = .ok r

omit [ReportHost] in
theorem digitsOk_members (v : Json) :
    Json.digitsOkObj (r.members v) = true ↔ (∀ v ∈ r.fields, v.digitsOk = true) ∧
    v.digitsOk = true := by
  rw [digitsOkObj_iff]
  simp only [members, fields, List.forall_mem_cons]
  tauto

/-- What the completeness is written as: its layers, its counts, and a ratio that is a float. -/
theorem completenessValue_cases {v : Json} (ht : r.Typed) (h : r.completenessValue = .ok v) :
    (r.completeness = none ∧ v = .null) ∨ ∃ c ratio, r.completeness = some c ∧
    ratio.digitsOk = true ∧ ratio.Proper ∧
    v = .obj [("layers", .obj (c.layers.members.map fun e => (e.1, .obj e.2.asDict))),
      ("present", c.present), ("truth", c.truth), ("ratio", ratio)] := by
  unfold completenessValue at h
  cases hc : r.completeness with
  | none =>
    rw [hc] at h
    cases h
    exact .inl ⟨rfl, rfl⟩
  | some c =>
    obtain ⟨a, b, ha, hb⟩ := ht.counts c hc
    simp only [hc, CompletenessReport.asDict] at h
    rcases hratio : c.ratio with e | ratio
    · rw [hratio] at h
      cases h
    rw [hratio] at h
    cases h
    have hfloat : ratio.digitsOk = true ∧ ratio.Proper := by
      unfold CompletenessReport.ratio at hratio
      rw [ha, hb] at hratio
      simp only [Json.eqInt, Json.asInt, beq_iff_eq] at hratio
      split_ifs at hratio with hzero hfinite
      · cases hratio
        exact ⟨rfl, trivial⟩
      · cases hratio
        exact ⟨rfl, ReportHost.isFloat_trueDiv hzero hfinite⟩
    exact .inr ⟨c, ratio, rfl, hfloat.1, hfloat.2, rfl⟩

theorem digitsOk_completenessValue {v : Json} (ht : r.Typed) (h : r.completenessValue = .ok v) :
    v.digitsOk = true ↔ (∀ c, r.completeness = some c →
      c.present.digitsOk = true ∧ c.truth.digitsOk = true) ∧
      ∀ c, r.completeness = some c → ∀ e ∈ c.layers.members,
      Json.digitsOkObj e.2.asDict = true := by
  rcases completenessValue_cases ht h with ⟨hnone, rfl⟩ | ⟨c, ratio, hc, hratio, -, rfl⟩
  · simp [hnone, Json.digitsOk]
  · have hlayers : (Json.obj (c.layers.members.map fun e => (e.1, .obj e.2.asDict))).digitsOk =
        true ↔ ∀ e ∈ c.layers.members, Json.digitsOkObj e.2.asDict = true := by
      rw [Json.digitsOk, digitsOkObj_iff, List.forall_mem_map]
      exact Iff.rfl
    rw [Json.digitsOk, digitsOkObj_iff]
    simp only [List.forall_mem_cons, hlayers, hratio, hc, Option.some.injEq]
    constructor
    · rintro ⟨hl, hp, htruth, -⟩
      exact ⟨fun c' heq => heq ▸ ⟨hp, htruth⟩, fun c' heq => heq ▸ hl⟩
    · rintro ⟨hcounts, hl⟩
      exact ⟨hl c rfl, (hcounts c rfl).1, (hcounts c rfl).2, trivial, by simp⟩

theorem proper_completenessValue {v : Json} (ht : r.Typed) (h : r.completenessValue = .ok v) :
    v.Proper := by
  rcases completenessValue_cases ht h with ⟨-, rfl⟩ | ⟨c, ratio, hc, -, hratio, rfl⟩
  · trivial
  · obtain ⟨a, b, ha, hb⟩ := ht.counts c hc
    have hkeys : ((c.layers.members.map fun e => (e.1, Json.obj e.2.asDict)).map
        Prod.fst).Nodup := by
      rw [List.map_map]
      exact c.layers.nodup
    refine ⟨by simp, ⟨hkeys, properMembers_iff.2 fun e he => ?_⟩, ?_⟩
    · obtain ⟨x, -, rfl⟩ := List.mem_map.1 he
      exact ⟨by simp [LayerCoverage.asDict], trivial, trivial, trivial, trivial, trivial⟩
    · rw [ha, hb]
      exact ⟨trivial, trivial, hratio, trivial⟩

theorem proper_members {v : Json} (hp : r.Proper) (hv : v.Proper) :
    (Json.obj (r.members v)).Proper := by
  refine ⟨by simp [members], ?_⟩
  rw [properMembers_iff]
  simp only [members, Proper, fields, List.forall_mem_cons] at hp ⊢
  tauto

/-- A report comes back if its completeness can be written and its integers have texts. -/
theorem roundTrips_iff (ht : r.Typed) (hp : r.Proper) :
    r.RoundTrips ↔ (∃ v, r.completenessValue = .ok v) ∧ r.DigitsOk := by
  constructor
  · rintro ⟨d, hd, -, hjson⟩
    rw [asDict_eq ht] at hd
    rcases hv : r.completenessValue with e | v
    · rw [hv] at hd
      cases hd
    rw [hv] at hd
    cases hd
    obtain ⟨text, raw, htext, -, -⟩ :=
      hjson reportStyle ⟨⟨[], rfl, by simp⟩, ⟨[' '], rfl, List.forall_mem_singleton.2 rfl⟩⟩
    unfold dumpsReport at htext
    split_ifs at htext with hdigits
    obtain ⟨hfields, hvalue⟩ := (digitsOk_members v).1 hdigits
    obtain ⟨hcounts, hlayers⟩ := (digitsOk_completenessValue ht hv).1 hvalue
    exact ⟨⟨v, rfl⟩, hfields, hcounts, hlayers⟩
  · rintro ⟨⟨v, hv⟩, hdigits⟩
    have hread := fromDict_members hv
    refine ⟨r.members v, by rw [asDict_eq ht, hv]; rfl, hread, fun st hst => ?_⟩
    have hok : Json.digitsOkObj (r.members v) = true := (digitsOk_members v).2
      ⟨hdigits.fields, (digitsOk_completenessValue ht hv).2 ⟨hdigits.counts, hdigits.layers⟩⟩
    refine ⟨_, r.members v, if_pos hok, readText_render hst ?_ hok, hread⟩
    exact proper_members hp (proper_completenessValue ht hv)

end IngestReport

/-- **The report round trip**: a report of JSON values comes back, from its mapping and from the
    JSON text of it, exactly if its ratio is no quotient beyond all floats and its integers are
    not too long to be converted. -/
theorem report_round_trip_iff {r : IngestReport} (ht : r.Typed) (hp : r.Proper) :
    r.RoundTrips ↔ r.RatioFinite ∧ r.DigitsOk := by
  rw [IngestReport.roundTrips_iff ht hp, IngestReport.completenessValue_ok_iff ht]

end

/-! ### Reports that come back, and one that does not -/

/-- The quotient of equal numbers. -/
@[reducible]
def unitRatio : ReportHost where
  toFloatCodec := oneFloat
  kitVersion := "0.15.0"
  trueDiv _ _ := 1
  isFloat_trueDiv _ _ := rfl
  divide _ _ := .error (.exc .typeError)
  strOf _ := ""

/-- A report with this completeness, and the fields of a report that has just been made. -/
def reportOf (c : CompletenessReport) : IngestReport :=
  ⟨.str "source", .str "ok", .arr [.obj [("page", .int 1)]], .int 1, .int 3, .obj [], some c,
    .int 0, .float 1, .arr [], .str "", .str "0.15.0"⟩

/-- A layer whose name differs from its key. -/
def samplesLayer : Layers := ⟨[("rows", ⟨"records", 4, 3⟩)], by decide⟩

theorem reportOf_typed (c : CompletenessReport) {a b : ℤ} (ha : c.present = .int a)
    (hb : c.truth = .int b) :
    (reportOf c).Typed := by
  refine ⟨⟨_, rfl⟩, ⟨_, rfl⟩, fun c' hc => ?_⟩
  cases hc
  exact ⟨a, b, ha, hb⟩

theorem reportOf_proper (c : CompletenessReport) : @IngestReport.Proper unitRatio (reportOf c) := by
  simp only [IngestReport.Proper, IngestReport.fields, reportOf, List.forall_mem_cons]
  exact ⟨trivial, trivial, ⟨⟨by decide, trivial, trivial⟩, trivial⟩, trivial, trivial,
    ⟨by decide, trivial⟩, trivial, rfl, trivial, trivial, trivial, by simp⟩

theorem report_round_trip_equal :
    @IngestReport.RoundTrips unitRatio (reportOf ⟨samplesLayer, .int 3, .int 3⟩) := by
  refine (@report_round_trip_iff unitRatio _ (reportOf_typed _ rfl rfl) (reportOf_proper _)).2
    ⟨?_, ?_, ?_, ?_⟩
  · rintro c a b hc ha hb
    cases hc
    cases ha
    cases hb
    exact .inr (by decide +kernel)
  · decide
  · rintro c hc
    cases hc
    decide
  · rintro c hc
    cases hc
    decide

/-- A completeness whose quotient is beyond all floats. -/
def hugeRatio : CompletenessReport := ⟨samplesLayer, .int (2 ^ 1024 : ℕ), .int 1⟩

/-- `as_dict` raises an `OverflowError`. -/
theorem huge_ratio_raises : (reportOf hugeRatio).Typed ∧
    @IngestReport.Proper unitRatio (reportOf hugeRatio) ∧
    @IngestReport.asDict unitRatio (reportOf hugeRatio) = .error (.exc .overflow) ∧
    ¬@IngestReport.RoundTrips unitRatio (reportOf hugeRatio) := by
  let _ : ReportHost := unitRatio
  have hbeyond : ¬|((2 ^ 1024 : ℕ) : ℤ)| < floatOverflow * |1| := by decide +kernel
  have hratio : hugeRatio.ratio = .error (.exc .overflow) := by
    unfold CompletenessReport.ratio
    rw [if_neg (by decide)]
    exact if_neg hbeyond
  have hraise := IngestReport.asDict_of_ratio (r := reportOf hugeRatio) rfl hratio
  refine ⟨reportOf_typed _ rfl rfl, reportOf_proper _, hraise, ?_⟩
  rintro ⟨d, hd, -⟩
  exact absurd (hraise.symm.trans hd) (by simp)

end Report
end DatasourceKit

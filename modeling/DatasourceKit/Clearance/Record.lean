/-
  The records of a legacy clearance, and the requests they are about.

  * `compactStyle`, `objectText`: `json.dumps(…, sort_keys=True, separators=(",", ":"))`;
  * `Json.pyEq`, `Dict.pyEq`: `==` between parsed values;
  * `ClearanceHost`: the functions of the standard library that a clearance calls, with what
    `json.loads` makes of a record;
  * `ClearArgs.validate`: the checks of the arguments.  A `ClearRequest` carries what they
    establish;
  * `indexFields`, `intentRecord`, `completionRecord`: the records of a request, and the
    names of their files;
  * `isTmp`, `isTmpName`, `safeInternalBasename`: the names a clearance knows its files by.
-/
import Mathlib.Data.String.Basic
import DatasourceKit.Encode

namespace DatasourceKit

abbrev Bytes := List UInt8

/-! ## JSON text -/

/-- The byte of an ASCII character. -/
def charByte (c : Char) : UInt8 := c.toNat.toUInt8

/-- The code points of an ASCII string. -/
def ascii (s : String) : Bytes := s.toList.map charByte

/-- `json.dumps(…, separators=(",", ":"))`. -/
def compactStyle : JsonStyle := ⟨true, [','], [':'], none⟩

/-- A JSON string. -/
def stringText (s : String) : Bytes := (compactStyle.quote s).map charByte

section
variable [FloatText]

/-- The text of an object. -/
def objectText (d : Dict) : Bytes :=
  ((Json.obj d.members).sorted.render compactStyle 0).map charByte

/-- `json.dumps(d, sort_keys=True, separators=(",", ":")).encode()`. -/
def dumpsSorted (d : Dict) : Except Exc Bytes := (dumps d).map objectText

theorem dumpsSorted_ok {d : Dict} {raw : Bytes} (h : dumpsSorted d = .ok raw) :
    dumps d = .ok d ∧ raw = objectText d := by
  unfold dumpsSorted at h
  rcases hd : dumps d with e | d'
  · rw [hd] at h
    cases h
  · rw [hd] at h
    cases h
    exact ⟨by rw [dumps_ok hd], by rw [dumps_ok hd]⟩

/-- The text of an object does not depend on the order of its members. -/
theorem objectText_perm {d e : Dict} (h : d.entries.Perm e.entries) :
    objectText d = objectText e := by
  have hsorted : (Json.obj d.members).sorted = (Json.obj e.members).sorted := by
    rw [Json.sorted, Json.sorted, sortedMembers_eq, sortedMembers_eq]
    refine congrArg _ (sortMembers_perm ((h.map _).map _) ?_)
    rw [List.map_map]
    exact d.nodup_members
  rw [objectText, objectText, hsorted]

theorem dumpsSorted_perm {d e : Dict} {text : Bytes} (h : d.entries.Perm e.entries)
    (hd : dumpsSorted d = .ok text) :
    dumpsSorted e = .ok text := by
  obtain ⟨hdumps, rfl⟩ := dumpsSorted_ok hd
  have he : dumps e = .ok e := by
    unfold dumps at hdumps ⊢
    rw [← digitsOkObj_perm (h.map fun x => (x.1, x.2))]
    split_ifs at hdumps ⊢
    rfl
  rw [dumpsSorted, he, objectText_perm h]
  rfl

end

/-! ## Equality of parsed values -/

/-- The number a value is, for `==`. -/
def Json.numeric : Json → Option ℚ
  | .int n => some n
  | .bool b => some b.toInt
  | .float q => some q
  | _ => none

mutual

/-- `v == w`, or the same object: where a `nan` meets a `nan` here, it is itself. -/
def Json.pyEq : Json → Json → Bool
  | .null, .null => true
  | .nan, .nan => true
  | .infinity a, .infinity b => a == b
  | .str s, .str t => s == t
  | .arr l, .arr m => Json.pyEqList l m
  | .obj l, .obj m => l.length == m.length && Json.pyEqObj l m
  | v, w => v.numeric.isSome && v.numeric == w.numeric

def Json.pyEqList : List Json → List Json → Bool
  | [], [] => true
  | v :: l, w :: m => v.pyEq w && Json.pyEqList l m
  | _, _ => false

def Json.pyEqObj : List (String × Json) → List (String × Json) → Bool
  | [], _ => true
  | (k, v) :: l, m => (m.lookup k).any v.pyEq && Json.pyEqObj l m

end

/-- `d == e`. -/
def Dict.pyEq (d e : Dict) : Bool :=
  d.entries.length == e.entries.length && d.entries.all fun x => (e.lookup x.1).any x.2.pyEq

/-- A string, an integer or a `bool`. -/
def Json.Plain : Json → Prop
  | .str _ | .int _ | .bool _ => True
  | _ => False

theorem Json.pyEq_self {v : Json} (h : v.Plain) : v.pyEq v = true := by
  cases v <;> simp_all [Json.pyEq, Json.Plain, Json.numeric]

/-- Objects with the same members are equal. -/
theorem Dict.pyEq_perm {d e : Dict} (h : d.entries.Perm e.entries)
    (hd : ∀ x ∈ d.entries, x.2.Plain) :
    d.pyEq e = true := by
  rw [Dict.pyEq, Bool.and_eq_true, List.all_eq_true]
  refine ⟨by simp [h.length_eq], fun x hx => ?_⟩
  have hlookup : e.lookup x.1 = some x.2 := AList.mem_lookup_iff.2 (h.subset hx)
  rw [hlookup]
  exact Json.pyEq_self (hd x hx)

theorem Dict.get_perm {d e : Dict} (h : d.entries.Perm e.entries) (k : String) :
    d.get k = e.get k := by
  rw [Dict.get, Dict.get, AList.perm_lookup h]

/-! ## The host -/

/-- What a clearance uses of the standard library and the operating system. -/
class ClearanceHost extends FloatText where
  /-- `os.geteuid()`. -/
  euid : ℕ
  repr : PyVal → String
  /-- `hashlib.sha256(raw).hexdigest()`. -/
  sha256 : Bytes → String
  /-- `json.loads(raw)`. -/
  loads : Bytes → Content
  /-- What `json.dumps` has written, `json.loads` reads. -/
  loads_dumps : ∀ {d : Dict} {raw : Bytes}, (∀ x ∈ d.entries, x.2.Plain) → dumpsSorted d = .ok raw →
    ∃ e, loads (raw ++ [0x0A]) = .doc e ∧ e.entries.Perm d.entries

/-! ## Names -/

def pidFile : String := "pid.json"
def lockFile : String := ".process.lock"
def auditDirName : String := "legacy-process-clearance.audit.d"

/-- `s.startswith(p)`. -/
def startsWith (s p : String) : Bool := p.toList.isPrefixOf s.toList

/-- `s.endswith(p)`. -/
def endsWith (s p : String) : Bool := p.toList.isSuffixOf s.toList

/-- Every character is a lowercase hexadecimal digit. -/
def isHex (l : List Char) : Bool := l.all ("0123456789abcdef".toList.contains ·)

/-- A lowercase SHA-256 digest. -/
def isDigest (s : String) : Bool := s.length == 64 && isHex s.toList

/-- The name of a temporary file. -/
def isTmp (name : String) : Bool := startsWith name ".tmp-"

/-- The names among which the further link of a record is looked for. -/
def isTmpName (name : String) : Bool :=
  name.length == 37 && startsWith name ".tmp-" && isHex (name.toList.drop 5)

def tmpName (u : String) : String := ".tmp-" ++ u
def intentName (op : String) : String := "intent-" ++ op ++ ".json"
def completeName (op : String) : String := "complete-" ++ op ++ ".json"
def quarantineName (sha u : String) : String := ".legacy-pid." ++ sha ++ "." ++ u ++ ".quarantine"

/-- `_safe_internal_basename`. -/
def safeInternalBasename (name : Json) (pre suf : String) : Except Exc String :=
  match name with
  | .str s =>
    if s.length > 255 || !startsWith s pre || !endsWith s suf || s == "." || s == ".." ||
        s.toList.contains '/' then
      .error (.tombstone "invalid internal clearance artifact name")
    else .ok s
  | _ => .error (.tombstone "invalid internal clearance artifact name")

/-- The name of a quarantine. -/
def safeQuarantine (name : Json) : Except Exc String :=
  safeInternalBasename name ".legacy-pid." ".quarantine"

section
variable {s t : String}

theorem startsWith_append (s t : String) : startsWith (s ++ t) s = true := by
  simp [startsWith]

/-- A string starts with one of two prefixes that differ. -/
theorem not_startsWith {p q : String} (hp : startsWith s p = true)
    (hne : p.toList.isPrefixOf q.toList = false ∧ q.toList.isPrefixOf p.toList = false) :
    startsWith s q = false := by
  rw [Bool.eq_false_iff]
  intro hq
  rcases List.prefix_or_prefix_of_prefix (List.isPrefixOf_iff_prefix.1 hp)
    (List.isPrefixOf_iff_prefix.1 hq) with h | h
  · simp [List.isPrefixOf_iff_prefix.2 h] at hne
  · simp [List.isPrefixOf_iff_prefix.2 h] at hne

theorem isTmp_of_isTmpName (h : isTmpName s = true) : isTmp s = true := by
  simp only [isTmpName, Bool.and_eq_true] at h
  exact h.1.2

@[simp] theorem isTmp_tmpName (u : String) : isTmp (tmpName u) = true := startsWith_append _ _

theorem isTmpName_tmpName {u : String} (hlen : u.length = 32) (hu : isHex u.toList = true) :
    isTmpName (tmpName u) = true := by
  have hdrop : (tmpName u).toList.drop 5 = u.toList := by simp [tmpName]
  have hlength : (tmpName u).length = 37 := by simp [tmpName, hlen]; rfl
  have hstart : startsWith (tmpName u) ".tmp-" = true := startsWith_append _ _
  rw [isTmpName, hlength, hstart, hdrop, hu]
  rfl

@[simp] theorem isTmp_pidFile : isTmp pidFile = false := by decide
@[simp] theorem isTmp_lockFile : isTmp lockFile = false := by decide
@[simp] theorem isTmp_auditDirName : isTmp auditDirName = false := by decide

theorem startsWith_intentName (op : String) : startsWith (intentName op) "intent-" = true := by
  rw [intentName, String.append_assoc]
  exact startsWith_append _ _

theorem startsWith_completeName (op : String) :
    startsWith (completeName op) "complete-" = true := by
  rw [completeName, String.append_assoc]
  exact startsWith_append _ _

theorem intentName_ne (op : String) (h : startsWith t "intent-" = false) : intentName op ≠ t := by
  rintro rfl
  rw [startsWith_intentName] at h
  cases h

theorem completeName_ne (op : String) (h : startsWith t "complete-" = false) :
    completeName op ≠ t := by
  rintro rfl
  rw [startsWith_completeName] at h
  cases h

@[simp] theorem isTmp_intentName (op : String) : isTmp (intentName op) = false :=
  not_startsWith (startsWith_intentName op) (by decide)

@[simp] theorem isTmp_completeName (op : String) : isTmp (completeName op) = false :=
  not_startsWith (startsWith_completeName op) (by decide)

theorem intentName_inj {op op' : String} : intentName op = intentName op' ↔ op = op' := by
  simp [intentName]

theorem completeName_inj {op op' : String} : completeName op = completeName op' ↔ op = op' := by
  simp [completeName]

theorem intentName_ne_completeName (op op' : String) : intentName op ≠ completeName op' :=
  intentName_ne op (not_startsWith (startsWith_completeName op') (by decide))

/-- The shape of a quarantine's name. -/
def IsQuarantine (name : String) : Prop := startsWith name ".legacy-pid." = true

theorem safeQuarantine_eq_ok {v : Json} (h : safeQuarantine v = .ok s) :
    v = .str s ∧ IsQuarantine s := by
  unfold safeQuarantine safeInternalBasename at h
  split at h
  · split_ifs at h with hbad
    cases h
    simp only [Bool.or_eq_true, not_or] at hbad
    have hstart : startsWith s ".legacy-pid." = true := by simpa using hbad.1.1.1.1.2
    exact ⟨rfl, hstart⟩
  · cases h

theorem isQuarantine_quarantineName (sha u : String) : IsQuarantine (quarantineName sha u) := by
  rw [IsQuarantine, quarantineName, String.append_assoc, String.append_assoc, String.append_assoc]
  exact startsWith_append _ _

/-- A hexadecimal digit is no separator. -/
theorem isHex_not_contains {l : List Char} (h : isHex l = true) : '/' ∉ l := by
  intro hmem
  have hdigit : "0123456789abcdef".toList.contains '/' = true := List.all_eq_true.1 h _ hmem
  exact absurd hdigit (by decide)

theorem IsQuarantine.ne (h : IsQuarantine s)
    (ht : startsWith t ".legacy-pid." = false) : s ≠ t := by
  rintro rfl
  exact absurd (h.symm.trans ht) (by decide)

/-- The generated names pass the check of the names. -/
theorem safeQuarantine_quarantineName {sha u : String} (hsha : isDigest sha = true)
    (hlen : u.length = 32) (hu : isHex u.toList = true) :
    safeQuarantine (.str (quarantineName sha u)) = .ok (quarantineName sha u) := by
  rw [isDigest, Bool.and_eq_true, beq_iff_eq] at hsha
  have hq := isQuarantine_quarantineName sha u
  have hlength : (quarantineName sha u).length ≤ 255 := by
    simp only [quarantineName, String.length_append, hsha.1, hlen]
    decide
  have hend : endsWith (quarantineName sha u) ".quarantine" = true := by
    rw [endsWith, quarantineName, String.toList_append, List.isSuffixOf_iff_suffix]
    exact List.suffix_append _ _
  have hsep : '/' ∉ (quarantineName sha u).toList := by
    simp only [quarantineName, String.toList_append, List.mem_append, not_or]
    exact ⟨⟨⟨⟨by decide, isHex_not_contains hsha.2⟩, by decide⟩, isHex_not_contains hu⟩, by decide⟩
  have hstart : startsWith (quarantineName sha u) ".legacy-pid." = true := hq
  simp only [safeQuarantine, safeInternalBasename]
  rw [if_neg]
  simp [hlength, hend, hstart, hsep, hq.ne (t := ".") (by decide), hq.ne (t := "..") (by decide)]

theorem IsQuarantine.isTmp (h : IsQuarantine s) : isTmp s = false := not_startsWith h (by decide)

theorem IsQuarantine.ne_pidFile (h : IsQuarantine s) : s ≠ pidFile := h.ne (by decide)
theorem IsQuarantine.ne_lockFile (h : IsQuarantine s) : s ≠ lockFile := h.ne (by decide)
theorem IsQuarantine.ne_auditDirName (h : IsQuarantine s) : s ≠ auditDirName := h.ne (by decide)

end

/-! ## Requests -/

/-- The arguments of a call. -/
structure ClearArgs where
  unit : PyVal
  generation : PyVal
  expectedSha256 : PyVal
  workloadFullyGoneAsserted : PyVal
  operator : PyVal
  ticket : PyVal

/-- One path component that stays below its directory. -/
def isSafeComponent (s : String) : Bool :=
  s != "" && s != "." && s != ".." && !s.toList.contains '/' && !s.toList.contains (Char.ofNat 0)

/-- Not blank, and at most `limit` bytes. -/
def isBounded (limit : ℕ) (s : String) : Bool := !isBlank s && decide (s.utf8ByteSize ≤ limit)

/-- The arguments of a call that passed its checks. -/
@[ext]
structure ClearRequest where
  unit : String
  generation : ℤ
  expectedSha256 : String
  operator : String
  ticket : String
  unit_safe : isSafeComponent unit = true
  digest : isDigest expectedSha256 = true
  operator_bounded : isBounded 256 operator = true
  ticket_bounded : isBounded 512 ticket = true

section
variable [ClearanceHost]

open ClearanceHost

/-- `_validate_unit`. -/
def validateUnit (v : PyVal) : Except Exc {s : String // isSafeComponent s = true} :=
  let refusal := Exc.valueError ("unit must be one safe path component, got " ++ repr v)
  match v with
  | .str s => if h : isSafeComponent s = true then .ok ⟨s, h⟩ else .error refusal
  | _ => .error refusal

def validateGeneration : PyVal → Except Exc ℤ
  | .int n => .ok n
  | _ => .error (.tombstone "generation must be an integer")

def validateAsserted : PyVal → Except Exc Unit
  | .bool true => .ok ()
  | _ => .error (.tombstone "explicit workload-gone assertion is required")

/-- The check of `operator` and of `ticket`. -/
def validateBounded (label : String) (limit : ℕ) (v : PyVal) :
    Except Exc {s : String // isBounded limit s = true} :=
  let refusal := Exc.tombstone ("nonempty bounded " ++ label ++ " is required")
  match v with
  | .str s => if h : isBounded limit s = true then .ok ⟨s, h⟩ else .error refusal
  | _ => .error refusal

def validateDigest (v : PyVal) : Except Exc {s : String // isDigest s = true} :=
  let refusal := Exc.tombstone "expected_sha256 must be a lowercase SHA-256 digest"
  match v with
  | .str s => if h : isDigest s = true then .ok ⟨s, h⟩ else .error refusal
  | _ => .error refusal

/-- The checks of the arguments, in their order. -/
def ClearArgs.validate (args : ClearArgs) : Except Exc ClearRequest := do
  let unit ← validateUnit args.unit
  let generation ← validateGeneration args.generation
  validateAsserted args.workloadFullyGoneAsserted
  let operator ← validateBounded "operator" 256 args.operator
  let ticket ← validateBounded "ticket" 512 args.ticket
  let digest ← validateDigest args.expectedSha256
  return ⟨unit.1, generation, digest.1, operator.1, ticket.1, unit.2,
    digest.2, operator.2, ticket.2⟩

/-! ## Records -/

namespace ClearRequest
variable (r : ClearRequest)

/-- `index_fields`. -/
def indexFields : Dict := (∅ : Dict).update [("version", .int 2), ("unit", .str r.unit),
  ("generation", .int r.generation), ("operator", .str r.operator), ("ticket", .str r.ticket),
  ("tombstone_sha256", .str r.expectedSha256), ("asserted_workload_fully_gone", .bool true)]

/-- The identity of the operation, which the names of the records show. -/
def opId : String := sha256 (objectText r.indexFields)

/-- The intent with the quarantine `q`. -/
def intentRecord (q : Json) : Dict := r.indexFields.update
  [("event", .str "legacy_tombstone_clearance_intent"),
    ("operation_id", .str r.opId), ("quarantine", q)]

/-- A name that a call for the request makes for a quarantine. -/
def OwnQuarantine (q : String) : Prop :=
  ∃ u : String, u.length = 32 ∧ isHex u.toList = true ∧ q = quarantineName r.expectedSha256 u

omit [ClearanceHost] in
theorem OwnQuarantine.isQuarantine {r : ClearRequest} {q : String} (h : r.OwnQuarantine q) :
    IsQuarantine q := by
  obtain ⟨u, -, -, rfl⟩ := h
  exact isQuarantine_quarantineName _ u

/-- The tombstone's bytes hold tokenless metadata of exactly the unit and the generation. -/
def Matches (raw : Bytes) : Prop :=
  sha256 raw = r.expectedSha256 ∧ ∃ d, loads raw = .doc d ∧ "token" ∉ d ∧
    d.get "unit" = .str r.unit ∧ d.get "generation" = .int r.generation

end ClearRequest

/-- The completion of an intent. -/
def completionRecord (intent : Dict) : Dict :=
  intent.set "event" (.str "legacy_tombstone_clearance_complete")

end

end DatasourceKit

/-
  Python values as the package sees them: JSON documents, the content of a file
  that is read as JSON, and exceptions.

  * `Json`, `Dict`: a parsed JSON value; an object at top level is a finite map
    with distinct keys.  `Dict.get` is `dict.get` (a missing key and `null` are
    both `None`);
  * `Json.asInt` is `isinstance(v, int)` (`bool` included), `Json.eqInt` is
    `v == n`, `pyInt` is `int(v)`;
  * `Content`: what `read_text` and `json.loads` make of the bytes of a file;
  * `PyVal`, `PyDict`: values and mappings of a caller, which JSON may not encode;
    `dumps`, `dumpsWith`: the object a file holds after `json.dumps`, or the error;
  * `readJson`: `read_json` (`fleet/process.py`) over a reading operation.
-/
import Mathlib.Data.List.AList
import Mathlib.Data.Rat.Init
import DatasourceKit.Interleave.Prog

namespace DatasourceKit

open Interleave

/-! ## JSON documents -/

/-- A value `json.loads` returns. -/
inductive Json where
  | null
  | bool (b : Bool)
  | int (n : ℤ)
  | float (q : ℚ)
  | nan
  | infinity (neg : Bool)
  | str (s : String)
  | arr (l : List Json)
  | obj (l : List (String × Json))

/-- A JSON object: a `dict[str, Any]`. -/
abbrev Dict := AList fun _ : String => Json

namespace Dict

/-- `d.get(k)`. -/
def get (d : Dict) (k : String) : Json := (d.lookup k).getD .null

/-- `d[k] = v`. -/
def set (d : Dict) (k : String) (v : Json) : Dict := AList.insert k v d

/-- `d.update(...)`. -/
def update (d : Dict) (l : List (String × Json)) : Dict := l.foldl (fun d p => d.set p.1 p.2) d

/-- `d.setdefault(k, v)`. -/
def setDefault (d : Dict) (k : String) (v : Json) : Dict := if k ∈ d then d else d.set k v

@[simp] theorem get_set_self (d : Dict) (k : String) (v : Json) : (d.set k v).get k = v := by
  simp [get, set]

theorem get_set_ne (d : Dict) {k k' : String} (v : Json) (h : k ≠ k') :
    (d.set k' v).get k = d.get k := by
  simp [get, set, AList.lookup_insert_ne h]

theorem get_update_of_notMem (d : Dict) {k : String} {l : List (String × Json)}
    (h : ∀ p ∈ l, k ≠ p.1) : (d.update l).get k = d.get k := by
  induction l generalizing d with
  | nil => rfl
  | cons p l ih =>
    rw [update, List.foldl_cons, ← update, ih _ fun q hq => h q (List.mem_cons_of_mem _ hq),
      get_set_ne _ _ (h p (List.mem_cons_self ..))]

theorem lookup_set_self (d : Dict) (k : String) (v : Json) : (d.set k v).lookup k = some v := by
  simp [set]

theorem lookup_set_ne (d : Dict) {k k' : String} (v : Json) (h : k ≠ k') :
    (d.set k' v).lookup k = d.lookup k :=
  AList.lookup_insert_ne h

theorem lookup_update_of_notMem (d : Dict) {k : String} {l : List (String × Json)}
    (h : ∀ p ∈ l, k ≠ p.1) :
    (d.update l).lookup k = d.lookup k := by
  induction l generalizing d with
  | nil => rfl
  | cons p l ih =>
    rw [update, List.foldl_cons, ← update, ih _ fun q hq => h q (List.mem_cons_of_mem _ hq),
      lookup_set_ne _ _ (h p (List.mem_cons_self ..))]

theorem lookup_update_of_mem (d : Dict) {k : String} {v : Json} {l : List (String × Json)}
    (hl : (l.map Prod.fst).Nodup) (h : (k, v) ∈ l) : (d.update l).lookup k = some v := by
  induction l generalizing d with
  | nil => cases h
  | cons p l ih =>
    obtain ⟨hp, hl⟩ := List.nodup_cons.1 hl
    rw [update, List.foldl_cons, ← update]
    rcases List.mem_cons.1 h with rfl | h
    · rw [lookup_update_of_notMem, lookup_set_self]
      rintro q hq rfl
      exact hp (List.mem_map.2 ⟨q, hq, rfl⟩)
    · exact ih _ hl h

/-- What holds of the values of a mapping and of the new ones holds after an update. -/
theorem forall_update {P : Json → Prop} {d : Dict} {l : List (String × Json)}
    (hd : ∀ x ∈ d.entries, P x.2) (hl : ∀ p ∈ l, P p.2) : ∀ x ∈ (d.update l).entries, P x.2 := by
  induction l generalizing d with
  | nil => exact hd
  | cons p l ih =>
    have hset : ∀ x ∈ (d.set p.1 p.2).entries, P x.2 := by
      intro x hx
      rw [Dict.set, AList.entries_insert] at hx
      rcases List.mem_cons.1 hx with rfl | hx
      · exact hl p (List.mem_cons_self ..)
      · exact hd x ((List.kerase_sublist _ _).subset hx)
    exact ih hset fun p' hp' => hl p' (List.mem_cons_of_mem _ hp')

end Dict

namespace Json

/-- The integer `v` is, if `isinstance(v, int)`: a `bool` is an `int`. -/
def asInt : Json → Option ℤ
  | int n => some n
  | bool b => some b.toInt
  | _ => none

/-- `v == n` for an integer `n`. -/
def eqInt : Json → ℤ → Bool
  | int m, n => m == n
  | bool b, n => b.toInt == n
  | float q, n => q == n
  | _, _ => false

/-- `v == s` for a string `s`. -/
def eqStr : Json → String → Bool
  | str t, s => t == s
  | _, _ => false

theorem eqInt_unique {v : Json} {m n : ℤ} (hm : v.eqInt m) (hn : v.eqInt n) : m = n := by
  cases v <;> simp_all [eqInt]

theorem eqInt_asInt {v : Json} {n : ℤ} (h : v.asInt = some n) : v.eqInt n := by
  cases v <;> simp_all [eqInt, asInt]

end Json

/-! ## Exceptions -/

/-- A failure the environment can inject into an operation: an I/O error, a
    refused access, an expired timeout (all `OSError`), or a `BaseException` such
    as `KeyboardInterrupt`. -/
inductive Fault where
  | ioError | permission | timeout | interrupt
deriving DecidableEq

/-- The exceptions the modelled code raises or catches. -/
inductive Exc where
  | notFound                    -- FileNotFoundError
  | fileExists                  -- FileExistsError
  | isDirectory                 -- IsADirectoryError
  | fault (f : Fault)
  | unicode                     -- UnicodeDecodeError
  | typeError
  | overflow                    -- OverflowError
  | valueError (msg : String)
  | keyError (key : String)
  | tombstone (msg : String)    -- ProcessTombstoneError
  | lockHeld (pid : ℤ)          -- SupervisorLockError, naming the owner
deriving DecidableEq

/-- `isinstance(e, OSError)`. -/
def Exc.isOSError : Exc → Bool
  | notFound | fileExists | isDirectory => true
  | fault f => f != .interrupt
  | _ => false

/-! ## Strings -/

/-- The characters that `str.strip` removes. -/
def isSpace (c : Char) : Bool :=
  let n := c.toNat
  (9 ≤ n && n ≤ 13) || (28 ≤ n && n ≤ 32) || n == 0x85 || n == 0xA0 || n == 0x1680 ||
    (0x2000 ≤ n && n ≤ 0x200A) || n == 0x2028 || n == 0x2029 || n == 0x202F ||
      n == 0x205F || n == 0x3000

/-- `not s.strip()`. -/
def isBlank (s : String) : Bool := s.toList.all isSpace

theorem isBlank_eq_false {s : String} (h : ¬ isBlank s = true) :
    isBlank s = false := eq_false_of_ne_true h

/-- `repr` of a string, which only the texts of errors show. -/
class StrRepr where
  repr : String → String

/-! ## Conversions -/

/-- The longest integer literal, in digits, that `int` and `json.loads` convert, and the
    longest text of an integer. -/
def digitLimit : ℕ := 4300

/-- The zeros of the decimal digits, script by script. -/
def decimalZeros : List ℕ :=
  [0x30, 0x660, 0x6F0, 0x7C0, 0x966, 0x9E6, 0xA66, 0xAE6, 0xB66, 0xBE6, 0xC66, 0xCE6, 0xD66, 0xDE6,
    0xE50, 0xED0, 0xF20, 0x1040, 0x1090, 0x17E0, 0x1810, 0x1946, 0x19D0, 0x1A80, 0x1A90, 0x1B50,
    0x1BB0, 0x1C40, 0x1C50, 0xA620, 0xA8D0, 0xA900, 0xA9D0, 0xA9F0, 0xAA50, 0xABF0, 0xFF10,
    0x104A0, 0x10D30, 0x11066, 0x110F0, 0x11136, 0x111D0, 0x112F0, 0x11450, 0x114D0, 0x11650,
    0x116C0, 0x11730, 0x118E0, 0x11950, 0x11C50, 0x11D50, 0x11DA0, 0x16A60, 0x16AC0, 0x16B50,
    0x1D7CE, 0x1D7D8, 0x1D7E2, 0x1D7EC, 0x1D7F6, 0x1E140, 0x1E2F0, 0x1E950, 0x1FBF0]

/-- The decimal digit a character is. -/
def digitValue (c : Char) : Option ℕ :=
  (decimalZeros.find? fun z => z ≤ c.toNat && c.toNat < z + 10).map fun z => c.toNat - z

/-- The white space that `int` removes around a literal. -/
def isIntSpace (c : Char) : Bool :=
  (9 ≤ c.toNat && c.toNat ≤ 13) || c.toNat == 32 || (127 ≤ c.toNat && isSpace c)

/-- The value of an integer literal and the number of its digits, from those of its
    beginning; single underscores between digits are allowed. -/
def readDigits (n digits : ℕ) : List Char → Option (ℕ × ℕ)
  | [] => some (n, digits)
  | '_' :: c :: cs => (digitValue c).bind fun d => readDigits (10 * n + d) (digits + 1) cs
  | c :: cs => (digitValue c).bind fun d => readDigits (10 * n + d) (digits + 1) cs

/-- An unsigned integer literal. -/
def readNat : List Char → Option (ℕ × ℕ)
  | [] => none
  | c :: cs => (digitValue c).bind fun d => readDigits d 1 cs

/-- The integer literal that `int(s)` reads, and the number of its digits. -/
def readInt (s : String) : Option (ℤ × ℕ) :=
  match (s.toList.dropWhile isIntSpace).reverse.dropWhile isIntSpace |>.reverse with
  | '-' :: cs => (readNat cs).map fun n => (-(n.1 : ℤ), n.2)
  | '+' :: cs => (readNat cs).map fun n => (n.1, n.2)
  | cs => (readNat cs).map fun n => (n.1, n.2)

/-- `int(v)`. -/
def pyInt : Json → Except Exc ℤ
  | .int n => .ok n
  | .bool b => .ok b.toInt
  | .float q => .ok (q.num.tdiv q.den)
  | .nan => .error (.valueError "cannot convert float NaN to integer")
  | .infinity _ => .error .overflow
  | .str s =>
    match readInt s with
    | some (n, digits) =>
      if digits ≤ digitLimit then .ok n
      else .error (.valueError "Exceeds the limit for integer string conversion")
    | none => .error (.valueError "invalid literal for int()")
  | _ => .error .typeError

/-- The largest pid that `os.kill` takes. -/
def maxPid : ℤ := 2147483647

theorem pyInt_error {v : Json} {e : Exc} (h : pyInt v = .error e) (msg : String) :
    e ≠ .tombstone msg := by
  unfold pyInt at h
  split at h
  any_goals cases h; done
  any_goals cases h; simp
  split at h
  · split_ifs at h
    cases h
    simp
  · cases h
    simp

/-! ## Encoding Python values -/

mutual

/-- No integer of the value has more digits than `int` converts to text. -/
def Json.digitsOk : Json → Bool
  | .int n => (Nat.toDigits 10 n.natAbs).length ≤ digitLimit
  | .arr l => Json.digitsOkList l
  | .obj l => Json.digitsOkObj l
  | _ => true

def Json.digitsOkList : List Json → Bool
  | [] => true
  | v :: l => v.digitsOk && Json.digitsOkList l

def Json.digitsOkObj : List (String × Json) → Bool
  | [] => true
  | (_, v) :: l => v.digitsOk && Json.digitsOkObj l

end

/-- A key of a Python `dict`; a `float` by the text JSON gives it, `other` for a key
    JSON has no text for. -/
inductive PyKey where
  | str (s : String)
  | int (n : ℤ)
  | bool (b : Bool)
  | float (text : String)
  | none
  | other
deriving DecidableEq

/-- A Python value; `other` for a value `json` does not encode. -/
inductive PyVal where
  | none
  | bool (b : Bool)
  | int (n : ℤ)
  | float (q : ℚ)
  | nan
  | infinity (neg : Bool)
  | str (s : String)
  | list (l : List PyVal)
  | dict (m : List (PyKey × PyVal))
  | other

/-- A `Mapping[str, object]` a consumer hands over; nothing checks its keys. -/
abbrev PyDict := List (PyKey × PyVal)

namespace PyKey

def isStr : PyKey → Bool
  | str _ => true
  | _ => false

def isNumber : PyKey → Bool
  | int _ | bool _ | float _ => true
  | _ => false

/-- `sorted` compares the keys without a `TypeError`. -/
def sortable (l : List PyKey) : Bool :=
  decide (l.length ≤ 1) || l.all isStr || l.all isNumber

/-- The text of the key in a JSON object. -/
def text : PyKey → Option String
  | str s | float s => some s
  | int n => some (toString n)
  | bool b => some (if b then "true" else "false")
  | none => some "null"
  | other => .none

end PyKey

mutual

/-- `json.loads(json.dumps(v, sort_keys=sort))`, without the limit on digits; `none`
    for a `TypeError`. -/
def PyVal.toJson (sort : Bool) : PyVal → Option Json
  | .none => some .null
  | .bool b => some (.bool b)
  | .int n => some (.int n)
  | .float q => some (.float q)
  | .nan => some .nan
  | .infinity neg => some (.infinity neg)
  | .str s => some (.str s)
  | .list l => (PyVal.toJsonList sort l).map .arr
  | .dict m =>
    if sort && !PyKey.sortable (m.map Prod.fst) then .none
    else (PyVal.toJsonDict sort m).map .obj
  | .other => .none

def PyVal.toJsonList (sort : Bool) : List PyVal → Option (List Json)
  | [] => some []
  | v :: l => do return (← v.toJson sort) :: (← PyVal.toJsonList sort l)

def PyVal.toJsonDict (sort : Bool) : List (PyKey × PyVal) → Option (List (String × Json))
  | [] => some []
  | (k, v) :: l => do return (← k.text, ← v.toJson sort) :: (← PyVal.toJsonDict sort l)

end

/-- `isinstance(v, int)`, and the integer. -/
def PyVal.asInt : PyVal → Option ℤ
  | .int n => some n
  | .bool b => some b.toInt
  | _ => .none

/-- `m.get(k)`. -/
def PyDict.get (m : PyDict) (k : String) : PyVal := (m.lookup (.str k)).getD .none

/-- The object `json.loads` gives back from `json.dumps(d)`. -/
def dumps (d : Dict) : Except Exc Dict :=
  if Json.digitsOkObj (d.entries.map fun e => (e.1, e.2)) then .ok d
  else .error (.valueError "Exceeds the limit for integer string conversion")

/-- The object `json.loads` gives back from `json.dumps({**base, **m}, sort_keys=sort)`;
    `base` is not empty, so sorting needs the keys of `m` to be strings. -/
def dumpsWith (sort : Bool) (base : Dict) (m : PyDict) : Except Exc Dict :=
  if sort && !m.all fun e => e.1.isStr then .error .typeError
  else
    match PyVal.toJsonDict sort m with
    | none => .error .typeError
    | some l => dumps (base.update l)

theorem dumps_ok {d e : Dict} (h : dumps d = .ok e) : e = d := by
  unfold dumps at h
  split_ifs at h
  cases h
  rfl

theorem digitsOkObj_iff {l : List (String × Json)} :
    Json.digitsOkObj l = true ↔ ∀ p ∈ l, p.2.digitsOk = true := by
  induction l with
  | nil => simp [Json.digitsOkObj]
  | cons p l ih => simp [Json.digitsOkObj, ih]

theorem dumps_iff {d : Dict} : dumps d = .ok d ↔ ∀ x ∈ d.entries, x.2.digitsOk = true := by
  have hmap : (∀ p ∈ d.entries.map fun e => (e.1, e.2), p.2.digitsOk = true) ↔
      ∀ x ∈ d.entries, x.2.digitsOk = true :=
    List.forall_mem_map
  rw [← hmap, ← digitsOkObj_iff, dumps]
  split_ifs with h <;> simp [h]

/-- What can be encoded can be encoded with further small values. -/
theorem dumps_update {d : Dict} {l : List (String × Json)} (hd : dumps d = .ok d)
    (hl : ∀ p ∈ l, p.2.digitsOk = true) :
    dumps (d.update l) = .ok (d.update l) :=
  dumps_iff.2 (Dict.forall_update (P := fun v => v.digitsOk = true) (dumps_iff.1 hd) hl)

theorem dumps_error {d : Dict} {e : Exc} (h : dumps d = .error e) (msg : String) :
    e ≠ .tombstone msg := by
  unfold dumps at h
  split_ifs at h
  cases h
  simp

theorem dumpsWith_error {sort : Bool} {base : Dict} {m : PyDict} {e : Exc}
    (h : dumpsWith sort base m = .error e) (msg : String) : e ≠ .tombstone msg := by
  unfold dumpsWith at h
  split_ifs at h
  · cases h; simp
  · split at h
    · cases h; simp
    · exact dumps_error h msg

theorem key_of_toJsonDict {sort : Bool} {m : PyDict} {l : List (String × Json)}
    (h : PyVal.toJsonDict sort m = some l) : ∀ p ∈ l, ∃ e ∈ m, e.1.text = some p.1 := by
  induction m generalizing l with
  | nil => cases h; simp
  | cons e m ih =>
    obtain ⟨k, v⟩ := e
    simp only [PyVal.toJsonDict, Option.bind_eq_bind, Option.bind_eq_some_iff, Option.pure_def,
      Option.some.injEq] at h
    obtain ⟨t, ht, j, -, r, hr, rfl⟩ := h
    intro p hp
    rcases List.mem_cons.1 hp with rfl | hp
    · exact ⟨_, List.mem_cons_self .., ht⟩
    · obtain ⟨e, he, hk⟩ := ih hr p hp
      exact ⟨e, List.mem_cons_of_mem _ he, hk⟩

/-- `json.dumps({**base, **m}, sort_keys=True)` keeps the entries of `base` whose keys
    are not in `m`. -/
theorem get_of_dumpsWith {base d : Dict} {m : PyDict} {k : String}
    (h : dumpsWith true base m = .ok d) (hk : ∀ e ∈ m, e.1 ≠ .str k) : d.get k = base.get k := by
  unfold dumpsWith at h
  split_ifs at h with hs
  split at h
  · cases h
  rename_i l hl
  rw [dumps_ok h]
  refine Dict.get_update_of_notMem _ fun p hp => ?_
  rintro rfl
  obtain ⟨e, he, ht⟩ := key_of_toJsonDict hl p hp
  have hstr : e.1.isStr = true := by
    simp only [Bool.true_and, Bool.not_eq_true', Bool.not_eq_false] at hs
    exact List.all_eq_true.1 hs e he
  refine hk e he ?_
  obtain ⟨k, v⟩ := e
  cases k <;> simp_all [PyKey.isStr, PyKey.text]

/-! ## Files read as JSON -/

/-- The bytes of a file, as far as reading it as JSON goes: an object, another
    value, text that is no JSON (`JSONDecodeError`; an empty or cut-off document
    is one), bytes that are no UTF-8, or an integer literal over the digit limit
    (`ValueError`). -/
inductive Content where
  | doc (d : Dict)
  | value (v : Json)
  | malformed
  | undecodable
  | overlong

/-- The object in the file, if it holds one. -/
def Content.asDoc : Content → Option Dict
  | .doc d => some d
  | _ => none

section
variable {Op : Type} {Val : Op → Type}

/-- `read_json`: `None` if the file is absent, unreadable, malformed or no object. -/
def readJson (read : Prog Val Exc (Except Exc Content)) : Prog Val Exc (Option Dict) :=
  read.bind fun
    | .ok (.doc d) => .ret (some d)
    | .ok (.value _) => .ret none
    | .ok .malformed => .ret none
    | .ok .undecodable => .raise .unicode
    | .ok .overlong => .raise (.valueError "Exceeds the limit for integer string conversion")
    | .error .notFound => .ret none
    | .error (.fault .permission) => .ret none
    | .error .isDirectory => .ret none
    | .error e => .raise e

/-- `read_json` returns an object only if the file holds it. -/
theorem always_readJson {S : Type} {step : (o : Op) → S → Except Exc (Val o) → S → Prop}
    {G : Op → S → Prop} {Q : Option Dict → S → Prop} {E : Exc → S → Prop} {s : S}
    {read : Prog Val Exc (Except Exc Content)}
    (h : read.Always step G (fun r s => (∀ d, r = .ok (.doc d) → Q (some d) s) ∧
      ((∀ d, r ≠ .ok (.doc d)) → Q none s ∧ ∀ e, E e s)) E s) :
    (readJson read).Always step G Q E s := by
  refine Prog.always_bind.2 (h.mono (fun _ _ h => h) (fun r s h => ?_) fun _ _ h => h)
  obtain ⟨hdoc, hnone⟩ := h
  rcases r with e | c
  · obtain ⟨hq, he⟩ := hnone (by simp)
    rcases e with _ | _ | _ | f | _ | _ | _ | _ | _ | _ <;> first | exact hq | exact he _ | skip
    cases f <;> first | exact hq | exact he _
  · cases c with
    | doc d => exact hdoc d rfl
    | _ => obtain ⟨hq, he⟩ := hnone (by simp); first | exact hq | exact he _

theorem uses_readJson {A : Op → Prop} {read : Prog Val Exc (Except Exc Content)}
    (h : read.Uses A) : (readJson read).Uses A := by
  refine h.bind fun r => ?_
  split <;> trivial

end

end DatasourceKit

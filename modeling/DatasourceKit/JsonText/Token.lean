/-
  JsonText — the tokens of JSON texts: strings with their escapes, numbers, white space.

  * `escape`: a character inside quotation marks, with or without `ensure_ascii`;
    `readString`: the reader.  `readString_escape`: a reader gets back what was written;
  * `scanNumber`: the longest number at the beginning of a text, in its three parts, and
    `Stops`: what may come after a number.  `scanNumber_append`: a number is read to its end;
    `scanNumber_int`, `readInt_text`: the texts of integers;
  * `skipWs`: white space.
-/
import Mathlib.Data.List.TakeWhile
import Mathlib.Data.Int.Notation

namespace JsonText

/-! ## Strings -/

/-- The value of a hexadecimal digit. -/
def hexValue (c : Char) : Option ℕ :=
  if c.isDigit then some (c.toNat - 48)
  else if 'a' ≤ c ∧ c ≤ 'f' then some (c.toNat - 87)
  else if 'A' ≤ c ∧ c ≤ 'F' then some (c.toNat - 55)
  else none

theorem hexValue_digitChar : ∀ n < 16, hexValue n.digitChar = some n := by decide

/-- The four digits of a code unit. -/
def unitDigits (n : ℕ) : List Char :=
  [(n / 0x1000 % 16).digitChar, (n / 0x100 % 16).digitChar,
    (n / 0x10 % 16).digitChar, (n % 16).digitChar]

/-- `\u` with the digits of a code unit. -/
def unitEscape (n : ℕ) : List Char := '\\' :: 'u' :: unitDigits n

/-- The characters that have an escape of their own. -/
def shortEscapes : List (Char × Char) :=
  [('"', '"'), ('\\', '\\'), ('\n', 'n'), ('\r', 'r'), ('\t', 't'), (Char.ofNat 0x0C, 'f'),
    (Char.ofNat 0x08, 'b')]

/-- The text of a character inside quotation marks. -/
def escape (ensureAscii : Bool) (c : Char) : List Char :=
  match shortEscapes.lookup c with
  | some e => ['\\', e]
  | none =>
    if c.toNat < 0x20 then unitEscape c.toNat
    else if ensureAscii ∧ 0x7F ≤ c.toNat then
      -- above the first plane, a surrogate pair
      if c.toNat < 0x10000 then unitEscape c.toNat
      else unitEscape (0xD800 + (c.toNat - 0x10000) / 0x400) ++
        unitEscape (0xDC00 + (c.toNat - 0x10000) % 0x400)
    else [c]

/-- What the text of a character is. -/
theorem escape_cases (ensureAscii : Bool) (c : Char) :
    (∃ e, (c, e) ∈ shortEscapes ∧ escape ensureAscii c = ['\\', e]) ∨
    c.toNat < 0x10000 ∧ escape ensureAscii c = unitEscape c.toNat ∨
    ¬c.toNat < 0x10000 ∧ escape ensureAscii c =
      unitEscape (0xD800 + (c.toNat - 0x10000) / 0x400) ++
      unitEscape (0xDC00 + (c.toNat - 0x10000) % 0x400) ∨
    ¬c.toNat < 0x20 ∧ (∀ e, (c, e) ∉ shortEscapes) ∧ escape ensureAscii c = [c] := by
  unfold escape
  cases h : shortEscapes.lookup c with
  | some e =>
    obtain ⟨l, m, hl, -⟩ := List.lookup_eq_some_iff.1 h
    exact .inl ⟨e, by rw [hl]; simp, rfl⟩
  | none =>
    dsimp only
    split_ifs with hcontrol _ hplane
    · exact .inr (.inl ⟨by omega, rfl⟩)
    · exact .inr (.inl ⟨hplane, rfl⟩)
    · exact .inr (.inr (.inl ⟨hplane, rfl⟩))
    · refine .inr (.inr (.inr ⟨hcontrol, fun e he => ?_, rfl⟩))
      simpa using List.lookup_eq_none_iff.1 h _ he

/-- The code unit of four digits. -/
def readUnit : List Char → Option (ℕ × List Char)
  | a :: b :: c :: d :: rest =>
    match hexValue a, hexValue b, hexValue c, hexValue d with
    | some a, some b, some c, some d => some (((a * 16 + b) * 16 + c) * 16 + d, rest)
    | _, _, _, _ => none
  | _ => none

/-- The character of a code unit; a high surrogate goes with the low one after it.  A string of
    Lean has no surrogate of its own. -/
def readUnits (cs : List Char) : Option (Char × List Char) :=
  (readUnit cs).bind fun p =>
    if 0xD800 ≤ p.1 ∧ p.1 < 0xDC00 then
      match p.2 with
      | '\\' :: 'u' :: rest => (readUnit rest).bind fun q =>
        if 0xDC00 ≤ q.1 ∧ q.1 < 0xE000 then
          some (Char.ofNat (0x10000 + (p.1 - 0xD800) * 0x400 + (q.1 - 0xDC00)), q.2)
        else none
      | _ => none
    else if 0xDC00 ≤ p.1 ∧ p.1 < 0xE000 then none
    else some (Char.ofNat p.1, p.2)

/-- The character after a backslash. -/
def readEscape : List Char → Option (Char × List Char)
  | '"' :: rest => some ('"', rest)
  | '\\' :: rest => some ('\\', rest)
  | '/' :: rest => some ('/', rest)
  | 'b' :: rest => some (Char.ofNat 0x08, rest)
  | 'f' :: rest => some (Char.ofNat 0x0C, rest)
  | 'n' :: rest => some ('\n', rest)
  | 'r' :: rest => some ('\r', rest)
  | 't' :: rest => some ('\t', rest)
  | 'u' :: rest => readUnits rest
  | _ => none

/-- The next character of a string; a control character is not allowed. -/
def readChar : List Char → Option (Char × List Char)
  | [] => none
  | c :: rest => if c = '\\' then readEscape rest else if c.toNat < 0x20 then
    none else some (c, rest)

/-- The string up to the quotation mark that ends it, of less than `n` characters. -/
def readString : ℕ → List Char → Option (List Char × List Char)
  | 0, _ => none
  | n + 1, cs =>
    if cs.head? = some '"' then some ([], cs.tail)
    else (readChar cs).bind fun p => (readString n p.2).map fun q => (p.1 :: q.1, q.2)

theorem readUnit_digits {n : ℕ} (hn : n < 0x10000) (rest : List Char) :
    readUnit (unitDigits n ++ rest) = some (n, rest) := by
  have hmod : ∀ k, hexValue (k % 16).digitChar = some (k % 16) := fun k =>
    hexValue_digitChar _ (Nat.mod_lt _ (by omega))
  have hvalue : ((n / 0x1000 % 16 * 16 + n / 0x100 % 16) * 16 + n / 0x10 % 16) * 16 +
      n % 16 = n := by omega
  simp only [unitDigits, List.cons_append, List.nil_append, readUnit, hmod, hvalue]

theorem toNat_cases (c : Char) : c.toNat < 0xD800 ∨ 0xDFFF < c.toNat ∧ c.toNat < 0x110000 := c.valid

/-- A code unit that is no surrogate is a character. -/
theorem readUnits_unit {c : Char} (hc : c.toNat < 0x10000) (rest : List Char) :
    readUnits (unitDigits c.toNat ++ rest) = some (c, rest) := by
  have hvalid := toNat_cases c
  rw [readUnits, readUnit_digits hc, Option.bind_some, if_neg (by omega),
    if_neg (by omega), Char.ofNat_toNat]

/-- A surrogate pair is a character. -/
theorem readUnits_pair {c : Char} (hc : ¬c.toNat < 0x10000) (rest : List Char) :
    readUnits (unitDigits (0xD800 + (c.toNat - 0x10000) / 0x400) ++
      unitEscape (0xDC00 + (c.toNat - 0x10000) % 0x400) ++ rest) = some (c, rest) := by
  have hvalid := toNat_cases c
  have hchar : 0x10000 + (0xD800 + (c.toNat - 0x10000) / 0x400 - 0xD800) * 0x400 +
      (0xDC00 + (c.toNat - 0x10000) % 0x400 - 0xDC00) = c.toNat := by omega
  rw [List.append_assoc, readUnits, readUnit_digits (by omega), Option.bind_some, if_pos (by omega)]
  simp only [unitEscape, List.cons_append]
  rw [readUnit_digits (by omega), Option.bind_some, if_pos (by omega), hchar, Char.ofNat_toNat]

/-- **A reader gets back what was written**, character by character. -/
theorem readChar_escape (ensureAscii : Bool) (c : Char) (rest : List Char) :
    readChar (escape ensureAscii c ++ rest) = some (c, rest) := by
  have hshort : ∀ p ∈ shortEscapes, readEscape (p.2 :: rest) = some (p.1, rest) := by
    simp only [shortEscapes, List.forall_mem_cons]
    exact ⟨rfl, rfl, rfl, rfl, rfl, rfl, rfl, by simp⟩
  rcases escape_cases ensureAscii c with ⟨e, he, htext⟩ | ⟨hc, htext⟩ | ⟨hc, htext⟩ |
    ⟨hc, hnone, htext⟩ <;> rw [htext]
  · exact hshort (c, e) he
  · exact readUnits_unit hc rest
  · exact readUnits_pair hc rest
  · have hne : c ≠ '\\' := by
      rintro rfl
      exact hnone '\\' (by decide)
    rw [List.singleton_append, readChar, if_neg hne, if_neg hc]

/-- The text of a character is no quotation mark. -/
theorem escape_head (ensureAscii : Bool) (c : Char) :
    ∃ x l, escape ensureAscii c = x :: l ∧ x ≠ '"' := by
  rcases escape_cases ensureAscii c with ⟨e, -, htext⟩ | ⟨-, htext⟩ | ⟨-, htext⟩ | ⟨-, hnone, htext⟩
  · exact ⟨_, _, htext, by decide⟩
  · exact ⟨_, _, htext, by decide⟩
  · exact ⟨_, _, htext, by decide⟩
  · refine ⟨c, [], htext, ?_⟩
    rintro rfl
    exact hnone '"' (by decide)

/-- A string is written on one line. -/
theorem newline_notMem_escape (ensureAscii : Bool) (c : Char) : '\n' ∉ escape ensureAscii c := by
  have hdigit : ∀ k, (k % 16).digitChar ≠ '\n' := by
    intro k
    have hall : ∀ n < 16, n.digitChar ≠ '\n' := by decide
    exact hall _ (Nat.mod_lt _ (by omega))
  have hunit : ∀ n, '\n' ∉ unitEscape n := by
    intro n
    simp [unitEscape, unitDigits, (hdigit _).symm]
  have hshort : ∀ p ∈ shortEscapes, '\n' ∉ ['\\', p.2] := by decide
  rcases escape_cases ensureAscii c with ⟨e, he, htext⟩ | ⟨-, htext⟩ | ⟨-, htext⟩ |
    ⟨-, hnone, htext⟩ <;> rw [htext]
  · exact hshort (c, e) he
  · exact hunit _
  · rw [List.mem_append, not_or]
    exact ⟨hunit _, hunit _⟩
  · rw [List.mem_singleton]
    rintro rfl
    exact hnone 'n' (by decide)

/-- With `ensure_ascii`, a character is written in ASCII. -/
theorem ascii_escape (c : Char) : ∀ d ∈ escape true c, d.toNat < 0x80 := by
  have hdigit : ∀ k, (k % 16).digitChar.toNat < 0x80 := by
    intro k
    have hall : ∀ n < 16, n.digitChar.toNat < 0x80 := by decide
    exact hall _ (Nat.mod_lt _ (by omega))
  have hunit : ∀ n, ∀ d ∈ unitEscape n, d.toNat < 0x80 := by
    intro n
    simp only [unitEscape, unitDigits, List.forall_mem_cons]
    exact ⟨by decide, by decide, hdigit _, hdigit _, hdigit _, hdigit _, fun _ h => nomatch h⟩
  have hshort : ∀ p ∈ shortEscapes, p.2.toNat < 0x80 := by decide
  unfold escape
  cases h : shortEscapes.lookup c with
  | some e =>
    obtain ⟨l, m, hl, -⟩ := List.lookup_eq_some_iff.1 h
    simp only [List.forall_mem_cons]
    exact ⟨by decide, hshort (c, e) (by rw [hl]; simp), fun _ h => nomatch h⟩
  | none =>
    dsimp only
    split_ifs with hcontrol hbig hplane
    · exact hunit _
    · exact hunit _
    · exact List.forall_mem_append.2 ⟨hunit _, hunit _⟩
    · intro d hd
      rw [List.mem_singleton.1 hd]
      simp only [true_and] at hbig
      omega

theorem length_le_escape (ensureAscii : Bool) (s : List Char) :
    s.length ≤ (s.flatMap (escape ensureAscii)).length := by
  induction s with
  | nil => simp
  | cons c s ih =>
    obtain ⟨x, l, hx, -⟩ := escape_head ensureAscii c
    rw [List.flatMap_cons, List.length_append, hx]
    simp only [List.length_cons]
    omega

theorem readString_escape {ensureAscii : Bool} {n : ℕ} {s : List Char}
    (hn : s.length < n) (rest : List Char) :
    readString n (s.flatMap (escape ensureAscii) ++ '"' :: rest) = some (s, rest) := by
  induction s generalizing n with
  | nil =>
    obtain ⟨m, rfl⟩ : ∃ m, n = m + 1 := ⟨n - 1, by omega⟩
    rfl
  | cons c s ih =>
    rw [List.length_cons] at hn
    obtain ⟨m, rfl⟩ : ∃ m, n = m + 1 := ⟨n - 1, by omega⟩
    obtain ⟨x, l, hx, hne⟩ := escape_head ensureAscii c
    rw [List.flatMap_cons, List.append_assoc, readString, if_neg, readChar_escape,
      Option.bind_some, ih (by omega)]
    · rfl
    · rw [hx]
      simpa using hne

/-! ## Numbers -/

/-- The characters that a number may go on with. -/
def isNumberChar (c : Char) : Bool := c.isDigit || c == '.' || c == 'e' ||
    c == 'E' || c == '+' || c == '-'

theorem ascii_numberChar {c : Char} (h : isNumberChar c = true) : c.toNat < 0x80 := by
  simp only [isNumberChar, Bool.or_eq_true, beq_iff_eq] at h
  rcases h with ((((h | rfl) | rfl) | rfl) | rfl) | rfl
  · exact Nat.lt_of_le_of_lt (Char.isDigit_iff_toNat.1 h).2 (by decide)
  all_goals decide

/-- What comes next is no part of a number. -/
def Stops (rest : List Char) : Prop := ∀ c, rest.head? = some c → isNumberChar c = false

def digits (cs : List Char) : List Char := cs.takeWhile Char.isDigit
def afterDigits (cs : List Char) : List Char := cs.dropWhile Char.isDigit

theorem digits_afterDigits (cs : List Char) :
    digits cs ++ afterDigits cs = cs := List.takeWhile_append_dropWhile

/-- The digits of an integer: `0`, or digits that begin with another one. -/
def scanDigits : List Char → Option (List Char × List Char)
  | [] => none
  | c :: cs =>
    if c = '0' then some (['0'], cs)
    else if c.isDigit then some (c :: digits cs, afterDigits cs)
    else none

/-- `-?(?:0|[1-9]\d*)`. -/
def scanInt : List Char → Option (List Char × List Char)
  | '-' :: cs => (scanDigits cs).map fun p => ('-' :: p.1, p.2)
  | cs => scanDigits cs

/-- A mark, and at least one digit after it. -/
def scanMarked (mark : List Char) (before : List Char) (cs : List Char) : List Char × List Char :=
  if digits cs = [] then ([], before) else (mark ++ digits cs, afterDigits cs)

/-- `(\.\d+)?`. -/
def scanFraction : List Char → List Char × List Char
  | '.' :: cs => scanMarked ['.'] ('.' :: cs) cs
  | cs => ([], cs)

/-- `[-+]?\d+`, after the mark of an exponent. -/
def scanPower (c : Char) : List Char → List Char × List Char
  | [] => ([], [c])
  | s :: ds => if s = '-' ∨ s = '+' then scanMarked [c, s] (c :: s :: ds) ds
    else scanMarked [c] (c :: s :: ds) (s :: ds)

/-- `([eE][-+]?\d+)?`. -/
def scanExponent : List Char → List Char × List Char
  | [] => ([], [])
  | c :: cs => if c = 'e' ∨ c = 'E' then scanPower c cs else ([], c :: cs)

/-- A number at the beginning of a text: its integer, and its fraction and exponent. -/
structure NumberToken where
  int : List Char
  fraction : List Char
  exponent : List Char
deriving DecidableEq

def NumberToken.text (t : NumberToken) : List Char := t.int ++ t.fraction ++ t.exponent

/-- The number at the beginning of a text, and what comes after it. -/
def scanNumber (cs : List Char) : Option (NumberToken × List Char) :=
  (scanInt cs).map fun p =>
    let f := scanFraction p.2
    let e := scanExponent f.2
    (⟨p.1, f.1, e.1⟩, e.2)

/-- The integer of its text. -/
def readInt : List Char → ℤ
  | '-' :: ds => -(Nat.ofDigitChars 10 ds 0 : ℤ)
  | ds => Nat.ofDigitChars 10 ds 0

section
variable {rest : List Char} (hr : Stops rest)
include hr

theorem Stops.head_ne {c : Char} (hc : isNumberChar c = true) : rest.head? ≠ some c := by
  intro h
  rw [hr c h] at hc
  cases hc

theorem digits_append (cs : List Char) : digits (cs ++ rest) = digits cs := by
  induction cs with
  | nil =>
    cases rest with
    | nil => rfl
    | cons c rest =>
      have hc : c.isDigit = false := by
        have hnumber := hr c rfl
        simp only [isNumberChar, Bool.or_eq_false_iff] at hnumber
        exact hnumber.1.1.1.1.1
      simp [digits, hc]
  | cons c cs ih =>
    simp only [digits, List.cons_append, List.takeWhile_cons] at ih ⊢
    rw [ih]

theorem afterDigits_append (cs : List Char) :
    afterDigits (cs ++ rest) = afterDigits cs ++ rest := by
  have h : digits cs ++ afterDigits (cs ++ rest) = cs ++ rest :=
    digits_append hr cs ▸ digits_afterDigits (cs ++ rest)
  refine List.append_cancel_left (h.trans ?_)
  rw [← List.append_assoc, digits_afterDigits]

theorem scanDigits_append {cs : List Char} {p : List Char × List Char}
    (h : scanDigits cs = some p) :
    scanDigits (cs ++ rest) = some (p.1, p.2 ++ rest) := by
  cases cs with
  | nil => cases h
  | cons c cs =>
    simp only [scanDigits, List.cons_append] at h ⊢
    split_ifs at h ⊢ <;> cases h
    · rfl
    · rw [digits_append hr, afterDigits_append hr]

theorem scanInt_append {cs : List Char} {p : List Char × List Char} (h : scanInt cs = some p) :
    scanInt (cs ++ rest) = some (p.1, p.2 ++ rest) := by
  unfold scanInt at h
  split at h
  · obtain ⟨q, hq, rfl⟩ := Option.map_eq_some_iff.1 h
    rw [List.cons_append, scanInt, scanDigits_append hr hq]
    rfl
  · rename_i hne
    rw [← scanDigits_append hr h]
    cases cs with
    | nil => cases h
    | cons c cs =>
      rw [List.cons_append, scanInt]
      rintro cs' heq
      cases heq
      exact hne cs rfl

theorem scanMarked_append (mark before cs : List Char) :
    scanMarked mark (before ++ rest) (cs ++ rest) =
    ((scanMarked mark before cs).1, (scanMarked mark before cs).2 ++ rest) := by
  unfold scanMarked
  rw [digits_append hr]
  split_ifs
  · rfl
  · rw [afterDigits_append hr]

theorem scanFraction_append (cs : List Char) :
    scanFraction (cs ++ rest) = ((scanFraction cs).1, (scanFraction cs).2 ++ rest) := by
  cases cs with
  | nil =>
    rw [List.nil_append]
    unfold scanFraction
    split
    · exact absurd rfl (hr.head_ne (by decide))
    · rfl
  | cons c cs =>
    by_cases hc : c = '.'
    · subst hc
      exact scanMarked_append hr ['.'] ('.' :: cs) cs
    · unfold scanFraction
      split
      · simp_all
      · split
        · simp_all
        · rfl

theorem scanPower_append (c : Char) (cs : List Char) :
    scanPower c (cs ++ rest) = ((scanPower c cs).1, (scanPower c cs).2 ++ rest) := by
  cases cs with
  | nil =>
    cases rest with
    | nil => rfl
    | cons s rest =>
      have hs : ¬(s = '-' ∨ s = '+') := by
        rintro (rfl | rfl)
        · exact hr.head_ne (by decide) rfl
        · exact hr.head_ne (by decide) rfl
      have hdigits : digits (s :: rest) = [] := digits_append hr []
      simp only [List.nil_append, scanPower, if_neg hs, scanMarked, hdigits, if_true,
        List.singleton_append]
  | cons s ds =>
    simp only [List.cons_append, scanPower]
    split_ifs
    · exact scanMarked_append hr [c, s] (c :: s :: ds) ds
    · exact scanMarked_append hr [c] (c :: s :: ds) (s :: ds)

theorem scanExponent_append (cs : List Char) :
    scanExponent (cs ++ rest) = ((scanExponent cs).1, (scanExponent cs).2 ++ rest) := by
  cases cs with
  | nil =>
    cases rest with
    | nil => rfl
    | cons c rest =>
      have he : ¬(c = 'e' ∨ c = 'E') := by
        rintro (rfl | rfl)
        · exact hr.head_ne (by decide) rfl
        · exact hr.head_ne (by decide) rfl
      simp only [List.nil_append, scanExponent, if_neg he]
  | cons c cs =>
    simp only [List.cons_append, scanExponent]
    split_ifs
    · exact scanPower_append hr c cs
    · rfl

/-- **A number is read to its end.** -/
theorem scanNumber_append {cs : List Char} {p : NumberToken × List Char}
    (h : scanNumber cs = some p) :
    scanNumber (cs ++ rest) = some (p.1, p.2 ++ rest) := by
  obtain ⟨q, hq, rfl⟩ := Option.map_eq_some_iff.1 h
  simp only [scanNumber, scanInt_append hr hq, Option.map_some, scanFraction_append hr,
    scanExponent_append hr]

end

theorem scanDigits_text {cs : List Char} {p : List Char × List Char} (h : scanDigits cs = some p) :
    p.1 ++ p.2 = cs := by
  cases cs with
  | nil => cases h
  | cons c cs =>
    simp only [scanDigits] at h
    split_ifs at h with hc <;> cases h
    · rw [hc]
      rfl
    · rw [List.cons_append, digits_afterDigits]

theorem scanInt_text {cs : List Char} {p : List Char × List Char} (h : scanInt cs = some p) :
    p.1 ++ p.2 = cs := by
  unfold scanInt at h
  split at h
  · obtain ⟨q, hq, rfl⟩ := Option.map_eq_some_iff.1 h
    rw [List.cons_append, scanDigits_text hq]
  · exact scanDigits_text h

theorem scanMarked_text (mark cs : List Char) :
    (scanMarked mark (mark ++ cs) cs).1 ++ (scanMarked mark (mark ++ cs) cs).2 = mark ++ cs := by
  unfold scanMarked
  split_ifs
  · rfl
  · rw [List.append_assoc, digits_afterDigits]

theorem scanFraction_text (cs : List Char) : (scanFraction cs).1 ++ (scanFraction cs).2 = cs := by
  unfold scanFraction
  split
  · exact scanMarked_text ['.'] _
  · rfl

theorem scanExponent_text (cs : List Char) : (scanExponent cs).1 ++ (scanExponent cs).2 = cs := by
  cases cs with
  | nil => rfl
  | cons c cs =>
    simp only [scanExponent]
    split_ifs
    · cases cs with
      | nil => rfl
      | cons s ds =>
        simp only [scanPower]
        split_ifs
        · exact scanMarked_text [c, s] ds
        · exact scanMarked_text [c] (s :: ds)
    · rfl

/-- A number, and what comes after it, are the text. -/
theorem scanNumber_text {cs : List Char} {p : NumberToken × List Char}
    (h : scanNumber cs = some p) :
    p.1.text ++ p.2 = cs := by
  obtain ⟨q, hq, rfl⟩ := Option.map_eq_some_iff.1 h
  simp only [NumberToken.text]
  rw [List.append_assoc, List.append_assoc, scanExponent_text, scanFraction_text, scanInt_text hq]

/-- The digits of a number are characters of it. -/
theorem isNumberChar_of_isDigit {c : Char} (hc : c.isDigit = true) : isNumberChar c = true := by
  simp [isNumberChar, hc]

theorem isNumberChar_digits {cs : List Char} : ∀ c ∈ digits cs, isNumberChar c = true := fun _ hc =>
  isNumberChar_of_isDigit (List.mem_takeWhile_imp hc)

theorem scanInt_chars {cs : List Char} {p : List Char × List Char} (h : scanInt cs = some p) :
    ∀ c ∈ p.1, isNumberChar c = true := by
  have hdigits : ∀ {cs p}, scanDigits cs = some p → ∀ c ∈ p.1, isNumberChar c = true := by
    intro cs p h
    cases cs with
    | nil => cases h
    | cons d cs =>
      simp only [scanDigits] at h
      split_ifs at h with hzero hd <;> cases h
      · rintro c hc
        rw [List.mem_singleton.1 hc]
        decide
      · rintro c hc
        rcases List.mem_cons.1 hc with rfl | hc
        · exact isNumberChar_of_isDigit hd
        · exact isNumberChar_digits c hc
  unfold scanInt at h
  split at h
  · obtain ⟨q, hq, rfl⟩ := Option.map_eq_some_iff.1 h
    rintro c hc
    rcases List.mem_cons.1 hc with rfl | hc
    · decide
    · exact hdigits hq c hc
  · exact hdigits h

theorem scanMarked_chars {mark before cs : List Char} (hmark : ∀ c ∈ mark, isNumberChar c = true) :
    ∀ c ∈ (scanMarked mark before cs).1, isNumberChar c = true := by
  unfold scanMarked
  split_ifs
  · simp
  · rintro c hc
    rcases List.mem_append.1 hc with hc | hc
    · exact hmark c hc
    · exact isNumberChar_digits c hc

/-- A number has no other characters. -/
theorem scanNumber_chars {cs : List Char} {p : NumberToken × List Char}
    (h : scanNumber cs = some p) :
    ∀ c ∈ p.1.text, isNumberChar c = true := by
  obtain ⟨q, hq, rfl⟩ := Option.map_eq_some_iff.1 h
  have hfraction : ∀ c ∈ (scanFraction q.2).1, isNumberChar c = true := by
    unfold scanFraction
    split
    · exact scanMarked_chars (List.forall_mem_singleton.2 rfl)
    · simp
  have hexponent : ∀ cs : List Char, ∀ c ∈ (scanExponent cs).1, isNumberChar c = true := by
    intro cs
    cases cs with
    | nil => simp [scanExponent]
    | cons e cs =>
      simp only [scanExponent]
      split_ifs with he
      · have hmark : isNumberChar e = true := by rcases he with rfl | rfl <;> decide
        cases cs with
        | nil => simp [scanPower]
        | cons s ds =>
          simp only [scanPower]
          split_ifs with hs
          · refine scanMarked_chars fun c hc => ?_
            rcases List.mem_cons.1 hc with rfl | hc
            · exact hmark
            · rw [List.mem_singleton.1 hc]
              rcases hs with rfl | rfl <;> decide
          · refine scanMarked_chars fun c hc => ?_
            rwa [List.mem_singleton.1 hc]
      · simp
  rintro c hc
  simp only [NumberToken.text, List.mem_append] at hc
  rcases hc with (hc | hc) | hc
  · exact scanInt_chars hq c hc
  · exact hfraction c hc
  · exact hexponent _ c hc

/-- A number begins with a digit or a minus. -/
theorem scanNumber_head {c : Char} {cs : List Char} {p : NumberToken × List Char}
    (h : scanNumber (c :: cs) = some p) :
    c = '-' ∨ c.isDigit = true := by
  obtain ⟨q, hq, -⟩ := Option.map_eq_some_iff.1 h
  unfold scanInt at hq
  split at hq
  · rename_i heq
    cases heq
    exact .inl rfl
  · simp only [scanDigits] at hq
    split_ifs at hq with hzero hdigit
    · exact .inr (hzero ▸ by decide)
    · exact .inr hdigit

/-! ## Integers -/

/-- The digits of a positive number begin with a digit that is not `0`. -/
theorem toDigits_head {n : ℕ} (hn : 0 < n) : ∃ c cs, Nat.toDigits 10 n = c :: cs ∧ c ≠ '0' := by
  induction n using Nat.strongRecOn with
  | ind n ih =>
    by_cases hlt : n < 10
    · refine ⟨n.digitChar, [], Nat.toDigits_of_lt_base hlt, fun heq => ?_⟩
      rw [Nat.digitChar_eq_zero] at heq
      omega
    · obtain ⟨c, cs, hcs, hc⟩ := ih (n / 10) (by omega) (by omega)
      exact ⟨c, cs ++ [(n % 10).digitChar], by
          rw [Nat.toDigits_of_base_le (by omega) (by omega), hcs]; rfl, hc⟩

theorem scanDigits_toDigits (n : ℕ) :
    scanDigits (Nat.toDigits 10 n) = some (Nat.toDigits 10 n, []) := by
  rcases Nat.eq_zero_or_pos n with rfl | hn
  · rfl
  · obtain ⟨c, cs, hcs, hc⟩ := toDigits_head hn
    have hdigit : c.isDigit = true :=
      Nat.isDigit_of_mem_toDigits (n := n) (b := 10) (by omega) (by omega) (by rw [hcs]; simp)
    have hall : digits cs = cs := List.takeWhile_eq_self_iff.2 fun d hd =>
      Nat.isDigit_of_mem_toDigits (n := n) (b := 10) (by omega) (by omega) (by rw [hcs]; simp [hd])
    have hnone : afterDigits cs = [] := List.dropWhile_eq_nil_iff.2 fun d hd =>
      Nat.isDigit_of_mem_toDigits (n := n) (b := 10) (by omega) (by omega) (by rw [hcs]; simp [hd])
    rw [hcs, scanDigits, if_neg hc, if_pos hdigit, hall, hnone]

theorem intText_natCast (n : ℕ) : (toString (n : ℤ)).toList = Nat.toDigits 10 n := by
  rw [← Nat.toList_repr]
  rfl

theorem intText_negSucc (n : ℕ) :
    (toString (Int.negSucc n)).toList = '-' :: Nat.toDigits 10 (n + 1) := by
  rw [← Nat.toList_repr]
  show ("-" ++ (n + 1).repr).toList = _
  rw [String.toList_append]
  rfl

theorem toDigits_ne_minus {n : ℕ} {cs : List Char} : Nat.toDigits 10 n ≠ '-' :: cs := by
  intro h
  have hdigit : '-'.isDigit = true :=
    Nat.isDigit_of_mem_toDigits (n := n) (b := 10) (by omega) (by omega) (by rw [h]; simp)
  exact absurd hdigit (by decide)

/-- The text of an integer is a number. -/
theorem scanNumber_int (n : ℤ) :
    scanNumber (toString n).toList = some (⟨(toString n).toList, [], []⟩, []) := by
  have hint : scanInt (toString n).toList = some ((toString n).toList, []) := by
    cases n with
    | ofNat n =>
      show scanInt (toString (n : ℤ)).toList = some ((toString (n : ℤ)).toList, [])
      rw [intText_natCast]
      unfold scanInt
      split
      · exact absurd (by assumption) toDigits_ne_minus
      · exact scanDigits_toDigits n
    | negSucc n =>
      rw [intText_negSucc, scanInt, scanDigits_toDigits]
      rfl
  rw [scanNumber, hint]
  rfl

/-- **The text of an integer reads as it.** -/
theorem readInt_text (n : ℤ) : readInt (toString n).toList = n := by
  cases n with
  | ofNat n =>
    show readInt (toString (n : ℤ)).toList = (n : ℤ)
    rw [intText_natCast]
    unfold readInt
    split
    · exact absurd (by assumption) toDigits_ne_minus
    · rw [Nat.ofDigitChars_ten_toDigits]
  | negSucc n =>
    rw [intText_negSucc, readInt, Nat.ofDigitChars_ten_toDigits]
    rfl

theorem filter_toDigits (n : ℕ) : (Nat.toDigits 10 n).filter (· ≠ '-') = Nat.toDigits 10 n := by
  refine List.filter_eq_self.2 fun c hc => ?_
  have hdigit : c.isDigit = true :=
    Nat.isDigit_of_mem_toDigits (n := n) (b := 10) (by omega) (by omega) hc
  have hne : c ≠ '-' := by
    rintro rfl
    exact absurd hdigit (by decide)
  simpa using hne

/-- The digits of an integer. -/
theorem filter_intText (n : ℤ) :
    (toString n).toList.filter (· ≠ '-') = Nat.toDigits 10 n.natAbs := by
  cases n with
  | ofNat n =>
    show (toString (n : ℤ)).toList.filter (· ≠ '-') = _
    rw [intText_natCast, filter_toDigits]
    rfl
  | negSucc n =>
    rw [intText_negSucc, List.filter_cons_of_neg (by decide), filter_toDigits]
    rfl

/-! ## White space -/

def isWs (c : Char) : Bool := c == ' ' || c == '\t' || c == '\n' || c == '\r'

def skipWs (cs : List Char) : List Char := cs.dropWhile isWs

theorem numberChar_of_isWs {c : Char} (h : isWs c = true) : isNumberChar c = false := by
  simp only [isWs, Bool.or_eq_true, beq_iff_eq] at h
  rcases h with ((rfl | rfl) | rfl) | rfl <;> decide

theorem skipWs_all {ws : List Char} (h : ∀ c ∈ ws, isWs c = true) : skipWs ws = [] :=
  List.dropWhile_eq_nil_iff.2 h

theorem skipWs_cons {c : Char} {cs : List Char} (hc : isWs c = false) :
    skipWs (c :: cs) = c :: cs := by
  rw [skipWs, List.dropWhile_cons_of_neg (by simp [hc])]

theorem skipWs_append {ws cs : List Char} (hws : ∀ c ∈ ws, isWs c = true) :
    skipWs (ws ++ cs) = skipWs cs := by
  induction ws with
  | nil => rfl
  | cons c ws ih =>
    rw [List.cons_append, skipWs, List.dropWhile_cons_of_pos (hws c List.mem_cons_self)]
    exact ih fun d hd => hws d (List.mem_cons_of_mem _ hd)

end JsonText

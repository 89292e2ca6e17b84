/-
  JSON texts: `json.loads` reads what `json.dumps` writes.

  * `readValue`, `readText`: the decoder, with the exceptions it raises;
  * `FloatCodec`: what is used of `repr` and `float`;
  * `readText_render`: a text reads as the value it was written from.
-/
import DatasourceKit.Clearance.Record

namespace DatasourceKit

open JsonText

/-! ## Reading -/

/-- What `json.loads` raises: `JSONDecodeError`, or `ValueError` for too many digits. -/
inductive ReadError where
  | malformed
  | overlong
deriving DecidableEq

/-- `repr` of a float, and `float` of a literal: `none` where it is infinite.  The text of a
    float is a number with a fraction or an exponent, and reads as the float. -/
class FloatCodec extends FloatText where
  IsFloat : ℚ → Prop
  readFloat : List Char → Option ℚ
  scan_text : ∀ {q}, IsFloat q → ∃ t, scanNumber (floatText q).toList = some (t, []) ∧
    (t.fraction ≠ [] ∨ t.exponent ≠ [])
  read_text : ∀ {q}, IsFloat q → readFloat (floatText q).toList = some q

/-- `d[k] = v`, where the members keep their order. -/
def setMember {α : Type} (d : List (String × α)) (k : String) (v : α) : List (String × α) :=
  if k ∈ d.map Prod.fst then d.map fun e => if e.1 = k then (k, v) else e else d ++ [(k, v)]

/-- `dict(pairs)`. -/
def dictOf {α : Type} (pairs : List (String × α)) : List (String × α) :=
  pairs.foldl (fun d e => setMember d e.1 e.2) []

section
variable [FloatCodec]

/-- The value of a number. -/
def numberValue (t : NumberToken) : Except ReadError Json :=
  if t.fraction = [] ∧ t.exponent = [] then
    if (t.int.filter (· ≠ '-')).length ≤ digitLimit then
      .ok (.int (JsonText.readInt t.int)) else .error .overlong
  else match FloatCodec.readFloat t.text with
    | some q => .ok (.float q)
    | none => .ok (.infinity (t.int.head? = some '-'))

/-- A constant or a number. -/
def readScalar (cs : List Char) : Except ReadError (Json × List Char) :=
  match cs with
  | 'n' :: 'u' :: 'l' :: 'l' :: rest => .ok (.null, rest)
  | 't' :: 'r' :: 'u' :: 'e' :: rest => .ok (.bool true, rest)
  | 'f' :: 'a' :: 'l' :: 's' :: 'e' :: rest => .ok (.bool false, rest)
  | 'N' :: 'a' :: 'N' :: rest => .ok (.nan, rest)
  | 'I' :: 'n' :: 'f' :: 'i' :: 'n' :: 'i' :: 't' :: 'y' :: rest => .ok (.infinity false, rest)
  | '-' :: 'I' :: 'n' :: 'f' :: 'i' :: 'n' :: 'i' :: 't' :: 'y' :: rest =>
    .ok (.infinity true, rest)
  | cs =>
    match scanNumber cs with
    | some p => (numberValue p.1).map fun v => (v, p.2)
    | none => .error .malformed

/-- A string, after its quotation mark. -/
def readQuoted (cs : List Char) : Except ReadError (String × List Char) :=
  match readString (cs.length + 1) cs with
  | some p => .ok (String.ofList p.1, p.2)
  | none => .error .malformed

mutual

/-- The value at the beginning of a text, in less than `n` nested steps. -/
def readValue : ℕ → List Char → Except ReadError (Json × List Char)
  | 0, _ | _, [] => .error .malformed
  | n + 1, c :: cs =>
    if c = '"' then (readQuoted cs).map fun p => (.str p.1, p.2)
    else if c = '[' then
      if (skipWs cs).head? = some ']' then .ok (.arr [], (skipWs cs).tail)
      else (readElements n (skipWs cs)).map fun p => (.arr p.1, p.2)
    else if c = '{' then
      if (skipWs cs).head? = some '}' then .ok (.obj [], (skipWs cs).tail)
      else (readMembers n (skipWs cs)).map fun p => (.obj (dictOf p.1), p.2)
    else readScalar (c :: cs)

/-- The elements of an array, and its bracket. -/
def readElements : ℕ → List Char → Except ReadError (List Json × List Char)
  | 0, _ => .error .malformed
  | n + 1, cs => (readValue n cs).bind fun p =>
    match skipWs p.2 with
    | [] => .error .malformed
    | c :: rest =>
      if c = ']' then .ok ([p.1], rest)
      else if c = ',' then (readElements n (skipWs rest)).map fun q => (p.1 :: q.1, q.2)
      else .error .malformed

/-- The members of an object, and its brace. -/
def readMembers : ℕ → List Char → Except ReadError (List (String × Json) × List Char)
  | 0, _ | _, [] => .error .malformed
  | n + 1, c :: cs =>
    if c = '"' then
      (readQuoted cs).bind fun k =>
      match skipWs k.2 with
      | [] => .error .malformed
      | c :: rest =>
        if c = ':' then
          (readValue n (skipWs rest)).bind fun p =>
          match skipWs p.2 with
          | [] => .error .malformed
          | c :: rest =>
            if c = '}' then .ok ([(k.1, p.1)], rest)
            else if c = ',' then (readMembers n (skipWs rest)).map fun q => ((k.1, p.1) :: q.1, q.2)
            else .error .malformed
        else .error .malformed
    else .error .malformed

end

/-- `json.loads(text)`. -/
def readText (cs : List Char) : Except ReadError Json :=
  (readValue (cs.length + 1) (skipWs cs)).bind fun p =>
    if skipWs p.2 = [] then .ok p.1 else .error .malformed

/-! ## What is written is read -/

mutual

/-- A JSON value: its floats are floats, and its objects have different keys. -/
def Json.Proper : Json → Prop
  | .float q => FloatCodec.IsFloat q
  | .nan => False
  | .arr l => Json.ProperList l
  | .obj l => (l.map Prod.fst).Nodup ∧ Json.ProperMembers l
  | _ => True

def Json.ProperList : List Json → Prop
  | [] => True
  | v :: l => v.Proper ∧ Json.ProperList l

def Json.ProperMembers : List (String × Json) → Prop
  | [] => True
  | (_, v) :: l => v.Proper ∧ Json.ProperMembers l

end

omit [FloatCodec] in
theorem readQuoted_quote (st : JsonStyle) (s : String) (rest : List Char) :
    ∃ cs, st.quote s ++ rest = '"' :: cs ∧ readQuoted cs = .ok (s, rest) := by
  refine ⟨s.toList.flatMap (escape st.ensureAscii) ++ '"' :: rest, ?_, ?_⟩
  · rw [JsonStyle.quote, List.cons_append, List.append_assoc, List.singleton_append]
  · have hlength := length_le_escape st.ensureAscii s.toList
    rw [readQuoted, readString_escape (by rw [List.length_append]; omega)]
    simp

theorem readScalar_number {cs : List Char} {p : NumberToken × List Char}
    (h : scanNumber cs = some p) :
    readScalar cs = (numberValue p.1).map fun v => (v, p.2) := by
  unfold readScalar
  split
  · cases h
  · cases h
  · cases h
  · cases h
  · cases h
  · cases h
  · rw [h]

/-- A number is read to its end. -/
theorem readValue_number {cs rest : List Char} {t : NumberToken} {v : Json} {n : ℕ}
    (h : scanNumber cs = some (t, [])) (hv : numberValue t = .ok v) (hr : Stops rest)
    (hn : cs.length ≤ n) : readValue n (cs ++ rest) = .ok (v, rest) := by
  cases cs with
  | nil => cases h
  | cons c cs =>
    obtain ⟨n, rfl⟩ : ∃ m, n = m + 1 := ⟨n - 1, by rw [List.length_cons] at hn; omega⟩
    have hscan := scanNumber_append hr h
    have hne : c ≠ '"' ∧ c ≠ '[' ∧ c ≠ '{' := by
      rcases scanNumber_head h with rfl | hdigit
      · decide
      · refine ⟨?_, ?_, ?_⟩ <;> (rintro rfl; exact absurd hdigit (by decide))
    rw [List.cons_append, readValue, if_neg hne.1, if_neg hne.2.1,
      if_neg hne.2.2, ← List.cons_append, readScalar_number hscan, hv]
    rfl

theorem readValue_cons {n : ℕ} {c : Char} {cs rest : List Char} {v : Json}
    (hne : c ≠ '"' ∧ c ≠ '[' ∧ c ≠ '{')
    (h : readScalar (c :: cs) = .ok (v, rest)) (hn : 0 < n) :
    readValue n (c :: cs) = .ok (v, rest) := by
  obtain ⟨n, rfl⟩ : ∃ m, n = m + 1 := ⟨n - 1, by omega⟩
  rw [readValue, if_neg hne.1, if_neg hne.2.1, if_neg hne.2.2, h]

omit [FloatCodec] in
/-- A mapping has different keys. -/
theorem nodup_dictOf {α : Type} (l : List (String × α)) : ((dictOf l).map Prod.fst).Nodup := by
  have hset : ∀ (d : List (String × α)) k v, (d.map Prod.fst).Nodup →
      ((setMember d k v).map Prod.fst).Nodup := by
    intro d k v hd
    unfold setMember
    split_ifs with hk
    · have hkeys : (d.map fun e => if e.1 = k then (k, v) else e).map Prod.fst =
          d.map Prod.fst := by
        rw [List.map_map]
        refine List.map_congr_left fun e _ => ?_
        show (if e.1 = k then (k, v) else e).1 = e.1
        split_ifs with he
        · exact he.symm
        · rfl
      rwa [hkeys]
    · rw [List.map_append, List.nodup_append]
      refine ⟨hd, by simp, fun a ha b hb heq => hk ?_⟩
      rw [List.map_singleton, List.mem_singleton] at hb
      rwa [heq, hb] at ha
  have hall : ∀ d : List (String × α), (d.map Prod.fst).Nodup →
      ((l.foldl (fun d e => setMember d e.1 e.2) d).map Prod.fst).Nodup := by
    induction l with
    | nil => exact fun _ hd => hd
    | cons e l ih => exact fun d hd => ih _ (hset d e.1 e.2 hd)
  exact hall [] List.nodup_nil

omit [FloatCodec] in
/-- Different keys: the members are as they are given. -/
theorem dictOf_eq {α : Type} {l : List (String × α)} (hl : (l.map Prod.fst).Nodup) :
    dictOf l = l := by
  have happend : ∀ d : List (String × α), ((d ++ l).map Prod.fst).Nodup →
      l.foldl (fun d e => setMember d e.1 e.2) d = d ++ l := by
    induction l with
    | nil => simp
    | cons e l ih =>
      intro d hd
      have hnew : e.1 ∉ d.map Prod.fst := by
        rw [List.map_append, List.map_cons, List.nodup_append] at hd
        exact fun hmem => hd.2.2 e.1 hmem e.1 List.mem_cons_self rfl
      have hset : setMember d e.1 e.2 = d ++ [e] := by rw [setMember, if_neg hnew]
      rw [List.foldl_cons, hset, ih (List.nodup_cons.1 hl).2 (d ++ [e]) (by simpa using hd),
        List.append_assoc, List.singleton_append]
  exact (happend [] (by simpa using hl)).trans (List.nil_append l)

variable {st : JsonStyle}

omit [FloatCodec] in
theorem JsonStyle.newline_ws {level : ℕ} : ∀ c ∈ st.newline level, isWs c = true := by
  intro c hc
  unfold JsonStyle.newline at hc
  split at hc
  · cases hc
  · rcases List.mem_cons.1 hc with rfl | hc
    · rfl
    · rw [List.eq_of_mem_replicate hc]
      rfl

omit [FloatCodec] in
theorem stops_cons {c : Char} {cs : List Char} (h : isNumberChar c = false) : Stops (c :: cs) := by
  rintro d hd
  cases hd
  exact h

omit [FloatCodec] in
theorem stops_newline {level : ℕ} {c : Char} {cs : List Char} (h : isNumberChar c = false) :
    Stops (st.newline level ++ c :: cs) := by
  unfold JsonStyle.newline
  split
  · exact stops_cons h
  · exact stops_cons (by decide)

omit [FloatCodec] in
theorem skipWs_newline {level : ℕ} {c : Char} {cs : List Char} (h : isWs c = false) :
    skipWs (st.newline level ++ c :: cs) = c :: cs := by
  rw [skipWs_append JsonStyle.newline_ws, skipWs_cons h]

/-- The text of a value begins with no white space and no bracket that closes. -/
theorem Json.render_head {v : Json} (hv : v.Proper) (level : ℕ) :
    ∃ c cs, v.render st level = c :: cs ∧ isWs c = false ∧ c ≠ ']' := by
  have hnumber : ∀ {cs : List Char} {p}, scanNumber cs = some p →
      ∃ c l, cs = c :: l ∧ isWs c = false ∧ c ≠ ']' := by
    intro cs p h
    cases cs with
    | nil => cases h
    | cons c cs =>
      refine ⟨c, cs, rfl, ?_⟩
      rcases scanNumber_head h with rfl | hdigit
      · decide
      · constructor
        · rw [Bool.eq_false_iff]
          intro hws
          simp only [isWs, Bool.or_eq_true, beq_iff_eq] at hws
          rcases hws with ((rfl | rfl) | rfl) | rfl <;> exact absurd hdigit (by decide)
        · rintro rfl
          exact absurd hdigit (by decide)
  cases v with
  | null => exact ⟨_, _, rfl, by decide⟩
  | bool b => cases b <;> exact ⟨_, _, rfl, by decide⟩
  | int n =>
    rw [Json.render]
    exact hnumber (scanNumber_int n)
  | float q =>
    obtain ⟨t, ht, -⟩ := FloatCodec.scan_text hv
    rw [Json.render]
    exact hnumber ht
  | nan => exact hv.elim
  | infinity neg => cases neg <;> exact ⟨_, _, rfl, by decide⟩
  | str s => exact ⟨_, _, rfl, by decide⟩
  | arr l => cases l <;> exact ⟨_, _, rfl, by decide⟩
  | obj l => cases l <;> exact ⟨_, _, rfl, by decide⟩

theorem skipWs_render {ws rest : List Char} {v : Json} {level : ℕ}
    (hws : ∀ c ∈ ws, isWs c = true) (hv : v.Proper) :
    skipWs (ws ++ (v.render st level ++ rest)) = v.render st level ++ rest := by
  obtain ⟨c, cs, hcs, hc, -⟩ := @Json.render_head _ st v hv level
  rw [skipWs_append hws, hcs, List.cons_append, skipWs_cons hc]

theorem stops_items (hst : st.Plain) {level : ℕ} {l : List Json} {tail : List Char}
    (htail : Stops tail) :
    Stops (Json.renderItems st level l ++ tail) := by
  cases l with
  | nil => exact htail
  | cons v l =>
    obtain ⟨ws, hws, -⟩ := hst.item
    rw [Json.renderItems, hws]
    exact stops_cons (by decide)

theorem stops_members (hst : st.Plain) {level : ℕ} {l : List (String × Json)} {tail : List Char}
    (htail : Stops tail) :
    Stops (Json.renderMembers st level l ++ tail) := by
  cases l with
  | nil => exact htail
  | cons e l =>
    obtain ⟨ws, hws, -⟩ := hst.item
    rw [Json.renderMembers, hws]
    exact stops_cons (by decide)

omit [FloatCodec] in
/-- After a separator, and the beginning of a line. -/
theorem skipWs_item {ws : List Char} {level : ℕ} {w : List Char} (hws : ∀ c ∈ ws, isWs c = true) :
    skipWs (ws ++ (st.newline level ++ w)) = skipWs w := by
  rw [skipWs_append hws, skipWs_append JsonStyle.newline_ws]

theorem skipWs_value {v : Json} (hv : v.Proper) (level : ℕ) (rest : List Char) :
    skipWs (v.render st level ++ rest) = v.render st level ++ rest :=
  @skipWs_render _ st [] rest v level (by simp) hv

mutual

/-- **A value is read from its text**, whatever comes after it. -/
theorem readValue_render (hst : st.Plain) :
    ∀ (v : Json) {level n : ℕ} {rest : List Char}, v.Proper → v.digitsOk = true →
    (v.render st level).length ≤ n → Stops rest →
    readValue n (v.render st level ++ rest) = .ok (v, rest)
  | .null, level, n, rest, _, _, hn, _ =>
    readValue_cons (by decide) rfl (Nat.lt_of_lt_of_le (by simp [Json.render]) hn)
  | .bool true, level, n, rest, _, _, hn, _ =>
    readValue_cons (by decide) rfl (Nat.lt_of_lt_of_le (by simp [Json.render]) hn)
  | .bool false, level, n, rest, _, _, hn, _ =>
    readValue_cons (by decide) rfl (Nat.lt_of_lt_of_le (by simp [Json.render]) hn)
  | .infinity true, level, n, rest, _, _, hn, _ =>
    readValue_cons (by decide) rfl (Nat.lt_of_lt_of_le (by simp [Json.render]) hn)
  | .infinity false, level, n, rest, _, _, hn, _ =>
    readValue_cons (by decide) rfl (Nat.lt_of_lt_of_le (by simp [Json.render]) hn)
  | .int k, level, n, rest, _, hd, hn, hr => by
    rw [Json.render] at hn ⊢
    refine readValue_number (scanNumber_int k) ?_ hr hn
    have hdigits := of_decide_eq_true hd
    rw [numberValue, if_pos ⟨rfl, rfl⟩, filter_intText, if_pos hdigits, readInt_text]
  | .float q, level, n, rest, hq, _, hn, hr => by
    rw [Json.render] at hn ⊢
    obtain ⟨t, ht, hpart⟩ := FloatCodec.scan_text hq
    refine readValue_number ht ?_ hr hn
    have htext := scanNumber_text ht
    rw [List.append_nil] at htext
    rw [numberValue, if_neg (by tauto), htext, FloatCodec.read_text hq]
  | .str s, level, n, rest, _, _, hn, _ => by
    obtain ⟨n, rfl⟩ : ∃ m, n = m + 1 :=
      Nat.exists_eq_add_one.2 (Nat.lt_of_lt_of_le (by simp [Json.render, JsonStyle.quote]) hn)
    obtain ⟨cs, hcs, hread⟩ := readQuoted_quote st s rest
    rw [Json.render, hcs, readValue, if_pos rfl, hread]
    rfl
  | .arr [], level, n, rest, _, _, hn, _ => by
    obtain ⟨n, rfl⟩ : ∃ m, n = m + 1 :=
      Nat.exists_eq_add_one.2 (Nat.lt_of_lt_of_le (by simp [Json.render]) hn)
    rfl
  | .arr (w :: l), level, n, rest, hv, hd, hn, _ => by
    simp only [Json.render, List.length_cons, List.length_append] at hn
    obtain ⟨n, rfl⟩ : ∃ m, n = m + 1 := ⟨n - 1, by omega⟩
    simp only [Json.digitsOk, Json.digitsOkList, Bool.and_eq_true] at hd
    have hread := @readElements_render hst w l (level + 1) n (st.newline level ++ ']' :: rest) rest
      hv.1 hv.2 hd.1 hd.2 (by omega) (skipWs_newline (by decide)) (stops_newline (by decide))
    obtain ⟨c, cs, hcs, -, hne⟩ := @Json.render_head _ st w hv.1 (level + 1)
    have htext : Json.render st level (.arr (w :: l)) ++ rest = '[' :: (st.newline (level + 1) ++
        (w.render st (level + 1) ++
          (Json.renderItems st (level + 1) l ++ (st.newline level ++ ']' :: rest)))) := by
      simp [Json.render]
    rw [htext, readValue, if_neg (by decide), if_pos rfl,
      skipWs_render JsonStyle.newline_ws hv.1, if_neg, hread]
    · rfl
    · rw [hcs]
      simpa using hne
  | .obj [], level, n, rest, _, _, hn, _ => by
    obtain ⟨n, rfl⟩ : ∃ m, n = m + 1 :=
      Nat.exists_eq_add_one.2 (Nat.lt_of_lt_of_le (by simp [Json.render]) hn)
    rfl
  | .obj ((k, w) :: l), level, n, rest, hv, hd, hn, _ => by
    simp only [Json.render, List.length_cons, List.length_append] at hn
    obtain ⟨n, rfl⟩ : ∃ m, n = m + 1 := ⟨n - 1, by omega⟩
    simp only [Json.digitsOk, Json.digitsOkObj, Bool.and_eq_true] at hd
    obtain ⟨hnodup, hw, hl⟩ := hv
    have hread := @readMembers_render hst k w l (level + 1) n (st.newline level ++ '}' :: rest) rest
      hw hl hd.1 hd.2 (by omega) (skipWs_newline (by decide)) (stops_newline (by decide))
    have htext : Json.render st level (.obj ((k, w) :: l)) ++ rest =
        '{' :: (st.newline (level + 1) ++
        (st.quote k ++ (st.key ++ (w.render st (level + 1) ++
          (Json.renderMembers st (level + 1) l ++ (st.newline level ++ '}' :: rest)))))) := by
      simp [Json.render]
    obtain ⟨cs, hcs, -⟩ := readQuoted_quote st k (st.key ++ (w.render st (level + 1) ++
      (Json.renderMembers st (level + 1) l ++ (st.newline level ++ '}' :: rest))))
    rw [hcs] at hread htext
    rw [htext, readValue, if_neg (by decide), if_neg (by decide), if_pos rfl,
      skipWs_newline (by decide), if_neg (by simp), hread]
    show Except.ok (Json.obj (dictOf _), rest) = _
    rw [dictOf_eq hnodup]
termination_by v => sizeOf v

/-- The elements of an array, and what closes it. -/
theorem readElements_render (hst : st.Plain) :
    ∀ (w : Json) (l : List Json) {level n : ℕ} {tail rest : List Char}, w.Proper →
    Json.ProperList l → w.digitsOk = true → Json.digitsOkList l = true →
    (w.render st level).length + (Json.renderItems st level l).length < n →
    skipWs tail = ']' :: rest → Stops tail →
    readElements n (w.render st level ++ (Json.renderItems st level l ++ tail)) = .ok (w :: l, rest)
  | w, [], level, n, tail, rest, hw, _, hd, _, hn, hclose, htail => by
    obtain ⟨n, rfl⟩ : ∃ m, n = m + 1 := ⟨n - 1, by omega⟩
    rw [readElements, readValue_render hst w hw hd (by omega) (stops_items hst htail)]
    simp only [Except.bind, Json.renderItems, List.nil_append, hclose]
    rfl
  | w, v :: l, level, n, tail, rest, hw, hl, hd, hdl, hn, hclose, htail => by
    obtain ⟨n, rfl⟩ : ∃ m, n = m + 1 := ⟨n - 1, by omega⟩
    simp only [Json.renderItems, List.length_append] at hn
    simp only [Json.digitsOkList, Bool.and_eq_true] at hdl
    obtain ⟨ws, hitem, hws⟩ := hst.item
    have hsep : 0 < st.item.length := by
      rw [hitem]
      simp
    have hread := @readElements_render hst v l level n _ _ hl.1 hl.2 hdl.1 hdl.2
      (by omega) hclose htail
    rw [readElements, readValue_render hst w hw hd (by omega) (stops_items hst htail)]
    have htext : Json.renderItems st level (v :: l) ++ tail = ',' :: (ws ++ (st.newline level ++
        (v.render st level ++ (Json.renderItems st level l ++ tail)))) := by
      simp [Json.renderItems, hitem]
    simp only [Except.bind, htext]
    rw [skipWs_cons (by decide)]
    simp only [if_neg (show ( ',' : Char) ≠ ']' by decide), if_pos]
    rw [skipWs_item hws, skipWs_value hl.1, hread]
    rfl
termination_by w l => sizeOf (w :: l)

/-- The members of an object, and what closes it. -/
theorem readMembers_render (hst : st.Plain) :
    ∀ (k : String) (w : Json) (l : List (String × Json)) {level n : ℕ} {tail rest : List Char},
    w.Proper → Json.ProperMembers l → w.digitsOk = true → Json.digitsOkObj l = true →
    (w.render st level).length + (Json.renderMembers st level l).length < n →
    skipWs tail = '}' :: rest → Stops tail →
    readMembers n (st.quote k ++
      (st.key ++ (w.render st level ++ (Json.renderMembers st level l ++ tail)))) =
      .ok ((k, w) :: l, rest)
  | k, w, [], level, n, tail, rest, hw, _, hd, _, hn, hclose, htail => by
    obtain ⟨n, rfl⟩ : ∃ m, n = m + 1 := ⟨n - 1, by omega⟩
    obtain ⟨cs, hcs, hkey⟩ := readQuoted_quote st k (st.key ++ (w.render st level ++ tail))
    obtain ⟨ws, hcolon, hws⟩ := hst.key
    rw [Json.renderMembers, List.nil_append, hcs, readMembers, if_pos rfl, hkey]
    simp only [Except.bind, hcolon, List.cons_append]
    rw [skipWs_cons (by decide)]
    simp only [if_pos]
    rw [skipWs_render hws hw, readValue_render hst w hw hd (by omega) htail]
    simp only [hclose]
    rfl
  | k, w, (k', v) :: l, level, n, tail, rest, hw, hl, hd, hdl, hn, hclose, htail => by
    obtain ⟨n, rfl⟩ : ∃ m, n = m + 1 := ⟨n - 1, by omega⟩
    simp only [Json.renderMembers, List.length_append] at hn
    simp only [Json.digitsOkObj, Bool.and_eq_true] at hdl
    obtain ⟨ws, hitem, hws⟩ := hst.item
    obtain ⟨ws', hcolon, hws'⟩ := hst.key
    have hsep : 0 < st.item.length := by
      rw [hitem]
      simp
    have hread := @readMembers_render hst k' v l level n _ _ hl.1 hl.2 hdl.1 hdl.2
      (by omega) hclose htail
    obtain ⟨cs, hcs, hkey⟩ := readQuoted_quote st k (st.key ++ (w.render st level ++
      (Json.renderMembers st level ((k', v) :: l) ++ tail)))
    obtain ⟨cs', hcs', -⟩ := readQuoted_quote st k' (st.key ++ (v.render st level ++
      (Json.renderMembers st level l ++ tail)))
    have htext : Json.renderMembers st level ((k', v) :: l) ++ tail =
        ',' :: (ws ++ (st.newline level ++ '"' :: cs')) := by
      rw [← hcs']
      simp [Json.renderMembers, hitem]
    rw [hcs, readMembers, if_pos rfl, hkey]
    simp only [Except.bind, hcolon, List.cons_append]
    rw [skipWs_cons (by decide)]
    simp only [if_pos]
    rw [skipWs_render hws' hw, readValue_render hst w hw hd (by omega) (stops_members hst htail)]
    simp only [htext]
    rw [skipWs_cons (by decide)]
    simp only [if_neg (show ( ',' : Char) ≠ '}' by decide), if_pos]
    rw [skipWs_item hws, skipWs_cons (by decide), ← hcs', hread]
    rfl
termination_by k w l => sizeOf ((k, w) :: l)

end

/-- `json.loads` gets back what `json.dumps` was given, with white space after it. -/
theorem readText_append (hst : st.Plain) {v : Json} (hv : v.Proper) (hd : v.digitsOk = true)
    {ws : List Char} (hws : ∀ c ∈ ws, isWs c = true) : readText (v.render st 0 ++ ws) = .ok v := by
  have hstops : Stops ws := by
    intro c hc
    exact numberChar_of_isWs (hws c (List.mem_of_mem_head? hc))
  have hread := @readValue_render _ st hst v 0 ((v.render st 0 ++ ws).length + 1) ws hv hd
    (by rw [List.length_append]; omega) hstops
  rw [readText, skipWs_value hv, hread]
  exact if_pos (skipWs_all hws)

/-- **`json.loads` gets back what `json.dumps` was given.** -/
theorem readText_render (hst : st.Plain) {v : Json} (hv : v.Proper) (hd : v.digitsOk = true) :
    readText (v.render st 0) = .ok v := by
  have hread := @readText_append _ st hst v hv hd [] (by simp)
  rwa [List.append_nil] at hread

/-! ## The characters of a text -/

/-- The characters of constants and brackets. -/
def marks : List Char := "nulltruefalseInfinity[]{}".toList

section
variable {P : Char → Prop}

mutual

/-- What holds of the characters of strings, numbers, constants and separators holds of all. -/
theorem Json.render_all (hquote : ∀ s, ∀ c ∈ st.quote s, P c) (hitem : ∀ c ∈ st.item, P c)
    (hkey : ∀ c ∈ st.key, P c) (hline : ∀ level, ∀ c ∈ st.newline level, P c)
    (hnumber : ∀ c, isNumberChar c = true → P c) (hmark : ∀ c ∈ marks, P c) :
    ∀ (v : Json) (level : ℕ), v.Proper → ∀ c ∈ v.render st level, P c
  | .null, _, _ => fun c hc => hmark c ((by decide : ['n', 'u', 'l', 'l'] ⊆ marks) hc)
  | .bool true, _, _ => fun c hc => hmark c ((by decide : ['t', 'r', 'u', 'e'] ⊆ marks) hc)
  | .bool false, _, _ => fun c hc => hmark c ((by decide : ['f', 'a', 'l', 's', 'e'] ⊆ marks) hc)
  | .infinity neg, _, _ => by
    have hname : ∀ c ∈ ['I', 'n', 'f', 'i', 'n', 'i', 't', 'y'], P c := fun c hc =>
      hmark c ((by decide : ['I', 'n', 'f', 'i', 'n', 'i', 't', 'y'] ⊆ marks) hc)
    cases neg with
    | false => exact hname
    | true => exact List.forall_mem_cons.2 ⟨hnumber '-' (by decide), hname⟩
  | .arr [], _, _ => fun c hc => hmark c ((by decide : ['[', ']'] ⊆ marks) hc)
  | .obj [], _, _ => fun c hc => hmark c ((by decide : ['{', '}'] ⊆ marks) hc)
  | .int n, _, _ => by
    intro c hc
    rw [Json.render] at hc
    exact hnumber c (scanNumber_chars (scanNumber_int n) c (by simpa [NumberToken.text] using hc))
  | .float q, _, hq => by
    intro c hc
    rw [Json.render] at hc
    obtain ⟨t, ht, -⟩ := FloatCodec.scan_text hq
    have htext := scanNumber_text ht
    rw [List.append_nil] at htext
    exact hnumber c (scanNumber_chars ht c (by rwa [htext]))
  | .str s, _, _ => hquote s
  | .arr (w :: l), level, hv => by
    have hw := Json.render_all hquote hitem hkey hline hnumber hmark w (level + 1) hv.1
    have hl := Json.renderItems_all hquote hitem hkey hline hnumber hmark l (level + 1) hv.2
    intro c hc
    simp only [Json.render, List.mem_cons, List.mem_append, List.not_mem_nil, or_false] at hc
    rcases hc with rfl | hc | hc | hc | hc | rfl
    · exact hmark _ (by decide)
    · exact hline _ c hc
    · exact hw c hc
    · exact hl c hc
    · exact hline _ c hc
    · exact hmark _ (by decide)
  | .obj ((k, w) :: l), level, hv => by
    have hw := Json.render_all hquote hitem hkey hline hnumber hmark w (level + 1) hv.2.1
    have hl := Json.renderMembers_all hquote hitem hkey hline hnumber hmark l (level + 1) hv.2.2
    intro c hc
    simp only [Json.render, List.mem_cons, List.mem_append, List.not_mem_nil, or_false] at hc
    rcases hc with rfl | hc | hc | hc | hc | hc | hc | rfl
    · exact hmark _ (by decide)
    · exact hline _ c hc
    · exact hquote k c hc
    · exact hkey c hc
    · exact hw c hc
    · exact hl c hc
    · exact hline _ c hc
    · exact hmark _ (by decide)
termination_by v => sizeOf v

theorem Json.renderItems_all (hquote : ∀ s, ∀ c ∈ st.quote s, P c) (hitem : ∀ c ∈ st.item, P c)
    (hkey : ∀ c ∈ st.key, P c) (hline : ∀ level, ∀ c ∈ st.newline level, P c)
    (hnumber : ∀ c, isNumberChar c = true → P c) (hmark : ∀ c ∈ marks, P c) :
    ∀ (l : List Json) (level : ℕ), Json.ProperList l → ∀ c ∈ Json.renderItems st level l, P c
  | [], _, _ => fun _ hc => nomatch hc
  | v :: l, level, hl => by
    have hv := Json.render_all hquote hitem hkey hline hnumber hmark v level hl.1
    have hrest := Json.renderItems_all hquote hitem hkey hline hnumber hmark l level hl.2
    intro c hc
    simp only [Json.renderItems, List.mem_append] at hc
    rcases hc with hc | hc | hc | hc
    · exact hitem c hc
    · exact hline _ c hc
    · exact hv c hc
    · exact hrest c hc
termination_by l => sizeOf l

theorem Json.renderMembers_all (hquote : ∀ s, ∀ c ∈ st.quote s, P c) (hitem : ∀ c ∈ st.item, P c)
    (hkey : ∀ c ∈ st.key, P c) (hline : ∀ level, ∀ c ∈ st.newline level, P c)
    (hnumber : ∀ c, isNumberChar c = true → P c) (hmark : ∀ c ∈ marks, P c) :
    ∀ (l : List (String × Json)) (level : ℕ), Json.ProperMembers l →
    ∀ c ∈ Json.renderMembers st level l, P c
  | [], _, _ => fun _ hc => nomatch hc
  | (k, v) :: l, level, hl => by
    have hv := Json.render_all hquote hitem hkey hline hnumber hmark v level hl.1
    have hrest := Json.renderMembers_all hquote hitem hkey hline hnumber hmark l level hl.2
    intro c hc
    simp only [Json.renderMembers, List.mem_append] at hc
    rcases hc with hc | hc | hc | hc | hc | hc
    · exact hitem c hc
    · exact hline _ c hc
    · exact hquote k c hc
    · exact hkey c hc
    · exact hv c hc
    · exact hrest c hc
termination_by l => sizeOf l

end

end

omit [FloatCodec] in
theorem newline_notMem_quote (s : String) : '\n' ∉ st.quote s := by
  simp [JsonStyle.quote, newline_notMem_escape]

/-- Without `indent`, a value is written on one line. -/
theorem newline_notMem_render (hindent : st.indent = none) (hitem : '\n' ∉ st.item)
    (hkey : '\n' ∉ st.key) (v : Json) (level : ℕ) (hv : v.Proper) : '\n' ∉ v.render st level := by
  refine fun hmem => Json.render_all (P := (· ≠ '\n')) ?_ ?_ ?_ ?_ ?_ ?_ v level hv _ hmem rfl
  · rintro s c hc rfl
    exact newline_notMem_quote s hc
  · rintro c hc rfl
    exact hitem hc
  · rintro c hc rfl
    exact hkey hc
  · intro level c hc
    rw [JsonStyle.newline, hindent] at hc
    cases hc
  · rintro c hc rfl
    cases hc
  · rintro c hc rfl
    exact absurd hc (by decide)

omit [FloatCodec] in
theorem ascii_quote (hascii : st.ensureAscii = true) (s : String) :
    ∀ c ∈ st.quote s, c.toNat < 0x80 := by
  intro c hc
  rw [JsonStyle.quote, List.mem_cons, List.mem_append, List.mem_flatMap, List.mem_singleton] at hc
  rcases hc with rfl | ⟨d, -, hd⟩ | rfl
  · decide
  · rw [hascii] at hd
    exact ascii_escape d c hd
  · decide

/-- With `ensure_ascii`, the text is ASCII. -/
theorem ascii_render (hascii : st.ensureAscii = true) (hst : st.Plain) {v : Json}
    (hv : v.Proper) (level : ℕ) :
    ∀ c ∈ v.render st level, c.toNat < 0x80 := by
  have hws : ∀ c, isWs c = true → c.toNat < 0x80 := by
    intro c hc
    simp only [isWs, Bool.or_eq_true, beq_iff_eq] at hc
    rcases hc with ((rfl | rfl) | rfl) | rfl <;> decide
  have hsep : ∀ (a : Char) (sep : List Char), a.toNat < 0x80 →
      (∃ ws, sep = a :: ws ∧ ∀ c ∈ ws, isWs c = true) → ∀ c ∈ sep, c.toNat < 0x80 := by
    rintro a _ ha ⟨ws, rfl, hall⟩ c hc
    rcases List.mem_cons.1 hc with rfl | hc
    · exact ha
    · exact hws c (hall c hc)
  have hmarks : (marks.all fun c => decide (c.toNat < 0x80)) = true := by decide
  refine Json.render_all (ascii_quote hascii) (hsep ',' _ (by decide) hst.item)
    (hsep ':' _ (by decide) hst.key) ?_ ?_
    (by simpa only [List.all_eq_true, decide_eq_true_eq] using hmarks) v level hv
  · exact fun level c hc => hws c (JsonStyle.newline_ws c hc)
  · intro c hc
    exact ascii_numberChar hc

end

/-! ## Bytes -/

/-- `text.encode()`. -/
def utf8 (cs : List Char) : Bytes := (String.ofList cs).toByteArray.data.toList

/-- `raw.decode()`, where the bytes are UTF-8. -/
def decodeUtf8 (raw : Bytes) : Option (List Char) :=
  (ByteArray.mk raw.toArray).utf8Decode?.map Array.toList

@[simp] theorem decodeUtf8_utf8 (cs : List Char) : decodeUtf8 (utf8 cs) = some cs := by
  have hdecode : cs.utf8Encode.utf8Decode? = some cs.toArray := List.utf8Decode?_utf8Encode
  rw [decodeUtf8, utf8, Array.toArray_toList, String.toByteArray_ofList]
  show cs.utf8Encode.utf8Decode?.map Array.toList = some cs
  rw [hdecode]
  rfl

theorem utf8_append (cs ds : List Char) : utf8 (cs ++ ds) = utf8 cs ++ utf8 ds := by
  simp [utf8]

/-! ## Mappings -/

namespace Dict

/-- `dict(members)`. -/
def ofMembers (l : List (String × Json)) : Dict := Dict.update ∅ l

/-- The entries of a mapping that gets new members. -/
theorem update_perm {d : Dict} {l : List (String × Json)} (hl : (l.map Prod.fst).Nodup)
    (hd : ∀ e ∈ l, e.1 ∉ d) :
    (d.update l).entries.Perm (d.entries ++ l.map fun e => ⟨e.1, e.2⟩) := by
  induction l generalizing d with
  | nil => rw [List.map_nil, List.append_nil]; exact List.Perm.refl _
  | cons e l ih =>
    obtain ⟨hnew, hl⟩ := List.nodup_cons.1 hl
    have hset : (d.set e.1 e.2).entries = ⟨e.1, e.2⟩ :: d.entries :=
      AList.entries_insert_of_notMem (hd e List.mem_cons_self)
    have hrest : ∀ x ∈ l, x.1 ∉ d.set e.1 e.2 := by
      intro x hx
      rw [set, AList.mem_insert, not_or]
      exact ⟨fun heq => hnew (List.mem_map.2 ⟨x, hx, heq⟩), hd x (List.mem_cons_of_mem _ hx)⟩
    have hperm := ih hl hrest
    rw [hset] at hperm
    exact hperm.trans List.perm_middle.symm

end Dict

/-! ## Sorted members -/

mutual

theorem Json.digitsOk_sorted : ∀ v : Json, v.sorted.digitsOk = v.digitsOk
  | .null | .bool _ | .int _ | .float _ | .nan | .infinity _ | .str _ => rfl
  | .arr l => Json.digitsOkList_sorted l
  | .obj l => by
    have hperm : (sortMembers (Json.sortedMembers l)).Perm (Json.sortedMembers l) :=
      List.perm_insertionSort _ _
    rw [Json.sorted, Json.digitsOk, digitsOkObj_perm hperm,
      Json.digitsOkObj_sorted l, Json.digitsOk]

theorem Json.digitsOkList_sorted :
    ∀ l : List Json, Json.digitsOkList (Json.sortedList l) = Json.digitsOkList l
  | [] => rfl
  | v :: l => by rw [Json.sortedList, Json.digitsOkList, Json.digitsOk_sorted v,
    Json.digitsOkList_sorted l, Json.digitsOkList]

theorem Json.digitsOkObj_sorted : ∀ l : List (String × Json),
    Json.digitsOkObj (Json.sortedMembers l) = Json.digitsOkObj l
  | [] => rfl
  | (_, v) :: l => by
    rw [Json.sortedMembers, Json.digitsOkObj, Json.digitsOk_sorted v,
      Json.digitsOkObj_sorted l, Json.digitsOkObj]

end

/-- The value of a key, where the keys are different. -/
theorem lookup_of_mem {α : Type} {l : List (String × α)} (hl : (l.map Prod.fst).Nodup) {k : String}
    {v : α} (h : (k, v) ∈ l) : l.lookup k = some v := by
  induction l with
  | nil => cases h
  | cons e l ih =>
    obtain ⟨hnew, hl⟩ := List.nodup_cons.1 hl
    rcases List.mem_cons.1 h with rfl | h
    · simp
    · have hne : k ≠ e.1 := by
        rintro rfl
        exact hnew (List.mem_map.2 ⟨_, h, rfl⟩)
      rw [List.lookup_cons, beq_false_of_ne hne]
      exact ih hl h

section
variable [FloatCodec]

theorem properMembers_iff {l : List (String × Json)} :
    Json.ProperMembers l ↔ ∀ e ∈ l, e.2.Proper := by
  induction l with
  | nil => simp [Json.ProperMembers]
  | cons e l ih => simp [Json.ProperMembers, ih]

mutual

/-- Sorting keeps what is written a JSON value. -/
theorem Json.proper_sorted : ∀ v : Json, v.Proper → v.sorted.Proper
  | .null, hv | .bool _, hv | .int _, hv | .float _, hv | .nan,
    hv | .infinity _, hv | .str _, hv => hv
  | .arr l, hv => Json.properList_sorted l hv
  | .obj l, hv => by
    have hkeys : ((sortMembers (Json.sortedMembers l)).map Prod.fst).Nodup := by
      rw [(sortMembers_keys _).nodup_iff, keys_sortedMembers]
      exact hv.1
    refine ⟨hkeys, properMembers_iff.2 fun e he => ?_⟩
    exact properMembers_iff.1 (Json.properMembers_sorted l hv.2) e (sortMembers_mem.1 he)

theorem Json.properList_sorted : ∀ l : List Json, Json.ProperList l →
    Json.ProperList (Json.sortedList l)
  | [], _ => trivial
  | v :: l, hl => ⟨Json.proper_sorted v hl.1, Json.properList_sorted l hl.2⟩

theorem Json.properMembers_sorted : ∀ l : List (String × Json), Json.ProperMembers l →
    Json.ProperMembers (Json.sortedMembers l)
  | [], _ => trivial
  | (_, v) :: l, hl => ⟨Json.proper_sorted v hl.1, Json.properMembers_sorted l hl.2⟩

end

mutual

/-- **A value is equal to the one that is written with sorted keys.** -/
theorem Json.pyEq_sorted : ∀ v : Json, v.Proper → v.pyEq v.sorted = true
  | .null, _ => rfl
  | .bool b, _ => Json.pyEq_self (v := .bool b) trivial
  | .int n, _ => Json.pyEq_self (v := .int n) trivial
  | .float q, _ => by simp [Json.sorted, Json.pyEq, Json.numeric]
  | .infinity neg, _ => by simp [Json.sorted, Json.pyEq]
  | .str s, _ => Json.pyEq_self (v := .str s) trivial
  | .arr l, hv => by
    rw [Json.sorted, Json.pyEq]
    exact Json.pyEqList_sorted l hv
  | .obj l, hv => by
    rw [Json.sorted, Json.pyEq, Bool.and_eq_true]
    have hkeys : ((sortMembers (Json.sortedMembers l)).map Prod.fst).Nodup :=
      (Json.proper_sorted (.obj l) hv).1
    refine ⟨?_, Json.pyEqObj_sorted l _ hv.2 fun e he => lookup_of_mem hkeys (sortMembers_mem.2 ?_)⟩
    · rw [beq_iff_eq, sortMembers, List.length_insertionSort, sortedMembers_eq, List.length_map]
    · rw [sortedMembers_eq]
      exact List.mem_map_of_mem he

theorem Json.pyEqList_sorted : ∀ l : List Json, Json.ProperList l →
    Json.pyEqList l (Json.sortedList l) = true
  | [], _ => rfl
  | v :: l, hl => by
    rw [Json.sortedList, Json.pyEqList, Json.pyEq_sorted v hl.1, Json.pyEqList_sorted l hl.2]
    rfl

theorem Json.pyEqObj_sorted : ∀ l m : List (String × Json), Json.ProperMembers l →
    (∀ e ∈ l, m.lookup e.1 = some e.2.sorted) → Json.pyEqObj l m = true
  | [], _, _, _ => rfl
  | (k, v) :: l, m, hl, hm => by
    rw [Json.pyEqObj, hm (k, v) List.mem_cons_self, Option.any_some, Json.pyEq_sorted v hl.1,
      Json.pyEqObj_sorted l m hl.2 fun e he => hm e (List.mem_cons_of_mem _ he)]
    rfl

end

end

/-! ### An instance -/

/-- One float, `1.0`. -/
@[reducible]
def oneFloat : FloatCodec where
  floatText _ := "1.0"
  IsFloat q := q = 1
  readFloat _ := some 1
  scan_text h := ⟨⟨['1'], ['.', '0'], []⟩, by decide, .inl (by simp)⟩
  read_text h := by rw [h]

end DatasourceKit

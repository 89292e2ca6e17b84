/-
  What is written of a clearance, `json.loads` reads: hosts of a clearance.

  * `loadsUtf8`: `json.loads` of bytes;
  * `codecHost`: the host with this decoder; `loadsKnown`: the same for a few known files.
-/
import DatasourceKit.Codec

namespace DatasourceKit

open JsonText

/-! ## Reading a record -/

theorem compactStyle_plain : compactStyle.Plain :=
  ⟨⟨[], rfl, fun _ h => nomatch h⟩, ⟨[], rfl, fun _ h => nomatch h⟩⟩

theorem utf8_ascii {cs : List Char} (h : ∀ c ∈ cs, c.toNat < 0x80) : utf8 cs = cs.map charByte := by
  rw [utf8, String.toByteArray_ofList, List.utf8Encode, List.toList_data_toByteArray]
  induction cs with
  | nil => rfl
  | cons c cs ih =>
    obtain ⟨hc, hcs⟩ := List.forall_mem_cons.1 h
    have hsize : c.utf8Size = 1 := by
      rw [Char.utf8Size_eq_one_iff, UInt32.le_iff_toNat_le]
      exact Nat.le_of_lt_succ hc
    rw [List.flatMap_cons, String.utf8EncodeChar_eq_singleton hsize, ih hcs]
    rfl

section
variable [FloatCodec]

/-- `json.loads(raw)`, where the text is in UTF-8. -/
def loadsUtf8 (raw : Bytes) : Content :=
  match decodeUtf8 raw with
  | none => .undecodable
  | some cs => match readText cs with
    | .ok (.obj l) => .doc (.ofMembers l)
    | .ok v => .value v
    | .error .malformed => .malformed
    | .error .overlong => .overlong

/-- A mapping of plain values is a JSON value, which its members sorted are too. -/
theorem Dict.proper_members {d : Dict} (hd : ∀ x ∈ d.entries, x.2.Plain) :
    (Json.obj d.members).Proper := by
  refine ⟨d.nodup_members, properMembers_iff.2 fun e he => ?_⟩
  obtain ⟨x, hx, rfl⟩ := List.mem_map.1 he
  have hplain := hd x hx
  revert hplain
  cases x.2 <;> simp [Json.Plain, Json.Proper]

omit [FloatCodec] in
theorem sortedMembers_plain {d : Dict} (hd : ∀ x ∈ d.entries, x.2.Plain) :
    Json.sortedMembers d.members = d.members := by
  rw [sortedMembers_eq]
  refine (List.map_congr_left fun e he => ?_).trans (List.map_id _)
  obtain ⟨x, hx, rfl⟩ := List.mem_map.1 he
  have hplain := hd x hx
  dsimp only
  revert hplain
  cases x.2 <;> simp [Json.Plain, Json.sorted]

/-- What `loadsUtf8` makes of a record. -/
def recordContent (d : Dict) : Content := .doc (.ofMembers (sortMembers d.members))

theorem loadsUtf8_record {d : Dict} (hd : ∀ x ∈ d.entries, x.2.Plain) (hdumps : dumps d = .ok d) :
    loadsUtf8 (objectText d ++ [0x0A]) = recordContent d := by
  have hdigits : (Json.obj d.members).digitsOk = true := by
    unfold dumps at hdumps
    split_ifs at hdumps with hok
    exact hok
  have hproper := Json.proper_sorted _ (Dict.proper_members hd)
  have hnewline : ∀ c ∈ ['\n'], c.toNat < 0x80 := List.forall_mem_singleton.2 (by decide)
  have hascii : ∀ c ∈ (Json.obj d.members).sorted.render compactStyle 0 ++ ['\n'], c.toNat < 0x80 :=
    List.forall_mem_append.2 ⟨ascii_render rfl compactStyle_plain hproper 0, hnewline⟩
  have hread : readText ((Json.obj d.members).sorted.render compactStyle 0 ++ ['\n']) =
      .ok (Json.obj d.members).sorted :=
    readText_append compactStyle_plain hproper (by rwa [Json.digitsOk_sorted])
      (List.forall_mem_singleton.2 rfl)
  have hraw : objectText d ++ [0x0A] =
      utf8 ((Json.obj d.members).sorted.render compactStyle 0 ++ ['\n']) := by
    rw [utf8_ascii hascii, List.map_append, objectText]
    rfl
  rw [hraw, loadsUtf8, decodeUtf8_utf8]
  dsimp only
  rw [hread, Json.sorted, sortedMembers_plain hd, recordContent]

/-- **A record is read as it was written**, up to the order of its members. -/
theorem loadsUtf8_dumps {d : Dict} {raw : Bytes} (hd : ∀ x ∈ d.entries, x.2.Plain)
    (h : dumpsSorted d = .ok raw) :
    ∃ e, loadsUtf8 (raw ++ [0x0A]) = .doc e ∧ e.entries.Perm d.entries := by
  obtain ⟨hdumps, rfl⟩ := dumpsSorted_ok h
  refine ⟨_, loadsUtf8_record hd hdumps, ?_⟩
  have hkeys : ((sortMembers d.members).map Prod.fst).Nodup :=
    (sortMembers_keys _).nodup_iff.2 d.nodup_members
  have hsort : (sortMembers d.members).Perm d.members := List.perm_insertionSort _ _
  have hentries : (d.members.map fun e => (⟨e.1, e.2⟩ : (_ : String) × Json)) = d.entries := by
    rw [Dict.members, List.map_map]
    exact List.map_id _
  refine (Dict.update_perm (d := ∅) hkeys fun e _ => AList.notMem_empty e.1).trans ?_
  rw [← hentries]
  exact hsort.map _

/-- `loadsUtf8`, for which the content of some files is known. -/
def loadsKnown (known : List (Bytes × Content)) (raw : Bytes) : Content :=
  (known.lookup raw).getD (loadsUtf8 raw)

theorem loadsKnown_eq {known : List (Bytes × Content)} (h : ∀ e ∈ known, loadsUtf8 e.1 = e.2) :
    loadsKnown known = loadsUtf8 := by
  funext raw
  rcases hk : known.lookup raw with _ | c
  · rw [loadsKnown, hk, Option.getD_none]
  · obtain ⟨l₁, l₂, rfl, -⟩ := List.lookup_eq_some_iff.1 hk
    rw [loadsKnown, hk, Option.getD_some]
    exact (h (raw, c) (List.mem_append_right _ List.mem_cons_self)).symm

/-- The host with this decoder. -/
@[reducible]
def codecHost (euid : ℕ) (repr : PyVal → String) (sha256 : Bytes → String) : ClearanceHost where
  euid := euid
  repr := repr
  sha256 := sha256
  loads := loadsUtf8
  loads_dumps := loadsUtf8_dumps

end

/-! ## The index of a request -/

/-- The codec for values without floats. -/
@[reducible]
def noFloats [FloatText] : FloatCodec where
  IsFloat _ := False
  readFloat _ := none
  scan_text h := h.elim
  read_text h := h.elim

/-- A string is told from what comes after it. -/
theorem quote_inj {st : JsonStyle} {s t : String} {l m : List Char}
    (h : st.quote s ++ l = st.quote t ++ m) :
    s = t ∧ l = m := by
  obtain ⟨cs, hcs, hs⟩ := readQuoted_quote st s l
  obtain ⟨ds, hds, ht⟩ := readQuoted_quote st t m
  obtain rfl : cs = ds := by simpa using hcs.symm.trans (h.trans hds)
  rw [hs] at ht
  simpa using ht

/-- An integer is told from what comes after it. -/
theorem int_inj {a b : ℤ} {l m : List Char} (hl : Stops l) (hm : Stops m)
    (h : (toString a).toList ++ l = (toString b).toList ++ m) : a = b ∧ l = m := by
  have ha := scanNumber_append hl (scanNumber_int a)
  have hb := scanNumber_append hm (scanNumber_int b)
  rw [h, hb] at ha
  simp only [Option.some.injEq, Prod.mk.injEq, NumberToken.mk.injEq, List.nil_append] at ha
  refine ⟨?_, ha.2.symm⟩
  rw [← readInt_text a, ← readInt_text b, ha.1.1]

/-- A member with a string is told from what comes after it. -/
theorem member_inj {k s t : String} {l m : List Char}
    (h : ',' :: (compactStyle.quote k ++ ':' :: (compactStyle.quote s ++ l)) =
      ',' :: (compactStyle.quote k ++ ':' :: (compactStyle.quote t ++ m))) : s = t ∧ l = m := by
  simp only [List.cons.injEq, true_and, List.append_cancel_left_eq] at h
  exact quote_inj h

section
variable [FloatText] (k : String) (v : Json) (l : List (String × Json)) (level : ℕ)

theorem renderMembers_cons : Json.renderMembers compactStyle level ((k, v) :: l) =
    ',' :: (compactStyle.quote k ++ ':' ::
      (v.render compactStyle level ++ Json.renderMembers compactStyle level l)) := by
  simp [Json.renderMembers, compactStyle, JsonStyle.newline]

theorem render_obj : (Json.obj ((k, v) :: l)).render compactStyle level =
    '{' :: (compactStyle.quote k ++ ':' :: (v.render compactStyle (level + 1) ++
      (Json.renderMembers compactStyle (level + 1) l ++ ['}']))) := by
  simp [Json.render, compactStyle, JsonStyle.newline]

end

theorem sortMembers_of_sorted {α : Type} {l m : List (String × α)} (h : l.Perm m)
    (hm : (m.map Prod.fst).Pairwise (· < ·)) :
    sortMembers l = m := by
  have hnodup : (m.map Prod.fst).Nodup := hm.imp ne_of_lt
  rw [sortMembers_perm h ((h.map Prod.fst).nodup_iff.2 hnodup)]
  exact (List.pairwise_map.1 hm |>.imp le_of_lt).insertionSort_eq

namespace ClearRequest
variable {r r' : ClearRequest}

/-- The members of the index, in the order of their keys. -/
def indexMembers (r : ClearRequest) : List (String × Json) :=
  [("asserted_workload_fully_gone", .bool true), ("generation", .int r.generation),
    ("operator", .str r.operator), ("ticket", .str r.ticket),
    ("tombstone_sha256", .str r.expectedSha256), ("unit", .str r.unit), ("version", .int 2)]

theorem sorted_indexFields (r : ClearRequest) :
    (Json.obj r.indexFields.members).sorted = .obj r.indexMembers := by
  have hperm : r.indexFields.members.Perm r.indexMembers := by
    refine (List.perm_ext_iff_of_nodup (.of_map Prod.fst r.indexFields.nodup_members)
      (.of_map Prod.fst ?_)).2 fun x => ?_
    · show ["asserted_workload_fully_gone", "generation", "operator", "ticket", "tombstone_sha256",
        "unit", "version"].Nodup
      decide
    · show x ∈ [("asserted_workload_fully_gone", .bool true),
        ("tombstone_sha256", .str r.expectedSha256), ("ticket", .str r.ticket),
        ("operator", .str r.operator), ("generation", .int r.generation), ("unit", .str r.unit),
        ("version", .int 2)] ↔ x ∈ r.indexMembers
      simp only [indexMembers, List.mem_cons, List.not_mem_nil, or_false]
      tauto
  have hplain : Json.sortedMembers r.indexFields.members = r.indexFields.members := rfl
  rw [Json.sorted, hplain, sortMembers_of_sorted hperm]
  show ["asserted_workload_fully_gone", "generation", "operator", "ticket", "tombstone_sha256",
    "unit", "version"].Pairwise (· < ·)
  decide

/-- **Different requests have different indices.** -/
theorem index_inj [FloatText] (h : objectText r.indexFields = objectText r'.indexFields) :
    r = r' := by
  let _ : FloatCodec := noFloats
  have hascii : ∀ r : ClearRequest, ∀ c ∈ (Json.obj r.indexMembers).render compactStyle 0,
      c.toNat < 0x80 := by
    intro r
    rw [← sorted_indexFields]
    refine ascii_render rfl compactStyle_plain (Json.proper_sorted _ (Dict.proper_members ?_)) 0
    refine Dict.forall_update (fun x hx => nomatch hx) ?_
    simp [Json.Plain]
  have hchars := congrArg decodeUtf8 h
  rw [objectText, objectText, sorted_indexFields, sorted_indexFields, ← utf8_ascii (hascii r),
    ← utf8_ascii (hascii r'), decodeUtf8_utf8, decodeUtf8_utf8] at hchars
  have htext := Option.some.inj hchars
  rw [indexMembers, indexMembers, render_obj, render_obj] at htext
  simp only [renderMembers_cons] at htext
  simp only [Json.render, Json.renderMembers, List.cons_append, List.append_assoc, List.nil_append,
    List.cons.injEq, true_and, List.append_cancel_left_eq] at htext
  obtain ⟨hgeneration, htext⟩ := int_inj (stops_cons (by decide)) (stops_cons (by decide)) htext
  obtain ⟨hoperator, htext⟩ := member_inj htext
  obtain ⟨hticket, htext⟩ := member_inj htext
  obtain ⟨hsha, htext⟩ := member_inj htext
  obtain ⟨hunit, -⟩ := member_inj htext
  exact ClearRequest.ext hunit hgeneration hsha hoperator hticket

end ClearRequest

end DatasourceKit

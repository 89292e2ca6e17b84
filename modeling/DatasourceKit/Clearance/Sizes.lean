/-
  The sizes of the records of a request.

  The same limit holds for the intent, which is published before the tombstone is retired, and
  for the completion, which is published after it and is two bytes longer.

  * `length_objectText`: the length of a record;
  * `ClearRequest.textLength`: what a request adds to it; `length_intent`, `length_completion`;
  * `AcceptsRecord`: a record passes the check of its size; `completion_accepted_iff`.
-/
import DatasourceKit.Clearance.Host
import DatasourceKit.Clearance.Transaction
import Mathlib.Algebra.Order.Field.Basic

namespace DatasourceKit

open Interleave Prog ClearanceHost JsonText

/-! ## The length of a text -/

theorem length_stringText (s : String) :
    (stringText s).length = (s.toList.map fun c => (escape true c).length).sum + 2 := by
  simp [stringText, JsonStyle.quote, compactStyle, List.length_flatMap]

/-- A character that a JSON string shows as it is. -/
def IsPlainChar (c : Char) : Prop := (escape true c).length = 1

theorem forall_isPlainChar {l : List Char}
    (h : (l.all fun c => (escape true c).length == 1) = true) : ∀ c ∈ l, IsPlainChar c :=
  fun c hc => beq_iff_eq.1 (List.all_eq_true.1 h c hc)

theorem length_plainText {s : String} (h : ∀ c ∈ s.toList, IsPlainChar c) :
    (stringText s).length = s.length + 2 := by
  have hone : (s.toList.map fun c => (escape true c).length) = s.toList.map fun _ => 1 :=
    List.map_congr_left h
  rw [length_stringText, hone]
  simp [String.length_toList]

theorem isPlainChar_of_isHex {l : List Char} (h : isHex l = true) : ∀ c ∈ l, IsPlainChar c := by
  have hdigits : ∀ c ∈ "0123456789abcdef".toList, IsPlainChar c := forall_isPlainChar (by decide)
  intro c hc
  exact hdigits c (List.contains_iff_mem.1 (List.all_eq_true.1 h c hc))

section
variable [FloatText]

/-- A member takes a colon and a comma beside its key and its value. -/
def memberLength (e : String × Json) : ℕ :=
  (stringText e.1).length + (e.2.render compactStyle 1).length + 2

theorem length_renderMembers (l : List (String × Json)) :
    (Json.renderMembers compactStyle 1 l).length = (l.map memberLength).sum := by
  induction l with
  | nil => rfl
  | cons e l ih =>
    obtain ⟨k, v⟩ := e
    have hmember : (Json.renderMembers compactStyle 1 ((k, v) :: l)).length =
        memberLength (k, v) + (Json.renderMembers compactStyle 1 l).length := by
      simp [Json.renderMembers, memberLength, stringText, compactStyle, JsonStyle.newline]
      omega
    rw [hmember, ih, List.map_cons, List.sum_cons]

theorem length_renderObject {l : List (String × Json)} (h : l ≠ []) :
    ((Json.obj l).render compactStyle 0).length = (l.map memberLength).sum + 1 := by
  rcases l with _ | ⟨⟨k, v⟩, l⟩
  · exact absurd rfl h
  · rw [List.map_cons, List.sum_cons, ← length_renderMembers]
    simp [Json.render, memberLength, stringText, compactStyle, JsonStyle.newline]
    omega

/-- The length of an object is that of its members. -/
theorem length_objectText {d : Dict} (h : d.entries ≠ []) :
    (objectText d).length = (d.entries.map fun e => memberLength (e.1, e.2.sorted)).sum + 1 := by
  have hperm : (sortMembers (Json.sortedMembers d.members)).Perm
      (d.entries.map fun e => (e.1, e.2.sorted)) := by
    refine (List.perm_insertionSort _ _).trans (.of_eq ?_)
    rw [sortedMembers_eq, Dict.members, List.map_map]
    rfl
  have hne : sortMembers (Json.sortedMembers d.members) ≠ [] := by
    intro hnil
    rw [hnil] at hperm
    exact h (List.map_eq_nil_iff.1 hperm.nil_eq.symm)
  rw [objectText, List.length_map, Json.sorted, length_renderObject hne, (hperm.map _).sum_nat,
    List.map_map]
  rfl

end

theorem length_digest {s : String} (h : isDigest s = true) : (stringText s).length = 66 := by
  rw [isDigest, Bool.and_eq_true, beq_iff_eq] at h
  rw [length_plainText (isPlainChar_of_isHex h.2), h.1]

/-! ## The records of a request -/

/-- The lengths of the texts of the arguments that have no fixed length. -/
def ClearRequest.textLength (r : ClearRequest) : ℕ :=
  (stringText r.unit).length + (toString r.generation).length + (stringText r.operator).length +
    (stringText r.ticket).length

/-- The name of a quarantine has a fixed length. -/
theorem length_ownQuarantine {r : ClearRequest} {q : String} (h : r.OwnQuarantine q) :
    (stringText q).length = 122 := by
  obtain ⟨u, hlen, hu, rfl⟩ := h
  have hdigest := r.digest
  rw [isDigest, Bool.and_eq_true, beq_iff_eq] at hdigest
  rw [length_plainText, quarantineName]
  · simp only [String.length_append, hdigest.1, hlen]
    rfl
  · have hfront : ∀ c ∈ ".legacy-pid.".toList, IsPlainChar c := forall_isPlainChar (by decide)
    have hdot : ∀ c ∈ ".".toList, IsPlainChar c := forall_isPlainChar (by decide)
    have hend : ∀ c ∈ ".quarantine".toList, IsPlainChar c := forall_isPlainChar (by decide)
    simp only [quarantineName, String.toList_append, List.forall_mem_append]
    exact ⟨⟨⟨⟨hfront, isPlainChar_of_isHex hdigest.2⟩, hdot⟩, isPlainChar_of_isHex hu⟩, hend⟩

variable [ClearanceHost] {r : ClearRequest} {q : String}

/-- The members of the records for the quarantine `q`: they differ in their event. -/
def ClearRequest.recordEntries (r : ClearRequest) (q event : String) : List ((_ : String) × Json) :=
  [⟨"quarantine", .str q⟩, ⟨"operation_id", .str r.opId⟩] ++
    ⟨"event", .str event⟩ :: r.indexFields.entries

omit [ClearanceHost] in
theorem indexFields_entries : r.indexFields.entries = [⟨"asserted_workload_fully_gone", .bool true⟩,
    ⟨"tombstone_sha256", .str r.expectedSha256⟩, ⟨"ticket", .str r.ticket⟩,
    ⟨"operator", .str r.operator⟩, ⟨"generation", .int r.generation⟩, ⟨"unit", .str r.unit⟩,
    ⟨"version", .int 2⟩] := rfl

theorem intentRecord_entries :
    (r.intentRecord (.str q)).entries = r.recordEntries q "legacy_tombstone_clearance_intent" := rfl

theorem completionRecord_entries : (completionRecord (r.intentRecord (.str q))).entries.Perm
    (r.recordEntries q "legacy_tombstone_clearance_complete") := by
  have hfirst : (completionRecord (r.intentRecord (.str q))).entries =
      ⟨"event", .str "legacy_tombstone_clearance_complete"⟩ ::
        ([⟨"quarantine", .str q⟩, ⟨"operation_id", .str r.opId⟩] ++ r.indexFields.entries) := rfl
  rw [hfirst]
  exact List.perm_middle.symm

/-- A record is as long as its event and its arguments make it. -/
theorem length_record {d : Dict} {event : String} (hsha : ∀ raw, isDigest (sha256 raw) = true)
    (hq : r.OwnQuarantine q) (hd : d.entries.Perm (r.recordEntries q event)) :
    (objectText d).length = r.textLength + (stringText event).length + 406 := by
  have hne : d.entries ≠ [] := by
    intro hnil
    rw [hnil] at hd
    cases hd.nil_eq
  have hkeys : (stringText "quarantine").length + (stringText "operation_id").length +
      (stringText "event").length + (stringText "asserted_workload_fully_gone").length +
      (stringText "tombstone_sha256").length + (stringText "ticket").length +
      (stringText "operator").length + (stringText "generation").length +
      (stringText "unit").length + (stringText "version").length = 126 := by decide
  have hop : (stringText r.opId).length = 66 := length_digest (hsha _)
  have hstr : ∀ k s : String, memberLength (k, (Json.str s).sorted) =
      (stringText k).length + (stringText s).length + 2 := by
    intro k s
    simp [memberLength, Json.sorted, Json.render, stringText]
  have hgeneration : ∀ k, memberLength (k, (Json.int r.generation).sorted) =
      (stringText k).length + (toString r.generation).length + 2 := by
    intro k
    simp [memberLength, Json.sorted, Json.render, String.length_toList]
  have hversion : ∀ k, memberLength (k, (Json.int 2).sorted) =
      (stringText k).length + 3 := fun _ => rfl
  have hasserted : ∀ k, memberLength (k, (Json.bool true).sorted) = (stringText k).length + 6 :=
    fun _ => rfl
  rw [length_objectText hne, (hd.map _).sum_nat, ClearRequest.recordEntries, indexFields_entries]
  simp only [List.cons_append, List.nil_append, List.map_cons, List.map_nil, List.sum_cons,
    List.sum_nil, hstr, hgeneration, hversion, hasserted, length_ownQuarantine hq,
    length_digest r.digest, hop, ClearRequest.textLength]
  omega

theorem length_intent (hsha : ∀ raw, isDigest (sha256 raw) = true) (hq : r.OwnQuarantine q) :
    (objectText (r.intentRecord (.str q))).length = r.textLength + 441 :=
  length_record hsha hq (.of_eq intentRecord_entries)

/-- The completion is two bytes longer than the intent. -/
theorem length_completion (hsha : ∀ raw, isDigest (sha256 raw) = true) (hq : r.OwnQuarantine q) :
    (objectText (completionRecord (r.intentRecord (.str q)))).length = r.textLength + 443 :=
  length_record hsha hq completionRecord_entries

/-- The generation has no more digits than `int` converts to text. -/
def ClearRequest.Writable (r : ClearRequest) : Prop := (Json.int r.generation).digitsOk = true

theorem fitsRecord_iff {d : Dict} : FitsRecord d ↔
    (∀ x ∈ d.entries, x.2.digitsOk = true) ∧ (objectText d).length + 1 ≤ recordLimit := by
  rw [← dumps_iff]
  constructor
  · rintro ⟨text, htext, hfit⟩
    obtain ⟨hd, rfl⟩ := dumpsSorted_ok htext
    exact ⟨hd, hfit⟩
  · rintro ⟨hd, hfit⟩
    refine ⟨objectText d, ?_, hfit⟩
    rw [dumpsSorted, hd]
    rfl

/-- A record can be written if its generation can. -/
theorem writable_record {d : Dict} {event : String}
    (hd : d.entries.Perm (r.recordEntries q event)) :
    (∀ x ∈ d.entries, x.2.digitsOk = true) ↔ r.Writable := by
  have hversion : (Json.int 2).digitsOk = true := by decide
  have hstr : ∀ s, (Json.str s).digitsOk = true := fun _ => by simp [Json.digitsOk]
  have hasserted : (Json.bool true).digitsOk = true := by simp [Json.digitsOk]
  simp [hd.mem_iff, ClearRequest.recordEntries, indexFields_entries, ClearRequest.Writable,
    hversion, hstr, hasserted]

theorem fits_record_iff {d : Dict} {event : String} {n : ℕ}
    (hd : d.entries.Perm (r.recordEntries q event)) (hlength : (objectText d).length = n) :
    FitsRecord d ↔ r.Writable ∧ n + 1 ≤ recordLimit := by
  rw [fitsRecord_iff, writable_record hd, hlength]

/-! ## The limit -/

/-- The record is not refused, but written under the name that `uuid4` makes. -/
def AcceptsRecord (d : Dict) : Prop := ∀ a final, ∃ k, atomicPrivateJson a final d = .call .uuid k

theorem accepts_iff {d : Dict} : AcceptsRecord d ↔ FitsRecord d := by
  constructor
  · intro h
    obtain ⟨k, hk⟩ := h 0 ""
    unfold atomicPrivateJson at hk
    rcases htext : dumpsSorted d with e | text
    · rw [htext] at hk
      cases hk
    · refine ⟨text, htext, ?_⟩
      by_contra hlarge
      have hlength : (text ++ [0x0A]).length > recordLimit := by
        rw [List.length_append, List.length_singleton]
        omega
      simp only [htext, Prog.ofExcept, Prog.bind, if_pos hlength] at hk
      cases hk
  · rintro ⟨text, htext, hfit⟩ a final
    have hlength : ¬(text ++ [0x0A]).length > recordLimit := by
      rw [List.length_append, List.length_singleton]
      omega
    simp only [atomicPrivateJson, htext, Prog.ofExcept, Prog.bind, if_neg hlength]
    exact ⟨_, rfl⟩

theorem accepts_intent_iff (hsha : ∀ raw, isDigest (sha256 raw) = true) (hq : r.OwnQuarantine q) :
    AcceptsRecord (r.intentRecord (.str q)) ↔ r.Writable ∧ r.textLength ≤ 7750 := by
  rw [accepts_iff, fits_record_iff (.of_eq intentRecord_entries) (length_intent hsha hq),
    recordLimit]
  exact and_congr_right fun _ => by omega

theorem accepts_completion_iff (hsha : ∀ raw, isDigest (sha256 raw) = true)
    (hq : r.OwnQuarantine q) :
    AcceptsRecord (completionRecord (r.intentRecord (.str q))) ↔
    r.Writable ∧ r.textLength ≤ 7748 := by
  rw [accepts_iff, fits_record_iff completionRecord_entries (length_completion hsha hq),
    recordLimit]
  exact and_congr_right fun _ => by omega

/-- The name of a quarantine that a call for the request may make. -/
def ClearRequest.someQuarantine (r : ClearRequest) : String :=
  quarantineName r.expectedSha256 "00000000000000000000000000000000"

omit [ClearanceHost] in
theorem own_someQuarantine (r : ClearRequest) :
    r.OwnQuarantine r.someQuarantine := ⟨_, by decide, by decide, rfl⟩

/-- Both records of a request are within the limit if its arguments are short enough. -/
theorem fits_iff (hsha : ∀ raw, isDigest (sha256 raw) = true) :
    r.Fits ↔ r.Writable ∧ r.textLength ≤ 7748 := by
  simp only [ClearRequest.Fits, ← accepts_iff]
  constructor
  · intro h
    exact (accepts_completion_iff hsha (own_someQuarantine r)).1 (h _ (own_someQuarantine r)).2
  · intro h q hq
    exact ⟨(accepts_intent_iff hsha hq).2 ⟨h.1, by omega⟩, (accepts_completion_iff hsha hq).2 h⟩

/-- **The completion of an accepted intent is accepted**, unless the two bytes it is longer take
    it over the limit. -/
theorem completion_accepted_iff (hsha : ∀ raw, isDigest (sha256 raw) = true) :
    (∀ q, r.OwnQuarantine q → AcceptsRecord (r.intentRecord (.str q)) →
        AcceptsRecord (completionRecord (r.intentRecord (.str q)))) ↔
      ¬(r.Writable ∧ (r.textLength = 7749 ∨ r.textLength = 7750)) := by
  constructor
  · rintro h ⟨hw, hlength⟩
    have hown := own_someQuarantine r
    have hfits := (accepts_completion_iff hsha hown).1
      (h _ hown ((accepts_intent_iff hsha hown).2 ⟨hw, by omega⟩))
    omega
  · intro h q hq hi
    obtain ⟨hw, hlength⟩ := (accepts_intent_iff hsha hq).1 hi
    refine (accepts_completion_iff hsha hq).2 ⟨hw, ?_⟩
    by_contra hlarge
    exact h ⟨hw, by omega⟩

/-- A host that knows some digests. -/
@[reducible]
def deskHost (known : List (Bytes × String)) : ClearanceHost :=
  @codecHost oneFloat 1000 (fun _ => "") fun raw =>
    (known.lookup raw).getD "0000000000000000000000000000000000000000000000000000000000000000"

omit [ClearanceHost] in
theorem isDigest_deskHost {known : List (Bytes × String)}
    (h : ∀ e ∈ known, isDigest e.2 = true) (raw : Bytes) :
    isDigest (@sha256 (deskHost known) raw) = true := by
  show isDigest ((known.lookup raw).getD _) = true
  rcases hk : known.lookup raw with _ | d
  · decide
  · obtain ⟨l₁, l₂, rfl, -⟩ := List.lookup_eq_some_iff.1 hk
    exact h (raw, d) (by simp)

omit [ClearanceHost] in
theorem isSafeComponent_as {n : ℕ} (h : 2 < n) :
    isSafeComponent (String.ofList (List.replicate n 'a')) = true := by
  have hne : ∀ s : String, s.length ≤ 2 → String.ofList (List.replicate n 'a') ≠ s := by
    rintro s hs rfl
    rw [String.length_ofList, List.length_replicate] at hs
    omega
  simp [isSafeComponent, hne "" (by decide), hne "." (by decide),
    hne ".." (by decide), List.mem_replicate]

/-- A request for a unit with a long name. -/
def longRequest : ClearRequest where
  unit := String.ofList (List.replicate 7737 'a')
  generation := 3
  expectedSha256 := "a9f91a7e0be55981d0b3bf3083d0192497401f8c0584bd5ec74b49be805efbd4"
  operator := "op"
  ticket := "T-1"
  unit_safe := isSafeComponent_as (by decide)
  digest := by decide
  operator_bounded := by decide
  ticket_bounded := by decide

/-- A host that knows the digest of its index. -/
@[reducible]
def longHost : ClearanceHost :=
  deskHost [(@objectText oneFloat.toFloatText longRequest.indexFields,
    "a0e48b9a4f47026e87c0c527189e0308e514517f687d7c42ee94009d12005ead")]

omit [ClearanceHost] in
theorem length_as (n : ℕ) : (stringText (String.ofList (List.replicate n 'a'))).length = n + 2 := by
  rw [length_plainText]
  · simp
  · intro c hc
    rw [String.toList_ofList] at hc
    obtain rfl := List.eq_of_mem_replicate hc
    rfl

omit [ClearanceHost] in
theorem longRequest_writable : longRequest.Writable := by
  show (Json.int 3).digitsOk = true
  decide

omit [ClearanceHost] in
theorem longRequest_textLength : longRequest.textLength = 7749 := by
  have hunit : (stringText longRequest.unit).length = 7739 := length_as _
  have hrest : (toString longRequest.generation).length + (stringText longRequest.operator).length +
      (stringText longRequest.ticket).length = 10 := by decide
  rw [ClearRequest.textLength, hunit]
  omega

omit [ClearanceHost] in
theorem longHost_digest : ∀ raw, isDigest (@sha256 longHost raw) = true :=
  isDigest_deskHost (List.forall_mem_singleton.2 (by decide))

omit [ClearanceHost] in
theorem long_completion_refused : ∃ q, longRequest.OwnQuarantine q ∧
    @AcceptsRecord longHost (@ClearRequest.intentRecord longHost longRequest (.str q)) ∧
    ¬@AcceptsRecord longHost
    (@completionRecord (@ClearRequest.intentRecord longHost longRequest (.str q))) := by
  let := longHost
  have hown := own_someQuarantine longRequest
  have hlength := longRequest_textLength
  refine ⟨_, hown, (accepts_intent_iff longHost_digest hown).2 ⟨longRequest_writable, by omega⟩,
    fun h => ?_⟩
  have hfits := (accepts_completion_iff longHost_digest hown).1 h
  omega

omit [ClearanceHost] in
theorem completion_accepted_iff_long :
    (∀ raw, isDigest (@sha256 longHost raw) = true) ∧
    ¬∀ q, longRequest.OwnQuarantine q → @AcceptsRecord longHost
        (@ClearRequest.intentRecord longHost longRequest (.str q)) →
      @AcceptsRecord longHost
      (@completionRecord (@ClearRequest.intentRecord longHost longRequest (.str q))) := by
  let := longHost
  refine ⟨longHost_digest, fun h => ?_⟩
  exact (completion_accepted_iff longHost_digest).1 h
    ⟨longRequest_writable, .inl longRequest_textLength⟩

end DatasourceKit

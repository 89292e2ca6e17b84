/-
  The discovery ledger (`ledger.py`): items, summaries, and the texts of their files.

  * `DiscoveredItem`, with `asDict` and `fromJson`; `LedgerSummary`, `summarize`: `_summary`;
  * `encodeWindow`: the bytes that `write_window` makes of the items;
  * `ledgerLines`, `readItem`: how a JSONL file is read back;
  * `ledger_round_trip`: what is written is read, in order, up to the check of `from_json`;
    the counts are those of the items.
-/
import DatasourceKit.Codec

namespace DatasourceKit

/-! ## Mappings -/

namespace Dict

/-- A mapping is equal to the one of its members in another order, if their values are equal. -/
theorem pyEq_ofMembers {d : Dict} {l : List (String × Json)} (hl : (l.map Prod.fst).Nodup)
    (hlength : l.length = d.entries.length)
    (hd : ∀ e ∈ d.entries, ∃ v, (e.1, v) ∈ l ∧ e.2.pyEq v = true) :
    d.pyEq (ofMembers l) = true := by
  rw [pyEq, Bool.and_eq_true, List.all_eq_true]
  refine ⟨?_, fun e he => ?_⟩
  · have hperm := update_perm (d := ∅) hl fun e _ => AList.notMem_empty e.1
    rw [beq_iff_eq, ofMembers, hperm.length_eq, List.length_append, List.length_map, hlength]
    exact (Nat.zero_add _).symm
  · obtain ⟨v, hv, heq⟩ := hd e he
    rw [ofMembers, lookup_update_of_mem _ hl hv]
    exact heq

end Dict

/-! ## Items -/

structure DiscoveredItem where
  sourceId : String
  status : String
  url : Option String
  metadata : Dict

namespace DiscoveredItem
variable (item : DiscoveredItem)

/-- `item.as_dict()`. -/
def asDict : List (String × Json) :=
  [("source_id", .str item.sourceId), ("status", .str item.status),
    ("metadata", .obj item.metadata.members)] ++
    match item.url with
    | some url => [("url", .str url)]
    | none => []

/-- `DiscoveredItem.from_json(raw)`, or the message of the `ValidationError`. -/
def fromJson (raw : List (String × Json)) : Except String DiscoveredItem :=
  match raw.lookup "source_id" with
  | some (.str sourceId) =>
    if isBlank sourceId then .error "DiscoveredItem requires a non-empty source_id"
    else match raw.lookup "status" with
      | some (.str status) =>
        if status = "" then .error "DiscoveredItem requires a status string"
        else .ok {
          sourceId := sourceId
          status := status
          url := match raw.lookup "url" with
            | some (.str url) => some url
            | _ => none
          -- every other value is false, or no mapping
          metadata := match raw.lookup "metadata" with
            | some (.obj l) => .ofMembers l
            | _ => ∅ }
      | _ => .error "DiscoveredItem requires a status string"
  | _ => .error "DiscoveredItem requires a non-empty source_id"

/-- `item == other`. -/
def pyEq (other : DiscoveredItem) : Bool :=
  item.sourceId == other.sourceId && item.status == other.status && item.url == other.url &&
    item.metadata.pyEq other.metadata

/-- What `from_json` checks: the source id is not blank, and the status is not empty. -/
def Readable : Prop := isBlank item.sourceId = false ∧ item.status ≠ ""

instance : Decidable item.Readable := inferInstanceAs (Decidable (_ ∧ _))

end DiscoveredItem

/-! ## Summaries -/

structure LedgerSummary where
  discovered : ℕ := 0
  fetched : ℕ := 0
  merged : ℕ := 0
  failed : ℕ := 0
  skipped : ℕ := 0
  pending : ℕ := 0
deriving DecidableEq

namespace LedgerSummary

/-- `setattr(summary, status, getattr(summary, status) + 1)`, for the statuses that are counted. -/
def count (s : LedgerSummary) (status : String) : LedgerSummary :=
  if status = "fetched" then { s with fetched := s.fetched + 1 }
  else if status = "merged" then { s with merged := s.merged + 1 }
  else if status = "failed" then { s with failed := s.failed + 1 }
  else if status = "skipped" then { s with skipped := s.skipped + 1 }
  else if status = "pending" then { s with pending := s.pending + 1 }
  else s

/-- `summary.as_dict()`. -/
def asDict (s : LedgerSummary) : List (String × Json) :=
  [("discovered", .int s.discovered), ("fetched", .int s.fetched), ("merged", .int s.merged),
    ("failed", .int s.failed), ("skipped", .int s.skipped), ("pending", .int s.pending)]

/-- How many items have the status. -/
def countOf (items : List DiscoveredItem) (status : String) : ℕ := items.countP (·.status == status)

/-- The counts are those of the items. -/
structure Counts (s : LedgerSummary) (items : List DiscoveredItem) : Prop where
  discovered : s.discovered = items.length
  fetched : s.fetched = countOf items "fetched"
  merged : s.merged = countOf items "merged"
  failed : s.failed = countOf items "failed"
  skipped : s.skipped = countOf items "skipped"
  pending : s.pending = countOf items "pending"

end LedgerSummary

/-- `_summary`. -/
def summarize (items : List DiscoveredItem) : LedgerSummary :=
  items.foldl (fun s item => s.count item.status) { discovered := items.length }

/-! ## Files -/

/-- `json.dumps(v, sort_keys=True, ensure_ascii=False)`. -/
def ledgerStyle : JsonStyle := ⟨false, [',', ' '], [':', ' '], none⟩

/-- `json.dumps(v, sort_keys=True, indent=2)`. -/
def summaryStyle : JsonStyle := ⟨true, [','], [':', ' '], some 2⟩

section
variable [FloatText]

/-- `json.dumps(d, sort_keys=True, ...)` of a mapping with these members. -/
def dumpsMembers (st : JsonStyle) (l : List (String × Json)) : Except Exc (List Char) :=
  if Json.digitsOkObj l then .ok ((Json.obj l).sorted.render st 0)
  else .error (.valueError "Exceeds the limit for integer string conversion")

/-- The lines of the items, with a line break between them and at the end. -/
def ledgerText (items : List DiscoveredItem) : Except Exc (List Char) :=
  (items.mapM fun item => dumpsMembers ledgerStyle item.asDict).map fun lines =>
    let jsonl := ['\n'].intercalate lines
    if jsonl = [] then jsonl else jsonl ++ ['\n']

/-- The text of a summary. -/
def summaryText (s : LedgerSummary) : Except Exc (List Char) := dumpsMembers summaryStyle s.asDict

/-- What `write_window` makes of its items: the summary it returns, and the two files. -/
structure LedgerWindow where
  summary : LedgerSummary
  jsonl : Bytes
  summaryJson : Bytes

def encodeWindow (items : List DiscoveredItem) : Except Exc LedgerWindow := do
  let jsonl ← ledgerText items
  let text ← summaryText (summarize items)
  return ⟨summarize items, utf8 jsonl, utf8 text⟩

end

/-- The lines of a text, each of which a line break ends. -/
def ledgerLines (cs : List Char) : List (List Char) := (cs.splitOn '\n').dropLast

/-- What reading an item raises. -/
inductive LedgerError where
  | json (e : ReadError)
  | notMapping                      -- AttributeError
  | validation (message : String)   -- ValidationError
deriving DecidableEq

/-- `DiscoveredItem.from_json(json.loads(line))`. -/
def readItem [FloatCodec] (line : List Char) : Except LedgerError DiscoveredItem :=
  match readText line with
  | .ok (.obj raw) => (DiscoveredItem.fromJson raw).mapError .validation
  | .ok _ => .error .notMapping
  | .error e => .error (.json e)

/-! ## Counting -/

namespace LedgerSummary

/-- One item more. -/
theorem count_add (s : LedgerSummary) (status : String) :
    (s.count status).discovered = s.discovered ∧
    (s.count status).fetched = s.fetched + (if status == "fetched" then 1 else 0) ∧
    (s.count status).merged = s.merged + (if status == "merged" then 1 else 0) ∧
    (s.count status).failed = s.failed + (if status == "failed" then 1 else 0) ∧
    (s.count status).skipped = s.skipped + (if status == "skipped" then 1 else 0) ∧
    (s.count status).pending = s.pending + (if status == "pending" then 1 else 0) := by
  unfold count
  split_ifs <;> simp_all

theorem foldl_count (items : List DiscoveredItem) (s : LedgerSummary) :
    let r := items.foldl (fun s item => s.count item.status) s
    r.discovered = s.discovered ∧ r.fetched = s.fetched + countOf items "fetched" ∧
      r.merged = s.merged + countOf items "merged" ∧ r.failed = s.failed + countOf items "failed" ∧
      r.skipped = s.skipped + countOf items "skipped" ∧
          r.pending = s.pending + countOf items "pending" := by
  induction items generalizing s with
  | nil => exact ⟨rfl, rfl, rfl, rfl, rfl, rfl⟩
  | cons item items ih =>
    obtain ⟨h₁, h₂, h₃, h₄, h₅, h₆⟩ := ih (s.count item.status)
    obtain ⟨g₁, g₂, g₃, g₄, g₅, g₆⟩ := s.count_add item.status
    simp only [countOf, List.countP_cons] at h₂ h₃ h₄ h₅ h₆ ⊢
    refine ⟨h₁.trans g₁, ?_, ?_, ?_, ?_, ?_⟩
    · rw [List.foldl_cons, h₂, g₂]
      omega
    · rw [List.foldl_cons, h₃, g₃]
      omega
    · rw [List.foldl_cons, h₄, g₄]
      omega
    · rw [List.foldl_cons, h₅, g₅]
      omega
    · rw [List.foldl_cons, h₆, g₆]
      omega

end LedgerSummary

theorem summarize_counts (items : List DiscoveredItem) : (summarize items).Counts items := by
  obtain ⟨h₁, h₂, h₃, h₄, h₅, h₆⟩ := LedgerSummary.foldl_count items { discovered := items.length }
  exact ⟨h₁, h₂.trans (Nat.zero_add _), h₃.trans (Nat.zero_add _), h₄.trans (Nat.zero_add _),
    h₅.trans (Nat.zero_add _), h₆.trans (Nat.zero_add _)⟩

/-! ## Reading a file -/

/-- Lines with a line break between them, and one more at the end. -/
theorem intercalate_newline {lines : List (List Char)} (hlines : lines ≠ []) :
    ['\n'].intercalate lines ++ ['\n'] = lines.flatMap (· ++ ['\n']) := by
  induction lines with
  | nil => exact absurd rfl hlines
  | cons l lines ih =>
    rcases eq_or_ne lines [] with rfl | hne
    · simp
    · rw [List.intercalate_cons_of_ne_nil hne, List.flatMap_cons, ← ih hne]
      simp

theorem ledgerLines_flatMap {lines : List (List Char)} (hlines : ∀ l ∈ lines, '\n' ∉ l) :
    ledgerLines (lines.flatMap (· ++ ['\n'])) = lines := by
  have hsplit : (lines.flatMap (· ++ ['\n'])).splitOn '\n' = lines ++ [[]] := by
    induction lines with
    | nil => rfl
    | cons l lines ih =>
      rw [List.flatMap_cons, List.append_assoc, List.singleton_append,
        List.splitOn_append_cons_self_of_not_mem (hlines l List.mem_cons_self),
        ih fun m hm => hlines m (List.mem_cons_of_mem _ hm)]
      rfl
  rw [ledgerLines, hsplit, List.dropLast_concat]

section
variable [FloatText]

theorem dumpsMembers_ok {st : JsonStyle} {l : List (String × Json)} {cs : List Char}
    (h : dumpsMembers st l = .ok cs) :
    Json.digitsOkObj l = true ∧ cs = (Json.obj l).sorted.render st 0 := by
  unfold dumpsMembers at h
  split_ifs at h with hd
  cases h
  exact ⟨hd, rfl⟩

omit [FloatText] in
/-- A list of lines, one for each item. -/
theorem forall₂_of_mapM {α β ε : Type} {f : α → Except ε β} {l : List α} {m : List β}
    (h : l.mapM f = .ok m) :
    List.Forall₂ (fun a b => f a = .ok b) l m := by
  induction l generalizing m with
  | nil =>
    cases h
    exact .nil
  | cons a l ih =>
    rw [List.mapM_cons] at h
    cases ha : f a with
    | error e =>
      rw [ha] at h
      cases h
    | ok b =>
      cases hl : l.mapM f with
      | error e =>
        rw [ha, hl] at h
        cases h
      | ok m' =>
        rw [ha, hl] at h
        cases h
        exact .cons ha (ih hl)

end

section
variable [FloatCodec] {item : DiscoveredItem}

/-- The metadata is a JSON object. -/
def Dict.Proper (d : Dict) : Prop := (Json.obj d.members).Proper

omit [FloatCodec] in
theorem DiscoveredItem.nodup_asDict (item : DiscoveredItem) : (item.asDict.map Prod.fst).Nodup := by
  unfold DiscoveredItem.asDict
  cases item.url <;> simp

theorem DiscoveredItem.proper_asDict (hmeta : item.metadata.Proper) :
    (Json.obj item.asDict).Proper := by
  refine ⟨item.nodup_asDict, ?_⟩
  unfold DiscoveredItem.asDict
  cases item.url with
  | none => exact ⟨trivial, trivial, hmeta, trivial⟩
  | some url => exact ⟨trivial, trivial, hmeta, trivial, trivial⟩

/-- What is read of an item: its members in the order of their keys. -/
def DiscoveredItem.raw (item : DiscoveredItem) :
    List (String × Json) := sortMembers (Json.sortedMembers item.asDict)

omit [FloatCodec] in
theorem DiscoveredItem.lookup_raw {k : String} {v : Json} (h : (k, v) ∈ item.asDict) :
    item.raw.lookup k = some v.sorted := by
  refine lookup_of_mem ?_ (sortMembers_mem.2 ?_)
  · rw [DiscoveredItem.raw, (sortMembers_keys _).nodup_iff, keys_sortedMembers]
    exact item.nodup_asDict
  · rw [sortedMembers_eq]
    exact List.mem_map_of_mem h

omit [FloatCodec] in
theorem DiscoveredItem.lookup_raw_none {k : String} (h : k ∉ item.asDict.map Prod.fst) :
    item.raw.lookup k = none := by
  rw [List.lookup_eq_none_iff]
  rintro e he
  have hkey : e.1 ∈ item.asDict.map Prod.fst := by
    rw [← keys_sortedMembers, ← (sortMembers_keys _).mem_iff]
    exact List.mem_map_of_mem he
  have hne : k ≠ e.1 := fun heq => h (heq ▸ hkey)
  simpa using hne

/-- Metadata that has been written with sorted keys. -/
def Dict.reread (d : Dict) : Dict := .ofMembers (sortMembers (Json.sortedMembers d.members))

theorem Dict.pyEq_reread {d : Dict} (hd : d.Proper) : d.pyEq d.reread = true := by
  have hkeys : ((sortMembers (Json.sortedMembers d.members)).map Prod.fst).Nodup :=
    (Json.proper_sorted _ hd).1
  refine Dict.pyEq_ofMembers hkeys ?_ fun e he => ⟨e.2.sorted, ?_, Json.pyEq_sorted _ ?_⟩
  · rw [sortMembers, List.length_insertionSort, sortedMembers_eq, Dict.members,
      List.length_map, List.length_map]
  · refine sortMembers_mem.2 ?_
    rw [sortedMembers_eq, Dict.members, List.map_map]
    exact List.mem_map_of_mem he
  · exact properMembers_iff.1 hd.2 (e.1, e.2) (List.mem_map_of_mem he)

omit [FloatCodec] in
/-- `from_json` of what `as_dict` has given: the item, if it passes the check. -/
theorem DiscoveredItem.fromJson_raw (item : DiscoveredItem) :
    (item.Readable → fromJson item.raw = .ok { item with metadata := item.metadata.reread }) ∧
    (¬item.Readable → ∃ message, fromJson item.raw = .error message) := by
  have hsource : item.raw.lookup "source_id" = some (.str item.sourceId) :=
    lookup_raw (v := .str item.sourceId) (by simp [asDict])
  have hstatus : item.raw.lookup "status" = some (.str item.status) :=
    lookup_raw (v := .str item.status) (by simp [asDict])
  have hmetadata : item.raw.lookup "metadata" =
      some (.obj (sortMembers (Json.sortedMembers item.metadata.members))) :=
    lookup_raw (v := .obj item.metadata.members) (by simp [asDict])
  have hurl : item.raw.lookup "url" = item.url.map .str := by
    cases h : item.url with
    | none => exact lookup_raw_none (by simp [asDict, h])
    | some url => exact lookup_raw (v := .str url) (by simp [asDict, h])
  constructor
  · rintro ⟨hblank, hempty⟩
    obtain ⟨sourceId, status, _ | url, metadata⟩ := item <;>
      simp only [fromJson, hsource, hstatus, hmetadata, hurl, hblank, if_neg hempty,
        Bool.false_eq_true, if_false] <;> rfl
  · intro hnot
    simp only [fromJson, hsource, hstatus]
    by_cases hblank : isBlank item.sourceId = true
    · exact ⟨_, if_pos hblank⟩
    · rw [if_neg hblank]
      have hempty : item.status = "" := by
        by_contra hne
        exact hnot ⟨isBlank_eq_false hblank, hne⟩
      exact ⟨_, if_pos hempty⟩

omit [FloatCodec] in
theorem ledgerStyle_plain : ledgerStyle.Plain :=
  ⟨⟨[' '], rfl, List.forall_mem_singleton.2 rfl⟩, ⟨[' '], rfl, List.forall_mem_singleton.2 rfl⟩⟩

/-- The line of an item reads as its members. -/
theorem readText_line {line : List Char} (hmeta : item.metadata.Proper)
    (h : dumpsMembers ledgerStyle item.asDict = .ok line) :
    readText line = .ok (.obj item.raw) ∧ '\n' ∉ line := by
  obtain ⟨hdigits, rfl⟩ := dumpsMembers_ok h
  have hproper := Json.proper_sorted _ (DiscoveredItem.proper_asDict hmeta)
  refine ⟨readText_render ledgerStyle_plain hproper ?_,
    newline_notMem_render rfl (by decide) (by decide) _ 0 hproper⟩
  rw [Json.digitsOk_sorted]
  exact hdigits

/-- What reading the line of an item gives. -/
def DiscoveredItem.Reads (item : DiscoveredItem) (r : Except LedgerError DiscoveredItem) : Prop :=
  (item.Readable → ∃ i, r = .ok i ∧ item.pyEq i = true) ∧
    (¬item.Readable → ∃ message, r = .error (.validation message))

theorem readItem_line {line : List Char} (hmeta : item.metadata.Proper)
    (h : dumpsMembers ledgerStyle item.asDict = .ok line) : item.Reads (readItem line) := by
  obtain ⟨hok, herror⟩ := item.fromJson_raw
  have hraw : readItem line = (DiscoveredItem.fromJson item.raw).mapError .validation := by
    rw [readItem, (readText_line hmeta h).1]
  constructor
  · intro hr
    refine ⟨_, by rw [hraw, hok hr]; rfl, ?_⟩
    simp [DiscoveredItem.pyEq, Dict.pyEq_reread hmeta]
  · intro hr
    obtain ⟨message, hm⟩ := herror hr
    exact ⟨message, by rw [hraw, hm]; rfl⟩

/-- The lines of a file are the texts of the items. -/
theorem ledgerLines_text {items : List DiscoveredItem} {jsonl : List Char}
    (hmeta : ∀ item ∈ items, item.metadata.Proper) (h : ledgerText items = .ok jsonl) :
    List.Forall₂ (fun item line => dumpsMembers ledgerStyle item.asDict = .ok line) items
    (ledgerLines jsonl) := by
  unfold ledgerText at h
  rcases hlines : items.mapM fun item => dumpsMembers ledgerStyle item.asDict with e | lines
  · rw [hlines] at h
    cases h
  have hall := forall₂_of_mapM hlines
  have hread : ∀ line ∈ lines, line ≠ [] ∧ '\n' ∉ line := by
    intro line hline
    obtain ⟨n, hn, rfl⟩ := List.mem_iff_getElem.1 hline
    have hn' : n < items.length := by rwa [hall.length_eq]
    obtain ⟨htext, hnewline⟩ := readText_line (hmeta _ (List.getElem_mem hn')) (hall.get hn' hn)
    refine ⟨fun hnil => ?_, hnewline⟩
    rw [List.get_eq_getElem, hnil] at htext
    cases htext
  have htext : jsonl = lines.flatMap (· ++ ['\n']) := by
    rw [hlines] at h
    simp only [Except.map, Except.ok.injEq] at h
    rcases lines with _ | ⟨line, lines⟩
    · rw [← h]
      rfl
    · have hne : ['\n'].intercalate (line :: lines) ≠ [] := by
        have hline := (hread line List.mem_cons_self).1
        rcases lines with _ | ⟨line', lines⟩
        · simpa using hline
        · simp [List.intercalate_cons_cons]
      rw [← h, if_neg hne, intercalate_newline (List.cons_ne_nil _ _)]
  rw [htext, ledgerLines_flatMap fun l hl => (hread l hl).2]
  exact hall

/-- **The ledger round trip.**  Every line of the JSONL that is written for JSON metadata reads as
    its item, in order, if the item has a source id that is not blank and a status; for every other
    item `from_json` raises a `ValidationError`.  The summary counts the items. -/
theorem ledger_round_trip {items : List DiscoveredItem} {w : LedgerWindow}
    (hmeta : ∀ item ∈ items, item.metadata.Proper) (h : encodeWindow items = .ok w) :
    (∃ jsonl, decodeUtf8 w.jsonl = some jsonl ∧
      List.Forall₂ DiscoveredItem.Reads items ((ledgerLines jsonl).map readItem)) ∧
    w.summary.Counts items := by
  unfold encodeWindow at h
  rcases hjsonl : ledgerText items with e | jsonl
  · rw [hjsonl] at h
    cases h
  rcases hsummary : summaryText (summarize items) with e | text
  · rw [hjsonl, hsummary] at h
    cases h
  rw [hjsonl, hsummary] at h
  cases h
  refine ⟨⟨jsonl, decodeUtf8_utf8 jsonl, ?_⟩, summarize_counts items⟩
  have hlines := ledgerLines_text hmeta hjsonl
  rw [List.forall₂_map_right_iff]
  clear hjsonl hsummary
  generalize ledgerLines jsonl = lines at hlines ⊢
  induction hlines with
  | nil => exact .nil
  | cons hline _ ih =>
    exact .cons (readItem_line (hmeta _ List.mem_cons_self) hline)
      (ih fun item hitem => hmeta item (List.mem_cons_of_mem _ hitem))

end

/-! ### Items that are written, and not read -/

def fetchedItem : DiscoveredItem :=
  ⟨"one", "fetched", some "https://example.org/1", Dict.ofMembers [("size", .int 3)]⟩

def blankItem : DiscoveredItem := ⟨" ", "fetched", none, ∅⟩

theorem ledger_round_trip_items :
    ∃ w, @encodeWindow oneFloat.toFloatText [fetchedItem, blankItem] = .ok w ∧
    (∃ jsonl, decodeUtf8 w.jsonl = some jsonl ∧
      List.Forall₂ DiscoveredItem.Reads [fetchedItem, blankItem]
      ((ledgerLines jsonl).map (@readItem oneFloat))) ∧
    w.summary.Counts [fetchedItem, blankItem] := by
  have hmeta : ∀ item ∈ [fetchedItem, blankItem], @Dict.Proper oneFloat item.metadata := by
    rintro item (_ | ⟨_, _ | ⟨_, ⟨⟩⟩⟩)
    · exact ⟨by decide, trivial, trivial⟩
    · exact ⟨by decide, trivial⟩
  have h : ∃ w, @encodeWindow oneFloat.toFloatText [fetchedItem, blankItem] = .ok w := ⟨_, rfl⟩
  obtain ⟨w, hw⟩ := h
  exact ⟨w, hw, @ledger_round_trip oneFloat _ _ hmeta hw⟩

/-- `write_window` accepts an item with a blank source id; reading its line raises. -/
theorem blank_item_unread : ∃ w jsonl, @encodeWindow oneFloat.toFloatText [blankItem] = .ok w ∧
    decodeUtf8 w.jsonl = some jsonl ∧ ∀ i,
    (ledgerLines jsonl).map (@readItem oneFloat) ≠ [.ok i] := by
  let _ : FloatCodec := oneFloat
  obtain ⟨jsonl, hjsonl⟩ : ∃ jsonl, ledgerText [blankItem] = .ok jsonl := ⟨_, rfl⟩
  obtain ⟨text, htext⟩ : ∃ text, summaryText (summarize [blankItem]) = .ok text := ⟨_, rfl⟩
  refine ⟨⟨summarize [blankItem], utf8 jsonl, utf8 text⟩, jsonl, ?_,
    decodeUtf8_utf8 jsonl, fun i heq => ?_⟩
  · rw [encodeWindow, hjsonl, htext]
    rfl
  · have hmeta : blankItem.metadata.Proper := ⟨by decide, trivial⟩
    have hlines := ledgerLines_text (by simpa using hmeta) hjsonl
    obtain ⟨line, hline, hone⟩ := List.map_eq_singleton_iff.1 heq
    rw [hline, List.forall₂_cons] at hlines
    obtain ⟨message, hmessage⟩ := (readItem_line hmeta hlines.1).2 fun hr => absurd hr.1 (by decide)
    rw [hmessage] at hone
    cases hone

end DatasourceKit

/-
  A host over a `FetchIntent` (`fetch.py`) whose checkpoints are in a file.

  * `CheckpointJson`: cursors as JSON texts; `parses_cursor`: they read back;
  * `FileOp`: the calls of the intent and its host, but for loads and saves, and the
    operations of `FileCheckpointStore`; `onFile`: the two together;
  * `FileWorld`, `FileStep`: the calls so far, and the files of successive processes, each
    killed at any operation;
  * `file_sessions`: they are runs over a store that answers its content;
  * `file_coverage`: so a sequence of units is covered without gaps.
-/
import DatasourceKit.Codec
import DatasourceKit.Fetch.Sequence
import DatasourceKit.Worker.CheckpointFile

namespace DatasourceKit

open Interleave Interleave.Prog Files

/-! ## Checkpoints as texts -/

/-- The separators of `json.dump(checkpoint, stream, ensure_ascii=False, sort_keys=True)`. -/
def checkpointStyle : JsonStyle := ⟨false, [',', ' '], [':', ' '], none⟩

theorem checkpointStyle_plain : checkpointStyle.Plain :=
  ⟨⟨[' '], rfl, by simp [JsonText.isWs]⟩, ⟨[' '], rfl, by simp [JsonText.isWs]⟩⟩

/-- `Cursor.as_dict`, as `sort_keys` orders it. -/
def cursorJson (kind value : String) : Json :=
  (Json.obj [("kind", .str kind), ("value", .str value)]).sorted

theorem cursorJson_eq (kind value : String) :
    cursorJson kind value = .obj [("kind", .str kind), ("value", .str value)] := by
  have hle : "kind" ≤ "value" := by decide
  simp [cursorJson, Json.sorted, Json.sortedMembers, sortMembers, hle]

/-- What `json` makes of the objects of an intent: only the texts of cursors are known, and
    the exceptions for other texts are `ValueError`s. -/
class CheckpointJson (Ref P : Type) extends FloatCodec, JsonWriter (FetchObj Ref P) where
  dump_cursor : ∀ kind value, dump (.mapping (some kind) (some value)) =
    (utf8 ((cursorJson kind value).render checkpointStyle 0), none)
  message : ReadError → String

section
variable {Ref P ε : Type} [CheckpointJson Ref P]

/-- `isinstance(v, str)`, and the string. -/
def Json.asStr : Json → Option String
  | .str s => some s
  | _ => none

/-- The object that a JSON value is. -/
def FetchObj.ofJson : Json → FetchObj Ref P
  | .null => .null
  | .obj l => .mapping ((l.lookup "kind").bind Json.asStr) ((l.lookup "value").bind Json.asStr)
  | _ => .other

/-- `json.load(stream)`. -/
def parseCheckpoint (raw : Bytes) : Except Exc (FetchObj Ref P) :=
  match decodeUtf8 raw with
  | none => .error .unicode
  | some cs => match readText cs with
    | .ok v => .ok (.ofJson v)
    | .error e => .error (.valueError (CheckpointJson.message Ref P e))

instance : CheckpointText (FetchObj Ref P) where
  null := .null
  parse := parseCheckpoint

/-- **A cursor reads back.** -/
theorem parses_cursor (kind value : String) :
    Parses (C := FetchObj Ref P) (.mapping (some kind) (some value)) := by
  refine ⟨utf8 ((cursorJson kind value).render checkpointStyle 0) ++ [0x0A], ?_, ?_⟩
  · rw [WriteCall.encoding, show JsonWriter.dump _ = _ from CheckpointJson.dump_cursor kind value]
  · have hproper : (cursorJson kind value).Proper :=
      Json.proper_sorted _ ⟨by simp, trivial, trivial, trivial⟩
    have hdigits : (cursorJson kind value).digitsOk = true := by
      rw [cursorJson, Json.digitsOk_sorted]
      rfl
    have hread : readText ((cursorJson kind value).render checkpointStyle 0 ++ ['\n']) = _ :=
      readText_append checkpointStyle_plain hproper hdigits (by simp [JsonText.isWs])
    have hline : utf8 ((cursorJson kind value).render checkpointStyle 0) ++ [0x0A] =
        utf8 ((cursorJson kind value).render checkpointStyle 0 ++ ['\n']) := by
      rw [utf8_append]
      rfl
    show parseCheckpoint _ = _
    rw [hline, parseCheckpoint, decodeUtf8_utf8]
    simp only [hread]
    rw [cursorJson_eq]
    rfl

theorem parse_ne_notFound (b : Bytes) :
    (CheckpointText.parse b : Except Exc (FetchObj Ref P)) ≠ .error .notFound := by
  show parseCheckpoint b ≠ _
  unfold parseCheckpoint
  split
  · simp
  · split <;> simp

end

/-! ## The two together -/

/-- The calls of an intent and its host, and the operations of the store. -/
inductive FileOp (Ref P ε : Type) where
  | call (o : FetchOp Ref P ε)
  | store (o : CheckpointOp)

/-- The store catches its exceptions, and raises them as those of the host. -/
abbrev FileOp.Val {Ref P ε : Type} : FileOp Ref P ε → Type
  | call o => o.Val
  | store o => Except Exc o.Val

abbrev FileProg (Ref P ε : Type) := Prog (@FileOp.Val Ref P ε) (HostExc ε)

/-- Is it a call on the store? -/
def FetchOp.isStore {Ref P ε : Type} : FetchOp Ref P ε → Bool
  | host .load | host (.save _) => true
  | _ => false

/-- The history without the calls on the store. -/
def calls {Ref P ε : Type} (u : FetchHist Ref P ε) :
    FetchHist Ref P ε := u.filter fun e => !e.1.isStore

section
variable {Ref P ε : Type} (path : String) (raised : Exc → HostExc ε)

/-- A program of the store. -/
def ofStore {α : Type} : CheckpointProg α → FileProg Ref P ε α
  | .ret a => .ret a
  | .raise e => .raise (raised e)
  | .call o k => .call (.store o) fun
    | .ok r => ofStore (k r)
    | .error e => .raise e

/-- How the calls are made: those on the store are those of `FileCheckpointStore`. -/
def onFile [CheckpointJson Ref P] : (o : FetchOp Ref P ε) → FileProg Ref P ε o.Val
  | .host .load => ofStore raised (FileCheckpointStore.load path)
  | .host (.save c) => ofStore raised (FileCheckpointStore.save path c)
  | o => perform (FileOp.call o)

/-- The calls so far, the files, and the identifiers of the process and its thread. -/
structure FileWorld (Ref P ε : Type) where
  log : FetchHist Ref P ε
  disk : Disk String
  ident : ℕ × ℕ

/-- The calls are answered as `c` allows, and the operations as the files do. -/
def FileStep (c : CursorPlanner Ref P ε) :
    (o : FileOp Ref P ε) → FileWorld Ref P ε → Except (HostExc ε) o.Val → FileWorld Ref P ε → Prop
  | .call o, s, r, s' => c.Env o r s.log ∧ s' = { s with log := ⟨o, r⟩ :: s.log }
  | .store o, s, r, s' => ∃ a, r = .ok a ∧ CheckpointStep s.ident o s.disk a s'.disk ∧
      s' = { s with disk := s'.disk }

/-- Another process begins a run. -/
def FileOpens [CheckpointJson Ref P] (i : FetchIntent) (s : FileWorld Ref P ε)
    (q : FileProg Ref P ε (Option (WorkerRun (FetchObj Ref P)))) (s' : FileWorld Ref P ε) : Prop :=
  ∃ p ident, i.IsRun p ∧ q = p.lower (onFile path raised) ∧ s' = { s with ident := ident }

/-- The planner, which does not see the calls on the store. -/
def CursorPlanner.blind (c : CursorPlanner Ref P ε) : CursorPlanner Ref P ε :=
  { c with checkpointAfter := fun u => c.checkpointAfter (calls u) }

/-- The calls are those of the history, and the file reads as the content of its store. -/
structure ShownBy [CheckpointJson Ref P] (path : String) (u : FetchHist Ref P ε)
    (s : FileWorld Ref P ε) : Prop where
  log : s.log = calls u
  reads : Reads path s.disk (fetchContent u)

variable {path raised} {c : CursorPlanner Ref P ε} {u : FetchHist Ref P ε} {s : FileWorld Ref P ε}

/-- A specification of the store, in a run of the host. -/
theorem always_ofStore {α : Type} {p : CheckpointProg α} {G : CheckpointOp → Disk String → Prop}
    {Q : α → Disk String → Prop} {E : Exc → Disk String → Prop}
    (h : p.Always (CheckpointStep s.ident) G Q E s.disk) :
    (ofStore raised p : FileProg Ref P ε α).Always (FileStep c)
    (fun _ s' => ∃ o d, s' = { s with disk := d } ∧ G o d)
    (fun a s' => ∃ d, s' = { s with disk := d } ∧ Q a d)
    (fun _ s' => ∃ e d, s' = { s with disk := d } ∧ E e d) s := by
  suffices hall : ∀ (p : CheckpointProg α) d, p.Always (CheckpointStep s.ident) G Q E d →
      (ofStore raised p : FileProg Ref P ε α).Always (FileStep c)
        (fun _ s' => ∃ o d, s' = { s with disk := d } ∧ G o d)
        (fun a s' => ∃ d, s' = { s with disk := d } ∧ Q a d)
        (fun _ s' => ∃ e d, s' = { s with disk := d } ∧ E e d)
        { s with disk := d } from hall p s.disk h
  intro p
  induction p with
  | ret a => exact fun d h => ⟨d, rfl, h⟩
  | raise e => exact fun d h => ⟨e, d, rfl, h⟩
  | call o k ih =>
    rintro d ⟨hg, hk⟩
    rw [ofStore]
    refine Prog.always_call.2 ⟨⟨o, d, rfl, hg⟩, ?_⟩
    rintro _ s' ⟨a, rfl, hstep, hs'⟩
    rw [hs']
    exact ih a _ (hk a _ hstep)

variable [CheckpointJson Ref P]

/-- A file reads as one checkpoint. -/
theorem Reads.unique {d : Disk String} {x y : FetchObj Ref P} (hx : Reads path d x)
    (hy : Reads path d y) : x = y := by
  unfold Reads at hx hy
  split at hx
  · next h =>
    rw [h] at hy
    exact hx.trans hy.symm
  · next h =>
    rw [h] at hy
    exact Except.ok.inj (hx.symm.trans hy)

theorem ShownBy.load (h : ShownBy path u s) :
    (onFile path raised (.host .load) : FileProg Ref P ε _).Always (FileStep c)
      (fun _ s => ShownBy path u s ∨ ∃ r, c.blind.Env (.host .load) r u ∧
        ShownBy path (⟨.host .load, r⟩ :: u) s)
      (fun v s => c.blind.Env (.host .load) (.ok v) u ∧ ShownBy path (⟨.host .load, .ok v⟩ :: u) s)
      (fun e s => c.blind.Env (.host .load) (.error e) u ∧
        ShownBy path (⟨.host .load, .error e⟩ :: u) s) s := by
  refine (always_ofStore (always_load parse_ne_notFound)).mono ?_ ?_ ?_
  · rintro _ _ ⟨_, _, rfl, rfl⟩
    exact .inl h
  · rintro v _ ⟨_, rfl, rfl, hv⟩
    exact ⟨hv.unique h.reads, h.log, h.reads⟩
  · rintro e _ ⟨_, _, rfl, rfl⟩
    exact ⟨trivial, h.log, h.reads⟩

theorem ShownBy.save {kind value : String} (h : ShownBy path u s) (x : FetchObj Ref P)
    (hx : x = .mapping (some kind) (some value)) :
    (onFile path raised (.host (.save x)) : FileProg Ref P ε _).Always (FileStep c)
      (fun _ s => ShownBy path u s ∨ ∃ r, c.blind.Env (.host (.save x)) r u ∧
        ShownBy path (⟨.host (.save x), r⟩ :: u) s)
      (fun v s => c.blind.Env (.host (.save x)) (.ok v) u ∧
        ShownBy path (⟨.host (.save x), .ok v⟩ :: u) s)
      (fun e s => c.blind.Env (.host (.save x)) (.error e) u ∧
        ShownBy path (⟨.host (.save x), .error e⟩ :: u) s) s := by
  -- A file with the text reads as the new checkpoint, one with the old text as the old one.
  have hnew : ∀ d : Disk String,
      (∃ b, (WriteCall.save x).encoding = some b ∧ d.read path = some b) → Reads path d x := by
    rintro d ⟨b, hb, hread⟩
    obtain ⟨b', hb', hparse⟩ : Parses (.mapping (some kind) (some value) : FetchObj Ref P) :=
      parses_cursor kind value
    rw [← hx] at hb' hparse
    cases hb.symm.trans hb'
    rw [Reads, hread]
    exact hparse
  have hold : ∀ d : Disk String, d.read path = s.disk.read path →
      Reads path d (fetchContent u) := by
    intro d hd
    rw [Reads, hd]
    exact h.reads
  refine (always_ofStore always_saved).mono ?_ ?_ ?_
  · rintro _ _ ⟨_, d, rfl, hd | hd⟩
    · exact .inl ⟨h.log, hold d hd⟩
    · exact .inr ⟨.ok (), trivial, h.log, hnew d hd⟩
  · rintro v _ ⟨d, rfl, hd⟩
    exact ⟨trivial, h.log, hnew d hd⟩
  · rintro e _ ⟨_, d, rfl, hd⟩
    exact ⟨trivial, h.log, hold d hd⟩

/-- A call that is not one on the store. -/
theorem ShownBy.call {o : FetchOp Ref P ε} (h : ShownBy path u s) (ho : o.isStore = false) :
    (onFile path raised o : FileProg Ref P ε _).Always (FileStep c)
      (fun _ s => ShownBy path u s ∨ ∃ r, c.blind.Env o r u ∧ ShownBy path (⟨o, r⟩ :: u) s)
      (fun v s => c.blind.Env o (.ok v) u ∧ ShownBy path (⟨o, .ok v⟩ :: u) s)
      (fun e s => c.blind.Env o (.error e) u ∧ ShownBy path (⟨o, .error e⟩ :: u) s) s := by
  have hon : (onFile path raised o : FileProg Ref P ε _) = perform (FileOp.call o) := by
    cases o with
    | host o => cases o <;> first | rfl | cases ho
    | _ => rfl
  have hstep : ∀ r s', FileStep c (.call o) s r s' →
      c.blind.Env o r u ∧ ShownBy path (⟨o, r⟩ :: u) s' := by
    rintro r _ ⟨henv, rfl⟩
    refine ⟨?_, ?_, ?_⟩
    · cases o with
      | checkpointAfter y p =>
        have henv : r = c.checkpointAfter s.log y p := henv
        rw [h.log] at henv
        exact henv
      | host o => cases o <;> first | exact henv | cases ho
      | _ => exact henv
    · show _ :: s.log = _
      rw [h.log]
      simp [calls, ho]
    · have hcontent : fetchContent (⟨o, r⟩ :: u) = fetchContent u := by
        cases o with
        | host o => cases o <;> first | rfl | cases ho
        | _ => rfl
      rw [hcontent]
      exact h.reads
  rw [hon]
  exact always_perform.2 ⟨.inl h, fun v s' hs => hstep _ s' hs, fun e s' hs => hstep _ s' hs⟩

/-- **The file is the store**: wherever a call is cut, it has been made or not. -/
theorem file_commits : Commits c.blind.Env FetchGuard (FileStep c) (onFile path raised)
    (ShownBy path : FetchHist Ref P ε → FileWorld Ref P ε → Prop) := by
  intro o u s h hg
  cases ho : o.isStore with
  | false => exact h.call ho
  | true =>
    cases o with
    | host o =>
      cases o with
      | load => exact h.load
      | save x =>
        obtain ⟨⟨p, y, a, hp, hx⟩, -⟩ := hg
        obtain ⟨s', -, hne, -⟩ := hp
        cases a with
        | none => exact h.save x hx
        | cursor cur => exact h.save x hx
        | other => exact absurd rfl hne
      | _ => cases ho
    | _ => cases ho

omit [CheckpointJson Ref P] in
theorem CursorPlanner.blind_store (o : FetchOp Ref P ε) (r : Except (HostExc ε) o.Val)
    (u : FetchHist Ref P ε) (h : c.blind.Env o r u) : FetchStore o r u := by
  cases o with
  | plan cursor => trivial
  | checkpointAfter y p => trivial
  | fetch ref => exact h
  | persist y p => exact h
  | host o => exact h

/-- **Runs over a file are runs over a store**: where processes have been killed at any
    operation, also inside a load or a save, they have made the calls of runs that were
    cut between two calls, and the file reads as what these have stored. -/
theorem file_sessions {i : FetchIntent} {s₀ : FileWorld Ref P ε} {u₀ : FetchHist Ref P ε}
    {q : FileProg Ref P ε (Option (WorkerRun (FetchObj Ref P)))}
    (hu₀ : Sessions c.blind.Env i.IsRun u₀) (hs₀ : ShownBy path u₀ s₀)
    (h : Serial (FileStep c) (FileOpens path raised i) s₀ s q) :
    ∃ u, Sessions c.blind.Env i.IsRun u ∧ u₀ <:+ u ∧ ShownBy path u s := by
  have hcommits : Commits c.blind.Env FetchGuard (FileStep c) (onFile path raised) (ShownBy path) :=
    file_commits
  refine hcommits.sessions ?_ ?_ hu₀ hs₀ h
  · rintro _ ⟨h, maxIterations, rounds, rfl⟩ u
    exact (always_program i h maxIterations rounds u).restrict fun _ _ _ _ hs =>
      ⟨CursorPlanner.blind_store _ _ _ hs.1, hs.2⟩
  · rintro s _ _ ⟨p, ident, hp, rfl, rfl⟩
    exact ⟨p, hp, rfl, fun u hu => ⟨hu.log, hu.reads⟩⟩

end

/-! ## Coverage -/

section
variable {Ref P ε : Type}

theorem handed_calls (u : FetchHist Ref P ε) : handed (calls u) = handed u := by
  induction u with
  | nil => rfl
  | cons e u ih =>
    obtain ⟨o, r⟩ := e
    have hkeep : o.isStore = false → calls (⟨o, r⟩ :: u) = ⟨o, r⟩ :: calls u :=
      fun ho => by simp [calls, ho]
    cases o with
    | persist y w => rw [hkeep rfl, handed, handed, ih]
    | host o =>
      cases ho : (FetchOp.host o : FetchOp Ref P ε).isStore with
      | false => rw [hkeep ho]; exact ih
      | true =>
        have hdrop : calls (⟨.host o, r⟩ :: u) = calls u := by simp [calls, ho]
        rw [hdrop]
        exact ih
    | _ => rw [hkeep rfl]; exact ih

theorem calls_append (v u : FetchHist Ref P ε) :
    calls (v ++ u) = calls v ++ calls u := List.filter_append ..

/-- The file of a planner when the first `n` units are done. -/
abbrev FileAt [CheckpointJson Ref P] (path kind : String) (encode : Ref → String) (units : List Ref)
    (n : ℕ) (s : FileWorld Ref P ε) : Prop :=
  Reads (C := FetchObj Ref P) path s.disk (match n with
    | 0 => .null
    | n + 1 => (units[n]?).elim .null fun x => .mapping (some kind) (some (encode x)))

/-- **A sequence is covered without gaps, from a file**: processes that are killed at any
    operation hand the units over in their order, and the file names the last one that is
    done; only the one after it may have been handed over, too.  Once the last unit is in
    the file, nothing is fetched. -/
theorem file_coverage [StrRepr] [CheckpointJson Ref P] {units : List Ref} {kind : String}
    {encode : Ref → String} {path : String} {raised : Exc → HostExc ε} (order : SequenceOrder)
    (hkind : isBlank kind = false) (htext : ∀ x ∈ units, isBlank (encode x) = false)
    (hdistinct : (units.map encode).Nodup) :
    ∃ p : SequencePlanner Ref, SequencePlanner.make (ε := ε) units kind encode order.value = .ok p ∧
      ∀ (i : FetchIntent) (s₀ s : FileWorld Ref P ε) q, s₀.log = [] → s₀.disk.read path = none →
        Serial (FileStep p.planner) (FileOpens path raised i) s₀ s q →
        ∃ (n : ℕ) (k : Ref → ℕ), n ≤ units.length ∧ FileAt path kind encode (order.walk units) n s ∧
          handed s.log = ((order.walk units).take (n + 1)).flatMap
          (fun x => List.replicate (k x) (some x)) ∧ (∀ x ∈ (order.walk units).take n, 1 ≤ k x) ∧
          ∀ s' q', n = units.length →
          Serial (FileStep p.planner) (FileOpens path raised i) s s' q' →
          ∃ v, s'.log = v ++ s.log ∧ ∀ e ∈ v, ∀ ref, e.1 ≠ .fetch ref := by
  obtain ⟨p, hmake, rfl, rfl, hunits⟩ :=
    SequencePlanner.make_eq_ok (ε := ε) order hkind htext hdistinct
  have hlength : p.units.length = units.length := by
    rw [hunits]
    cases order <;> simp [SequenceOrder.walk]
  refine ⟨p, hmake, fun i s₀ s q hlog hdisk h => ?_⟩
  rw [← hunits]
  have hblind : (p.planner : CursorPlanner Ref P ε).blind = p.planner := rfl
  have hstart : ShownBy path [] s₀ := ⟨hlog, by rw [Reads, hdisk]; rfl⟩
  obtain ⟨u, hu, -, hs⟩ := file_sessions .nil hstart h
  rw [hblind] at hu
  have heach : Each p.planner.Allows u := CursorPlanner.each hu
  obtain ⟨n, k, hwalk⟩ := walk_of_each heach
  refine ⟨n, k, hlength ▸ hwalk.le, ?_, ?_, hwalk.done, ?_⟩
  · have hreads := hs.reads
    rw [hwalk.content] at hreads
    cases n <;> exact hreads
  · rw [hs.log, handed_calls]
    exact hwalk.handed
  · intro s' q' hn h'
    obtain ⟨u', hu', ⟨v, rfl⟩, hs'⟩ := file_sessions (hblind ▸ hu) hs h'
    rw [hblind] at hu'
    have hnone := (((hn.trans hlength.symm) ▸ hwalk).no_fetch (CursorPlanner.each hu')).2
    refine ⟨calls v, ?_, fun e he => hnone e (List.mem_filter.1 he).1⟩
    rw [hs'.log, calls_append, hs.log]

/-! ### A run -/

section

/-- Only cursors are written. -/
@[reducible]
def cursorsOnly (Ref P : Type) : CheckpointJson Ref P where
  toFloatCodec := oneFloat
  dump
    | .mapping (some kind) (some value) =>
      (utf8 (@Json.render oneFloat.toFloatText checkpointStyle 0 (cursorJson kind value)), none)
    | _ => ([], some .typeError)
  dumps _ := .error .typeError
  dump_cursor _ _ := rfl
  message _ := ""

local instance : CheckpointJson ℕ ℕ := cursorsOnly ℕ ℕ

local instance bareRepr : StrRepr := ⟨fun s => "'" ++ s ++ "'"⟩

/-- Every operation succeeds, and every write writes all. -/
def fileAct (c : CursorPlanner ℕ ℕ Unit) :
    (o : FileOp ℕ ℕ Unit) → FileWorld ℕ ℕ Unit →
    Option (Except (HostExc Unit) o.Val × FileWorld ℕ ℕ Unit)
  | .call o, s =>
    let r := c.answer id (fun _ => .ok ()) o s.log
    some (r, { s with log := ⟨o, r⟩ :: s.log })
  | .store (.state (.disk o)), s =>
    let written := match o with
      | .write _ _ b => b.length
      | _ => 0
    (s.disk.act ⟨.fileExists, .notFound⟩ o (.done written)).map fun x =>
      (.ok x.1, { s with disk := x.2 })
  | .store (.state .uuid), s => some (.ok (.error .typeError), s)
  | .store (.state .ident), s => some (.ok (.ok s.ident), s)
  | .store (.openRead n), s =>
    match s.disk.entry n with
    | some i => some (.ok (.ok i), s)
    | none => some (.ok (.error .notFound), s)
  | .store (.read i), s => some (.ok (.ok (s.disk.content i)), s)

theorem fileAct_step {c : CursorPlanner ℕ ℕ Unit} (o : FileOp ℕ ℕ Unit) (s : FileWorld ℕ ℕ Unit)
    (r : Except (HostExc Unit) o.Val) (s' : FileWorld ℕ ℕ Unit) (h : fileAct c o s = some (r, s')) :
    FileStep c o s r s' := by
  cases o with
  | call o =>
    cases h
    exact ⟨c.answer_env id _ o s.log, rfl⟩
  | store o =>
    cases o with
    | state o =>
      cases o with
      | disk o =>
        obtain ⟨x, hx, heq⟩ := Option.map_eq_some_iff.1 h
        cases heq
        exact ⟨_, rfl, ⟨_, hx⟩, rfl⟩
      | uuid =>
        cases h
        exact ⟨_, rfl, ⟨fun _ h => (nomatch h), rfl⟩, rfl⟩
      | ident =>
        cases h
        exact ⟨_, rfl, ⟨rfl, rfl⟩, rfl⟩
    | openRead n =>
      simp only [fileAct] at h
      split at h
      · next i hi =>
        cases h
        exact ⟨_, rfl, ⟨rfl, .inl ⟨i, hi, rfl⟩⟩, rfl⟩
      · next hi =>
        cases h
        exact ⟨_, rfl, ⟨rfl, .inr ⟨_, rfl, fun _ => hi⟩⟩, rfl⟩
    | read i =>
      cases h
      exact ⟨_, rfl, ⟨rfl, .inl rfl⟩, rfl⟩

/-- The whole run of a process that begins without a file. -/
def wholeRun (c : CursorPlanner ℕ ℕ Unit) :
    Option (Except (HostExc Unit) (Option (WorkerRun (FetchObj ℕ ℕ))) × FileWorld ℕ ℕ Unit) :=
  ((FetchIntent.program {} plainHost none 4 : FetchProg ℕ ℕ Unit _).lower
    (onFile "state.json" fun _ => .consumer ())).drive (fileAct c) ⟨[], emptyDisk, (7, 0)⟩

/-- A run of which `q` holds is one of a series. -/
theorem wholeRun_serial {c : CursorPlanner ℕ ℕ Unit} (check : FetchHist ℕ ℕ Unit → Bool)
    (h : (wholeRun c).any (fun x => check x.2.log) = true) :
    ∃ s q, Serial (FileStep c) (FileOpens "state.json" (fun _ => .consumer ()) {})
    ⟨[], emptyDisk, (0, 0)⟩ s q ∧ check s.log = true := by
  obtain ⟨⟨r, s⟩, hrun, hcheck⟩ := (Option.any_eq_true _ _).1 h
  exact ⟨s, _, .of_steps ⟨_, (7, 0), ⟨plainHost, none, 4, rfl⟩, rfl, rfl⟩
    (.of_drive fileAct_step hrun), hcheck⟩

/-- A walk over two units, of which both are handed over. -/
theorem file_coverage_run : ∃ (p : SequencePlanner ℕ) (s : FileWorld ℕ ℕ Unit) (n : ℕ),
    SequencePlanner.make (ε := Unit) [1, 2] "page" (fun n => if n = 1 then "one" else "two")
      SequenceOrder.forward.value = .ok p ∧
    handed s.log = [some 1, some 2] ∧
    FileAt "state.json" "page" (fun n => if n = 1 then "one" else "two") [1, 2] n s := by
  obtain ⟨p, hmake, hcovers⟩ :=
    @file_coverage ℕ ℕ Unit _ _ [1, 2] "page" (fun n => if n = 1 then "one" else "two") "state.json"
    (fun _ => .consumer ()) .forward (by decide +kernel) (by decide +kernel) (by decide +kernel)
  have hrun : (wholeRun p.planner).any (fun x => decide (handed x.2.log = [some 1, some 2])) =
      true := by
    cases hmake
    decide +kernel
  obtain ⟨s, q, hs, hcheck⟩ := wholeRun_serial (fun u => decide (handed u = [some 1, some 2])) hrun
  obtain ⟨n, k, -, hat, -⟩ := hcovers {} ⟨[], emptyDisk, (0, 0)⟩ s q rfl rfl hs
  exact ⟨p, s, n, hmake, of_decide_eq_true hcheck, hat⟩

/-- The calls of that run are those of a run over a store. -/
theorem file_sessions_run :
    ∃ (p : SequencePlanner ℕ) (s : FileWorld ℕ ℕ Unit) (u : FetchHist ℕ ℕ Unit),
    handed s.log = [some 1, some 2] ∧ Sessions p.planner.blind.Env (FetchIntent.IsRun {}) u ∧
    ShownBy "state.json" u s := by
  obtain ⟨p, hmake, -⟩ := @SequencePlanner.make_eq_ok ℕ Unit _ [1, 2] "page"
    (fun n => if n = 1 then "one" else "two") .forward (by decide +kernel)
      (by decide +kernel) (by decide +kernel)
  have hrun : (wholeRun p.planner).any (fun x => decide (handed x.2.log = [some 1, some 2])) =
      true := by
    cases hmake
    decide +kernel
  obtain ⟨s, q, hs, hcheck⟩ := wholeRun_serial (fun u => decide (handed u = [some 1, some 2])) hrun
  have hfresh : ShownBy "state.json" ([] : FetchHist ℕ ℕ Unit) ⟨[], emptyDisk, (0, 0)⟩ := ⟨rfl, rfl⟩
  obtain ⟨u, hu, -, hshown⟩ := file_sessions .nil hfresh hs
  exact ⟨p, s, u, of_decide_eq_true hcheck, hu, hshown⟩

end

end

end DatasourceKit

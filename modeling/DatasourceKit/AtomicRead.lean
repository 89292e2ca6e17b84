/-
  Reading files that are being replaced: `FileCheckpointStore.load` (`worker.py`) and
  `read_json` (`fleet/process.py`), beside the writers of `write_json_atomic` and
  `FileCheckpointStore.save`.

  A reader opens the file, and reads it piece by piece; any threads make any steps of their
  calls between two operations of it, and may be killed.

  * `FileReader.load`, `FileReader.readJson`: the source functions, over these operations;
  * `still_target`: what the target leads to is not written any more;
  * `loads_whole`: a load answers what the file reads as at one moment;
  * `reads_document`: where only documents are written, a file that is there always reads as
    one of them.
-/
import DatasourceKit.Files.Readers
import DatasourceKit.Worker.CheckpointFile

namespace DatasourceKit

open Interleave Prog Files

/-! ## The readers -/

abbrev ReadProg (α : Type) := Prog (ReadOp.Val (N := String)) Exc α

/-- What `read_text` and `json.loads` make of the bytes of a file. -/
class JsonReader where
  content : Bytes → Content

namespace FileReader

/-- `FileCheckpointStore.load`; `none` after `n` rounds. -/
def load {C : Type} [CheckpointText C] (n : ℕ) (path : String) : ReadProg (Option C) :=
  ((readFile n path).bind fun
    | none => .ret none
    | some raw => (Prog.ofExcept (CheckpointText.parse raw)).bind fun c => .ret (some c)).handle fun
    | .notFound => .ret (some CheckpointText.null)
    | e => .raise e

/-- `read_json`; `none` after `n` rounds. -/
def readJson [JsonReader] (n : ℕ) (path : String) : ReadProg (Option (Option Dict)) :=
  (readFile n path).catching.bind fun
    | .ok none => .ret none
    | .ok (some raw) => (DatasourceKit.readJson (.ret (.ok (JsonReader.content raw)))).bind
      fun d => .ret (some d)
    | .error e => (DatasourceKit.readJson (.ret (.error e))).bind fun d => .ret (some d)

end FileReader

/-! ## Beside writers -/

section
variable {C : Type} {target : String}

abbrev WritersCfg (C : Type) := Cfg StateOp.Val Exc Unit (StateWorld (WriteCall C)) (WriteCall C)

section
variable [JsonWriter C] (target : String)

/-- The threads have made some steps. -/
abbrev Later (c c' : WritersCfg C) : Prop := (writers target).Reach (fun _ _ => True) c c'

/-- An operation of a reader, after any steps of the threads. -/
abbrev ReaderStep (raises : Exc → Prop) := ReadLater (Later (C := C) target)
    (fun c => c.sh.disk) Exc.notFound raises

end

variable [JsonWriter C] {disk₀ : Disk String} {ident : ℕ ↪ ℕ × ℕ} {c₀ c : WritersCfg C}
  {raises : Exc → Prop} {n : ℕ}

/-- A complete file stays as it is in every step of the threads. -/
theorem published_step {c c' : WritersCfg C} {a : Act (WriteCall C) (DiskChoice Exc ⊕ String)}
    {i : ℕ} {whole : Bytes} (hreach : Later target (Machine.idle (bootWriters disk₀ ident)) c)
    (hp : Complete (· = target) c.sh.disk (fun t => (c.sh.writer t).hold) i whole)
    (h : (writers target).step c a = some c') :
    Complete (· = target) c'.sh.disk (fun t => (c'.sh.writer t).hold) i whole := by
  obtain ⟨hi, hfits⟩ := (writers_rely disk₀ ident).inv writersInv_boot hreach
  have hrest : ∀ t x, Complete (· = target) c.sh.disk (fun t' =>
      ((c.sh.setWriter t { ident := (c.sh.writer t).ident, call := x }).writer t').hold) i whole := by
    intro t x
    rw [StateWorld.hold_setWriter]
    exact hp.update fun _ hh => nomatch hh
  rcases Machine.step_cases h with ⟨t, k, s, rfl, -, hs, rfl⟩ |
    ⟨t, ch, k, o, f, r, s, rfl, hrun, hop, rfl⟩ | ⟨t, k, r, rfl, -, rfl⟩ | ⟨t, rfl, rfl⟩
  · cases hs
    exact hrest t (some k)
  · have hok := (hfits t k _ hrun).1
    cases o with
    | disk o =>
      obtain ⟨d', hact, rfl⟩ := StateWorld.op_disk hop
      rw [StateWorld.hold_setWriter]
      exact hp.step (hi.permits hok) hact
    | uuid =>
      rcases StateWorld.op_uuid hop with ⟨u, -, -, -, rfl⟩ | ⟨-, rfl⟩
      · rw [StateWorld.hold_setWriter]
        exact hp.update fun x hx => hp.free t x hx
      · exact hp
    | ident =>
      obtain ⟨-, rfl⟩ := StateWorld.op_ident hop
      exact hp
  · exact hrest t none
  · exact hrest t none

/-- **What the target leads to is not written any more**, though it may lead to another file. -/
theorem still_target (h₀ : Later target (Machine.idle (bootWriters disk₀ ident)) c₀) :
    Fixed (Later (C := C) target) (fun c => c.sh.disk) target c₀ := by
  intro c c' i hc hc' hentry
  have hstart := Complete.of_entry
    ((writers_rely disk₀ ident).inv writersInv_boot (h₀.trans hc)).1.apart rfl hentry
  suffices hp : Complete (· = target) c'.sh.disk (fun t => (c'.sh.writer t).hold) i
      (c.sh.disk.content i) from hp.content
  induction hc' with
  | refl => exact hstart
  | step hc'' _ hs ih => exact published_step ((h₀.trans hc).trans hc'') ih hs

/-- What is read of the target, it has held in one moment. -/
theorem always_readTarget (h₀ : Later target (Machine.idle (bootWriters disk₀ ident)) c₀) :
    (readFile n target : ReadProg _).Always (ReaderStep (C := C) target raises) (fun _ _ => True)
      (fun r c => ∃ c₁, Meanwhile (Later target) c₀ c c₁ ∧ ReadsAs n target c₁.sh.disk r)
      (fun e c => raises e ∧ (e = .notFound →
        ∃ c₁, Meanwhile (Later target) c₀ c c₁ ∧ c₁.sh.disk.read target = none)) c₀ :=
  always_readFile (fun _ => .refl) (fun _ _ _ h h' => h.trans h') (still_target h₀) n

end

/-! ## Checkpoints -/

section
variable {C : Type} [CheckpointText C] {path : String} {disk₀ : Disk String} {ident : ℕ ↪ ℕ × ℕ}
  {c₀ c : WritersCfg C} {raises : Exc → Prop} {n : ℕ}

/-- What a load comes to in one moment. -/
def LoadsAs (n : ℕ) (path : String) (d : Disk String) : Option C → Prop
  | some x => Reads path d x
  | none => ∃ b, d.read path = some b ∧ n ≤ b.length

/-- A load answers what the file reads as at one moment; or it raises what opening and reading
    raise, or what parsing raises for the content of one moment. -/
theorem always_loads (hparse : ∀ b, (CheckpointText.parse b : Except Exc C) ≠ .error .notFound)
    (h₀ : Later path (Machine.idle (bootWriters disk₀ ident)) c₀) :
    (FileReader.load n path : ReadProg (Option C)).Always (ReaderStep (C := C) path raises)
    (fun _ _ => True) (fun r c => ∃ c₁, Meanwhile (Later path) c₀ c c₁ ∧
      LoadsAs n path c₁.sh.disk r)
      (fun e c => raises e ∨ ∃ c₁ b, Meanwhile (Later path) c₀ c c₁ ∧
        c₁.sh.disk.read path = some b ∧ (CheckpointText.parse b : Except Exc C) = .error e) c₀ := by
  refine always_handle.2 (always_bind.2 ((always_readTarget h₀).mono (fun _ _ h => h) ?_ ?_))
  · rintro (_ | raw) c hc
    · exact hc
    · obtain ⟨c₁, hb, hread⟩ := hc
      dsimp only
      cases hraw : (CheckpointText.parse raw : Except Exc C) with
      | ok x =>
        refine ⟨c₁, hb, ?_⟩
        rw [LoadsAs, Reads, hread]
        exact hraw
      | error e => cases e <;> first | exact .inr ⟨c₁, raw, hb, hread, hraw⟩ |
        exact absurd hraw (hparse _)
  · rintro e c ⟨hraises, hnone⟩
    cases e <;> try exact .inl hraises
    obtain ⟨c₁, hb, hread⟩ := hnone rfl
    refine ⟨c₁, hb, ?_⟩
    rw [LoadsAs, Reads, hread]

/-- **A load is whole**: it answers what the file reads as at one moment since it has begun, if
    the file is not longer than it can read; and where only texts that parse are written, it
    raises nothing but what opening and reading raise. -/
theorem loads_whole (hparse : ∀ b, (CheckpointText.parse b : Except Exc C) ≠ .error .notFound)
    (h₀ : Later path (Machine.idle (bootWriters disk₀ ident)) c₀) {p : ReadProg (Option C)}
    (h : Steps (ReaderStep (C := C) path raises) (FileReader.load n path) c₀ c p) :
    (∀ r, p = .ret r → ∃ c₁, Meanwhile (Later path) c₀ c c₁ ∧ LoadsAs n path c₁.sh.disk r) ∧
    ((∀ b, disk₀.read path = some b → ∃ x : C, CheckpointText.parse b = .ok x) →
      (∀ (k : WriteCall C) b, k.encoding = some b → ∃ x : C, CheckpointText.parse b = .ok x) →
      ∀ e, p = .raise e → raises e) := by
  have hload := (always_loads hparse h₀).steps h
  refine ⟨?_, ?_⟩
  · rintro r rfl
    exact hload
  · rintro hold hcalls e rfl
    rcases hload with hraises | ⟨c₁, b, hb, hread, herr⟩
    · exact hraises
    -- what the file holds at that moment is old, or a complete encoding
    · obtain ⟨x, hx⟩ : ∃ x : C, CheckpointText.parse b = .ok x := by
        rcases (all_or_nothing (h₀.trans hb.after)).1 with hsame | ⟨k, -, b', henc, hnew⟩
        · exact hold b (hsame ▸ hread)
        · cases hread.symm.trans hnew
          exact hcalls k b henc
      cases hx.symm.trans herr

end

/-! ## Documents -/

section
variable {P : Type} [JsonWriter P] [JsonReader] {target : String} {disk₀ : Disk String}
  {ident : ℕ ↪ ℕ × ℕ} {c₀ c : WritersCfg P} {raises : Exc → Prop} {n : ℕ}

omit [JsonReader] in
/-- A target that is there stays there. -/
theorem there_later (h₀ : Later target (Machine.idle (bootWriters disk₀ ident)) c₀)
    (h : Later target c₀ c) (hthere : c₀.sh.disk.read target ≠ none) :
    c.sh.disk.read target ≠ none := by
  induction h with
  | refl => exact hthere
  | @step c c' a hc _ hstep ih =>
    obtain ⟨hi, hfits⟩ := (writers_rely disk₀ ident).inv writersInv_boot (h₀.trans hc)
    rcases Machine.step_cases hstep with ⟨t, k, s, rfl, -, hs, rfl⟩ |
      ⟨t, ch, k, o, f, r, s, rfl, hrun, hop, rfl⟩ | ⟨t, k, r, rfl, -, rfl⟩ | ⟨t, rfl, rfl⟩
    · cases hs
      exact ih
    · have hok := (hfits t k _ hrun).1
      cases o with
      | disk o =>
        obtain ⟨d', hact, rfl⟩ := StateWorld.op_disk hop
        rcases hi.apart.read_target (hi.permits hok) hact rfl with hread | ⟨x, v, -, -, -, hread⟩
        · exact fun hnone => ih (hread.symm.trans hnone)
        · exact fun hnone => nomatch hread.symm.trans hnone
      | uuid => rcases StateWorld.op_uuid hop with ⟨u, -, -, -, rfl⟩ | ⟨-, rfl⟩ <;> exact ih
      | ident =>
        obtain ⟨-, rfl⟩ := StateWorld.op_ident hop
        exact ih
    · exact ih
    · exact ih

/-- What `read_json` comes to in one moment. -/
def ShowsAs (n : ℕ) (target : String) (d : Disk String) : Option (Option Dict) → Prop
  | some x => (d.read target).bind (fun b => (JsonReader.content b).asDoc) = x
  | none => ∃ b, d.read target = some b ∧ n ≤ b.length

/-- `read_json` answers what the file holds at one moment, and `None` when an operation is
    refused; it raises what an operation raises, or for what the file holds at one moment. -/
theorem always_shows (h₀ : Later target (Machine.idle (bootWriters disk₀ ident)) c₀) :
    (FileReader.readJson n target).Always (ReaderStep (C := P) target raises) (fun _ _ => True)
      (fun r c => (∃ c₁, Meanwhile (Later target) c₀ c c₁ ∧ ShowsAs n target c₁.sh.disk r) ∨
        (r = some none ∧ (raises (.fault .permission) ∨ raises .isDirectory)))
      (fun e c => raises e ∨ ∃ c₁ b, Meanwhile (Later target) c₀ c c₁ ∧
        c₁.sh.disk.read target = some b ∧ (JsonReader.content b).asDoc = none) c₀ := by
  refine always_bind.2 (always_catching.2 ((always_readTarget h₀).mono (fun _ _ h => h) ?_ ?_))
  · rintro (_ | raw) c ⟨c₁, hb, hread⟩
    · exact .inl ⟨c₁, hb, hread⟩
    · have hshows : ShowsAs n target c₁.sh.disk (some (JsonReader.content raw).asDoc) := by
        rw [ShowsAs, show c₁.sh.disk.read target = some raw from hread]
        rfl
      dsimp only
      cases hraw : JsonReader.content raw with
      | doc d =>
        rw [hraw] at hshows
        exact .inl ⟨c₁, hb, hshows⟩
      | value v =>
        rw [hraw] at hshows
        exact .inl ⟨c₁, hb, hshows⟩
      | malformed =>
        rw [hraw] at hshows
        exact .inl ⟨c₁, hb, hshows⟩
      | undecodable => exact .inr ⟨c₁, raw, hb, hread, by rw [hraw]; rfl⟩
      | overlong => exact .inr ⟨c₁, raw, hb, hread, by rw [hraw]; rfl⟩
  · rintro e c ⟨hraises, hnone⟩
    have habsent : e = .notFound → ∃ c₁, Meanwhile (Later target) c₀ c c₁ ∧
        ShowsAs n target c₁.sh.disk (some none) := by
      intro he
      obtain ⟨c₁, hb, hread⟩ := hnone he
      exact ⟨c₁, hb, by rw [ShowsAs, hread]; rfl⟩
    cases e with
    | notFound => exact .inl (habsent rfl)
    | isDirectory => exact .inr ⟨rfl, .inr hraises⟩
    | fault f => cases f <;> first | exact .inr ⟨rfl, .inl hraises⟩ | exact .inl hraises
    | _ => exact .inl hraises

/-- **A document that is replaced is never absent or corrupt**: from when it is there,
    `read_json` answers what it is at one moment, unless an operation is refused, and raises
    nothing but what opening and reading raise. -/
theorem reads_document (h₀ : Later target (Machine.idle (bootWriters disk₀ ident)) c₀)
    (hold : ∀ b, disk₀.read target = some b → ∃ d, JsonReader.content b = .doc d)
    (hcalls : ∀ (k : WriteCall P) b, k.encoding = some b → ∃ d, JsonReader.content b = .doc d)
    (hthere : c₀.sh.disk.read target ≠ none) {p : ReadProg (Option (Option Dict))}
    (h : Steps (ReaderStep (C := P) target raises) (FileReader.readJson n target) c₀ c p) :
    (∀ r, p = .ret r →
      (∃ d, r = some (some d) ∧ ∃ c₁ b, Meanwhile (Later target) c₀ c c₁ ∧
        c₁.sh.disk.read target = some b ∧ JsonReader.content b = .doc d) ∨
      (r = none ∧ ∃ c₁ b, Meanwhile (Later target) c₀ c c₁ ∧ c₁.sh.disk.read target = some b ∧
        n ≤ b.length) ∨
      (r = some none ∧ (raises (.fault .permission) ∨ raises .isDirectory))) ∧
    ∀ e, p = .raise e → raises e := by
  have hread := (always_shows h₀).steps h
  -- the file holds a document at every moment
  have hdoc : ∀ c₁, Meanwhile (Later target) c₀ c c₁ → ∃ b d, c₁.sh.disk.read target = some b ∧
      JsonReader.content b = .doc d := by
    intro c₁ hb
    obtain ⟨b, hb'⟩ := Option.ne_none_iff_exists'.1 (there_later h₀ hb.after hthere)
    rcases (all_or_nothing (h₀.trans hb.after)).1 with hsame | ⟨k, -, b', henc, hnew⟩
    · obtain ⟨d, hd⟩ := hold b (hsame ▸ hb')
      exact ⟨b, d, hb', hd⟩
    · cases hb'.symm.trans hnew
      obtain ⟨d, hd⟩ := hcalls k b henc
      exact ⟨b, d, hb', hd⟩
  refine ⟨?_, ?_⟩
  · rintro r rfl
    rcases hread with ⟨c₁, hb, hshows⟩ | hrefused
    · obtain ⟨b, d, hb', hd⟩ := hdoc c₁ hb
      cases r with
      | none => exact .inr (.inl ⟨rfl, c₁, hshows.imp fun b h => ⟨hb, h⟩⟩)
      | some x =>
        rw [ShowsAs, hb', Option.bind_some, hd] at hshows
        exact .inl ⟨d, congrArg some hshows.symm, c₁, b, hb, hb', hd⟩
    · exact .inr (.inr hrefused)
  · rintro e rfl
    rcases hread with hraises | ⟨c₁, b, hb, hb', hnone⟩
    · exact hraises
    · obtain ⟨b', d, hread', hd⟩ := hdoc c₁ hb
      cases hb'.symm.trans hread'
      rw [hd] at hnone
      cases hnone

end

/-! ### A run -/

section

/-- A thread saves an object, with so many operations; a `write` writes one byte. -/
def savedSteps {C : Type} (x : C) (n : ℕ) : List (Act (WriteCall C) (DiskChoice Exc ⊕ String)) :=
  .start 1 (.save x) :: List.replicate n (.op 1 (.inl (.done 1)))

/-- Another one replaces the file. -/
def replacedSteps {C : Type} (x : C) (n : ℕ) : List (Act (WriteCall C) (DiskChoice Exc ⊕ String)) :=
  [.start 0 (.writeJsonAtomic x), .op 0 (.inl (.done 1)),
    .op 0 (.inr "0123456789abcdef0123456789abcdef")] ++
    List.replicate n (.op 0 (.inl (.done 1)))

/-- The first file is still there, under no name. -/
def replacedFile {C : Type} (old new : Bytes) (c : WritersCfg C) : Bool :=
  c.sh.disk.content 0 == old && c.sh.disk.read "state.json" == some new

/-- A file is opened, and replaced before it is read. -/
theorem exists_replaced {C : Type} [JsonWriter C] (x y : C) (m n : ℕ) {old new : Bytes}
    (h : ((writers "state.json").run (fun _ _ => true)
        (Machine.idle (bootWriters emptyDisk threadIdent)) (savedSteps x m)).any
      (fun c₀ => c₀.sh.disk.entry "state.json" == some 0 &&
        ((writers "state.json").run (fun _ _ => true) c₀ (replacedSteps y n)).any
          (replacedFile old new)) = true) :
    ∃ c₀ c : WritersCfg C,
      Later "state.json" (Machine.idle (bootWriters emptyDisk threadIdent)) c₀ ∧
      c₀.sh.disk.entry "state.json" = some 0 ∧ Later "state.json" c₀ c ∧
      c.sh.disk.content 0 = old ∧ c.sh.disk.read "state.json" = some new := by
  obtain ⟨c₀, hc₀, hq, -⟩ :=
    Machine.Reach.exists_of_run (P := fun _ _ => True) (writers "state.json")
    (Machine.idle (bootWriters emptyDisk threadIdent)) (fun _ _ => true) (savedSteps x m) _
    (fun _ _ _ => trivial) h
  obtain ⟨hentry, hreplaced⟩ := Bool.and_eq_true_iff.1 hq
  obtain ⟨c, hc, hq, -⟩ :=
    Machine.Reach.exists_of_run (P := fun _ _ => True) (writers "state.json") c₀ (fun _ _ => true)
    (replacedSteps y n) (replacedFile old new) (fun _ _ _ => trivial) hreplaced
  obtain ⟨hcontent, hread⟩ := Bool.and_eq_true_iff.1 hq
  exact ⟨c₀, c, hc₀, eq_of_beq hentry, hc, eq_of_beq hcontent, eq_of_beq hread⟩

/-- Nothing fails. -/
abbrev NoFailure (_ : Exc) : Prop := False

/-- The file that was opened is read as it was. -/
theorem readerStep_piece {C : Type} [JsonWriter C] {c c' : WritersCfg C} {off k : ℕ}
    {b piece : Bytes} (hcontent : c.sh.disk.content 0 = b)
    (h : Later "state.json" c' c) (hk : 0 < k) (hpiece : (b.drop off).take k = piece) :
    ReaderStep (C := C) "state.json" NoFailure (.read 0 off) c' (.ok piece) c := by
  refine ⟨h, ?_⟩
  rw [← hpiece, ← hcontent]
  exact .piece hk

/-- `json`, where every checkpoint is the empty object. -/
local instance emptyCheckpoints : CheckpointText Unit where
  toJsonWriter := emptyObjects
  null := ()
  parse b := if b = [0x7B, 0x7D] ∨ b = [0x7B, 0x7D, 0x0A] then
    .ok () else .error (.valueError "Expecting value")

theorem loads_whole_replaced : ∃ c₀ c : WritersCfg Unit,
    c.sh.disk.read "state.json" = some [0x7B, 0x7D] ∧ ∃ c₁, Meanwhile (Later "state.json") c₀ c c₁ ∧
    LoadsAs (C := Unit) 4 "state.json" c₁.sh.disk (some ()) := by
  obtain ⟨c₀, c, h₀, hentry, hlater, hcontent, hread⟩ :=
    @exists_replaced _ _ () () 10 8 [0x7B, 0x7D, 0x0A] [0x7B, 0x7D] (by decide +kernel)
  have hparse : ∀ b, (CheckpointText.parse b : Except Exc Unit) ≠ .error .notFound := by
    intro b
    show (if _ then _ else _) ≠ _
    split_ifs <;> simp
  have hstart : Steps (ReaderStep (C := Unit) "state.json" NoFailure)
      (FileReader.load 4 "state.json" : ReadProg (Option Unit)) c₀ c₀
      (FileReader.load 4 "state.json") := .start
  have hopened := hstart.step ⟨.refl, .opened hentry⟩
  have hread₁ := hopened.step (readerStep_piece (k := 1) hcontent hlater Nat.one_pos rfl)
  have hread₂ := hread₁.step (readerStep_piece (k := 5) hcontent .refl (by decide) rfl)
  have hread₃ := hread₂.step (readerStep_piece (k := 1) hcontent .refl Nat.one_pos rfl)
  exact ⟨c₀, c, hread, (loads_whole hparse h₀ hread₃).1 _ rfl⟩

end

end DatasourceKit

/-
  The texts of state files and of checkpoints (`fleet/process.py`, `worker.py`).

  * `Payload`: a JSON object; `StateText`: what `write_json_atomic` and `FileCheckpointStore.save`
    make of it; `documentOf`: what `read_json` makes of the bytes of a file;
  * `documentOf_encoding`: a complete text reads as the object it was made of;
  * `payloads_survive`: so, whatever writers do meanwhile, a file that is there reads as the
    object it held at first, or as that of a call.
-/
import DatasourceKit.AtomicRead
import DatasourceKit.Ledger.Items

namespace DatasourceKit

open Interleave Prog Files

/-! ## Texts -/

section
variable [FloatCodec]

/-- A JSON object. -/
structure Payload where
  items : Dict
  proper : items.Proper

/-- The payload as a file gives it back: its keys are sorted. -/
def Payload.reread (p : Payload) : Dict := p.items.reread

/-- `json.dumps(payload, indent=2, sort_keys=True).encode()`. -/
def dumpsPayload (p : Payload) : Except Exc Bytes :=
  (dumpsMembers summaryStyle p.items.members).map utf8

/-- `read_text` and `json.loads`. -/
def documentOf (raw : Bytes) : Content :=
  match decodeUtf8 raw with
  | none => .undecodable
  | some cs =>
    match readText cs with
    | .ok (.obj l) => .doc (.ofMembers l)
    | .ok v => .value v
    | .error .malformed => .malformed
    | .error .overlong => .overlong

instance : JsonReader := ⟨documentOf⟩

end

/-- What `json.dump` writes before it raises is only known to be some text. -/
class StateText extends FloatCodec where
  dump : Payload → Bytes × Option Exc
  dump_ok : ∀ p : Payload, (dump p).2 = none →
    Json.digitsOkObj p.items.members = true ∧
      (dump p).1 = utf8 ((Json.obj p.items.members).sorted.render ledgerStyle 0)

section
variable [StateText]

instance : JsonWriter Payload := ⟨dumpsPayload, StateText.dump⟩

/-- The object of a call. -/
def WriteCall.payload : WriteCall Payload → Payload
  | writeJsonAtomic p | save p => p

/-- A text with sorted keys, and white space after it, reads as the object. -/
theorem documentOf_render {st : JsonStyle} (hst : st.Plain) {p : Payload}
    (hd : Json.digitsOkObj p.items.members = true) {ws : List Char}
    (hws : ∀ c ∈ ws, JsonText.isWs c = true) :
    documentOf (utf8 ((Json.obj p.items.members).sorted.render st 0 ++ ws)) = .doc p.reread := by
  have hread := readText_append hst (Json.proper_sorted _ p.proper)
    (by rw [Json.digitsOk_sorted]; exact hd) hws
  rw [documentOf, decodeUtf8_utf8]
  simp only [hread]
  rfl

omit [StateText] in
theorem summaryStyle_plain : summaryStyle.Plain :=
  ⟨⟨[], rfl, by simp⟩, ⟨[' '], rfl, List.forall_mem_singleton.2 rfl⟩⟩

/-- **A complete text reads as the object it was made of.** -/
theorem documentOf_encoding {k : WriteCall Payload} {b : Bytes} (h : k.encoding = some b) :
    documentOf b = .doc k.payload.reread := by
  cases k with
  | writeJsonAtomic p =>
    change (dumpsPayload p).toOption = some b at h
    rw [dumpsPayload] at h
    cases hdumps : dumpsMembers summaryStyle p.items.members with
    | error e =>
      rw [hdumps] at h
      cases h
    | ok cs =>
      rw [hdumps] at h
      cases h
      obtain ⟨hdigits, rfl⟩ := dumpsMembers_ok hdumps
      have hdoc := documentOf_render summaryStyle_plain hdigits (List.forall_mem_nil _)
      rwa [List.append_nil] at hdoc
  | save p =>
    have hdump' : JsonWriter.dump p = StateText.dump p := rfl
    rw [WriteCall.encoding, hdump'] at h
    rcases hdump : StateText.dump p with ⟨text, _ | e⟩
    · rw [hdump] at h
      cases h
      obtain ⟨hdigits, htext⟩ := StateText.dump_ok p (by rw [hdump])
      rw [hdump] at htext
      obtain rfl : text = _ := htext
      have hline : ([0x0A] : Bytes) = utf8 ['\n'] := rfl
      rw [hline, ← utf8_append]
      exact documentOf_render ledgerStyle_plain hdigits (List.forall_mem_singleton.2 rfl)
    · rw [hdump] at h
      cases h

/-! ## Beside writers -/

variable {target : String} {disk₀ : Disk String} {ident : ℕ ↪ ℕ × ℕ} {c₀ c : WritersCfg Payload}
  {raises : Exc → Prop} {n : ℕ}

/-- The file holds the complete text of the object, which is that of a call that has begun, or
    the one it held first. -/
def Current (target : String) (disk₀ : Disk String) (c : WritersCfg Payload) (p : Payload) : Prop :=
  ∃ (k : WriteCall Payload) (b : Bytes), k.payload = p ∧ k.encoding = some b ∧
    c.sh.disk.read target = some b ∧ (disk₀.read target = some b ∨ k ∈ c.sh.started)

/-- **State survives**: whatever the threads do, a file that is there always reads as the object
    whose complete text it holds at one moment, unless an operation is refused; and nothing is
    raised but by opening and reading. -/
theorem payloads_survive (h₀ : Later target (Machine.idle (bootWriters disk₀ ident)) c₀)
    (hold : ∀ b, disk₀.read target = some b → ∃ k : WriteCall Payload, k.encoding = some b)
    (hthere : c₀.sh.disk.read target ≠ none) {p : ReadProg (Option (Option Dict))}
    (h : Steps (ReaderStep (C := Payload) target raises) (FileReader.readJson n target) c₀ c p) :
    (∀ r, p = .ret r →
      (∃ d, r = some (some d) ∧ ∃ c₁ q, Meanwhile (Later target) c₀ c c₁ ∧
        Current target disk₀ c₁ q ∧ q.items.pyEq d = true) ∨
      (r = none ∧ ∃ c₁ b, Meanwhile (Later target) c₀ c c₁ ∧ c₁.sh.disk.read target = some b ∧
        n ≤ b.length) ∨
      (r = some none ∧ (raises (.fault .permission) ∨ raises .isDirectory))) ∧
    ∀ e, p = .raise e → raises e := by
  have hcalls : ∀ (k : WriteCall Payload) b, k.encoding = some b →
      ∃ d, JsonReader.content b = .doc d :=
    fun k b hk => ⟨_, documentOf_encoding hk⟩
  obtain ⟨hreturn, hraise⟩ :=
    reads_document h₀ (fun b hb => (hold b hb).elim fun k hk => hcalls k b hk) hcalls hthere h
  refine ⟨?_, hraise⟩
  rintro r rfl
  refine (hreturn _ rfl).imp_left ?_
  rintro ⟨d, rfl, c₁, b, hb, hread, hdoc⟩
  -- what the file holds at that moment is old, or a complete text
  obtain ⟨k, henc, horigin⟩ : ∃ k : WriteCall Payload, k.encoding = some b ∧
      (disk₀.read target = some b ∨ k ∈ c₁.sh.started) := by
    rcases (all_or_nothing (h₀.trans hb.after)).1 with hsame | ⟨k, hk, b', henc, hnew⟩
    · obtain ⟨k, henc⟩ := hold b (hsame ▸ hread)
      exact ⟨k, henc, .inl (hsame ▸ hread)⟩
    · cases hread.symm.trans hnew
      exact ⟨k, henc, .inr hk⟩
  obtain rfl : k.payload.reread = d := Content.doc.inj ((documentOf_encoding henc).symm.trans hdoc)
  exact ⟨_, rfl, c₁, k.payload, hb, ⟨k, b, rfl, henc, hread, horigin⟩,
    Dict.pyEq_reread k.payload.proper⟩

end

/-! ### A run -/

section

/-- `json`, where nothing is written of an object that cannot be. -/
@[reducible]
def wholeTexts : StateText :=
  let _ : FloatCodec := oneFloat
  { dump p :=
      if Json.digitsOkObj p.items.members then
      (utf8 ((Json.obj p.items.members).sorted.render ledgerStyle 0), none)
      else ([], some (.valueError "Exceeds the limit for integer string conversion"))
    dump_ok p h := by
      split_ifs at h ⊢ with hd
      exact ⟨hd, rfl⟩ }

attribute [local instance] wholeTexts

/-- The object of a day. -/
def dayPayload (n : ℕ) : Payload :=
  ⟨.ofMembers [("day", .int n)], List.nodup_singleton _, trivial, trivial⟩

/-- What `save` and `write_json_atomic` write for two days. -/
def savedDay : Bytes := [0x7B, 0x22, 0x64, 0x61, 0x79, 0x22, 0x3A, 0x20, 0x31, 0x7D, 0x0A]
def replacedDay : Bytes :=
  [0x7B, 0x0A, 0x20, 0x20, 0x22, 0x64, 0x61, 0x79, 0x22, 0x3A, 0x20, 0x32, 0x0A, 0x7D]

/-- The file is read in two pieces. -/
theorem steps_readJson {S : Type} {step : (o : ReadOp String) → S → Except Exc o.Val → S → Prop}
    {s₀ s : S} {i n : ℕ} {b₁ b₂ : UInt8} {l₁ l₂ : Bytes} {d : Dict}
    (hopen : step (.openRead "state.json") s₀ (.ok i) s₀)
    (h₁ : step (.read i 0) s₀ (.ok (b₁ :: l₁)) s)
    (h₂ : step (.read i (b₁ :: l₁).length) s (.ok (b₂ :: l₂)) s)
    (h₃ : step (.read i (b₁ :: l₁ ++ b₂ :: l₂).length) s (.ok []) s)
    (hd : JsonReader.content (b₁ :: l₁ ++ b₂ :: l₂) = .doc d) :
    Steps step (FileReader.readJson (n + 3) "state.json") s₀ s (.ret (some (some d))) := by
  have hstart : Steps step (FileReader.readJson (n + 3) "state.json") s₀ s₀ _ := .start
  have hread := (((hstart.step hopen).step h₁).step h₂).step h₃
  have hparse : Steps step (FileReader.readJson (n + 3) "state.json") s₀ s
      ((DatasourceKit.readJson (.ret (.ok (JsonReader.content (b₁ :: l₁ ++ b₂ :: l₂))))).bind
        fun d => .ret (some d)) := hread
  rwa [hd] at hparse

theorem payloads_survive_replaced :
    ∃ c₀ c : WritersCfg Payload, c.sh.disk.read "state.json" = some replacedDay ∧
    ∃ d c₁ q, Meanwhile (Later "state.json") c₀ c c₁ ∧ Current "state.json" emptyDisk c₁ q ∧
    q.items.pyEq d = true ∧ d = (dayPayload 1).reread := by
  obtain ⟨c₀, c, h₀, hentry, hlater, hcontent, hnew⟩ :=
    @exists_replaced _ _ (dayPayload 1) (dayPayload 2) 18 20 savedDay
      replacedDay (by decide +kernel)
  have hthere : c₀.sh.disk.read "state.json" ≠ none := by
    simp [Disk.read, hentry]
  have hempty : ∀ b, emptyDisk.read "state.json" = some b →
      ∃ k : WriteCall Payload, k.encoding = some b := by
    intro b hb
    cases hb
  have hdoc : JsonReader.content savedDay = .doc (dayPayload 1).reread :=
    documentOf_encoding (k := .save (dayPayload 1)) (by decide +kernel)
  have hsteps : Steps (ReaderStep (C := Payload) "state.json" NoFailure)
      (FileReader.readJson 12 "state.json") c₀ c (.ret (some (some (dayPayload 1).reread))) :=
    steps_readJson ⟨.refl, .opened hentry⟩
      (readerStep_piece (k := 4) hcontent hlater (by decide) rfl)
      (readerStep_piece (k := 9) hcontent .refl (by decide) rfl)
      (readerStep_piece (k := 1) hcontent .refl Nat.one_pos rfl) hdoc
  rcases (payloads_survive h₀ hempty hthere hsteps).1 _
    rfl with ⟨d, hd, c₁, q, hmeanwhile, hcurrent, hq⟩ | ⟨hnone, -⟩ | ⟨-, hno⟩
  · exact ⟨c₀, c, hnew, d, c₁, q, hmeanwhile, hcurrent, hq,
      (Option.some.inj (Option.some.inj hd)).symm⟩
  · cases hnone
  · exact (hno.elim id id).elim

end

end DatasourceKit

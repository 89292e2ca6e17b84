/-
  State files and checkpoints: `write_json_atomic` (`fleet/process.py`) and
  `FileCheckpointStore.save` (`worker.py`).

  Threads of several processes write one target, each by a temporary file of its own: its name
  has a new `uuid4` in it, or the process id and the identifier of the thread.

  * `uuidTmp`, `threadTmp`: the temporary names, which differ for different writers;
  * `writeJsonAtomic`, `save`: the source functions; `writers`: any threads that call them, of
    which any may be killed at any step;
  * `all_or_nothing`: the target has its old content or a complete encoding; a call that has not
    renamed its file has not changed the target, and leaves no temporary file when it raises.
-/
import DatasourceKit.Writers

namespace DatasourceKit

open Interleave Prog Files

/-! ## Temporary names -/

/-- `f".{target.name}.{uuid.uuid4().hex}.tmp"`. -/
def uuidTmp (target u : String) : String := "." ++ target ++ "." ++ u ++ ".tmp"

/-- `f".{self.path.name}.{os.getpid()}.{threading.get_ident()}.tmp"`. -/
def threadTmp (target : String) (ident : ℕ × ℕ) : String :=
  "." ++ target ++ "." ++ (toString ident.1 ++ "." ++ toString ident.2) ++ ".tmp"

theorem uuidTmp_inj {target u v : String} (h : uuidTmp target u = uuidTmp target v) : u = v := by
  rw [← String.toList_inj] at h ⊢
  simpa [uuidTmp] using h

theorem uuidTmp_ne (target u : String) : uuidTmp target u ≠ target := by
  intro h
  have hlength := congrArg (fun s => s.toList.length) h
  simp [uuidTmp] at hlength
  omega

theorem threadTmp_ne (target : String) (ident : ℕ × ℕ) : threadTmp target ident ≠ target :=
  uuidTmp_ne target _

theorem notMem_toString (n : ℕ) : '.' ∉ (toString n).toList := by
  intro h
  rw [Nat.toString_eq_repr, Nat.toList_repr] at h
  exact absurd (Nat.isDigit_of_mem_toDigits (by decide) (by decide) h) (by decide)

theorem toString_inj {m n : ℕ} (h : (toString m).toList = (toString n).toList) : m = n := by
  rw [Nat.toString_eq_repr, Nat.toString_eq_repr, Nat.toList_repr, Nat.toList_repr] at h
  rw [← Nat.ofDigitChars_ten_toDigits (n := m), h, Nat.ofDigitChars_ten_toDigits]

/-- Two texts without dots, with a dot between them. -/
theorem append_dot_inj {l m l' m' : List Char} (hl : '.' ∉ l) (hl' : '.' ∉ l')
    (h : l ++ '.' :: m = l' ++ '.' :: m') :
    l = l' ∧ m = m' := by
  induction l generalizing l' with
  | nil =>
    cases l' with
    | nil => exact ⟨rfl, List.tail_eq_of_cons_eq h⟩
    | cons c l' => exact absurd (List.head_eq_of_cons_eq h) (List.ne_of_not_mem_cons hl')
  | cons c l ih =>
    cases l' with
    | nil => exact absurd (List.head_eq_of_cons_eq h).symm (List.ne_of_not_mem_cons hl)
    | cons c' l' =>
      obtain ⟨hl, hm⟩ := ih (List.not_mem_of_not_mem_cons hl) (List.not_mem_of_not_mem_cons hl')
        (List.tail_eq_of_cons_eq h)
      exact ⟨by rw [List.head_eq_of_cons_eq h, hl], hm⟩

theorem threadTmp_inj {target : String} {a b : ℕ × ℕ}
    (h : threadTmp target a = threadTmp target b) : a = b := by
  have hmid := uuidTmp_inj h
  rw [← String.toList_inj] at hmid
  simp only [String.toList_append] at hmid
  have hdot : ".".toList = ['.'] := rfl
  rw [hdot, List.append_assoc, List.append_assoc, List.singleton_append,
    List.singleton_append] at hmid
  obtain ⟨h₁, h₂⟩ := append_dot_inj (notMem_toString _) (notMem_toString _) hmid
  exact Prod.ext (toString_inj h₁) (toString_inj h₂)

theorem uuidTmp_ne_threadTmp {target u : String} (hu : IsUuid u) (ident : ℕ × ℕ) :
    uuidTmp target u ≠ threadTmp target ident := by
  intro h
  have hmid := uuidTmp_inj h
  have hdot : '.' ∈ u.toList := by
    rw [hmid]
    simp
  have hhex := List.all_eq_true.1 hu.2 '.' hdot
  exact absurd hhex (by decide)

/-! ## The writers -/

/-- What `json` makes of payloads. -/
class JsonWriter (P : Type) where
  /-- `json.dumps(payload, indent=2, sort_keys=True).encode()`. -/
  dumps : P → Except Exc Bytes
  /-- What `json.dump(checkpoint, stream, ...)` writes, and what it raises then. -/
  dump : P → Bytes × Option Exc

inductive WriteCall (P : Type) where
  | writeJsonAtomic (payload : P)
  | save (checkpoint : P)

/-- `try: tmp.unlink() except FileNotFoundError: pass`. -/
def dropTemporary (tmp : String) : StateProg Unit :=
  (onDisk (.unlink tmp)).handle fun
    | .notFound => .ret ()
    | e => .raise e

section
variable {P : Type} [JsonWriter P] (target : String)

/-- Rename the file, and sync its directory. -/
def publishFile (tmp : String) : StateProg Unit :=
  (onDisk (.rename tmp target)).bind fun _ => syncFile.bind fun _ => syncFile.ensure syncFile

/-- `write_json_atomic`. -/
def StateFile.writeJsonAtomic (payload : P) : StateProg Unit :=
  syncFile.bind fun _ => (Prog.ofExcept (JsonWriter.dumps payload)).bind fun encoded =>
  (perform StateOp.uuid).bind fun u => (onDisk (.create (uuidTmp target u))).bind fun i =>
  ((syncFile.bind fun _ =>
    ((writeFile i 0 encoded).bind fun _ => syncFile.bind fun _ => syncFile).ensure syncFile).bind
    fun _ => publishFile target (uuidTmp target u)).ensure (dropTemporary (uuidTmp target u))

/-- `json.dump(checkpoint, stream)`, and the newline; the text before an exception is written. -/
def dumpFile (i : ℕ) (checkpoint : P) : StateProg Unit :=
  let text := (JsonWriter.dump checkpoint).1
  (writeFile i 0 text).bind fun _ =>
    match (JsonWriter.dump checkpoint).2 with
    | some e => .raise e
    | none => writeFile i text.length [0x0A]

/-- `FileCheckpointStore.save`. -/
def StateFile.save (checkpoint : P) : StateProg Unit :=
  syncFile.bind fun _ => (perform StateOp.ident).bind fun ident =>
  ((onDisk (.truncate (threadTmp target ident))).bind fun i =>
    (((dumpFile i checkpoint).bind fun _ => syncFile.bind fun _ => syncFile).ensure
      syncFile).bind fun _ =>
    onDisk (.rename (threadTmp target ident) target)).ensure (dropTemporary
    (threadTmp target ident))

namespace WriteCall

def code : WriteCall P → StateProg Unit
  | writeJsonAtomic payload => StateFile.writeJsonAtomic target payload
  | save checkpoint => StateFile.save target checkpoint

/-- The complete encoding of the payload, if there is one. -/
def encoding : WriteCall P → Option Bytes
  | writeJsonAtomic payload => (JsonWriter.dumps payload).toOption
  | save checkpoint =>
    match JsonWriter.dump checkpoint with
    | (text, none) => some (text ++ [0x0A])
    | (_, some _) => none

end WriteCall

/-- Threads that write the target. -/
def writers : Machine StateOp.Val Exc Unit (StateWorld (WriteCall P)) (WriteCall P)
    (DiskChoice Exc ⊕ String) :=
  fileMachine (WriteCall.code target)

/-! ## One call -/

/-- The name is the thread's own. -/
def Writer.Owns (w : Writer (WriteCall P)) (n : String) : Prop :=
  n = threadTmp target w.ident ∨ ∃ u, w.token = some u ∧ n = uuidTmp target u

/-- What a thread only does. -/
def WriterGuard : StateOp → Writer (WriteCall P) → Prop
  | .disk (.create n), w | .disk (.truncate n), w => w.Owns target n
  | .disk (.write i off _), w => ∃ h, w.hold = some h ∧ h.inode = i ∧ h.written.length = off
  | .disk (.rename src dst), w => dst = target ∧
    ∃ h k, w.hold = some h ∧ h.name = src ∧ w.call = some k ∧ k.encoding = some h.written
  | .disk (.unlink n), w => w.Owns target n ∧ (w.made = none ∨ w.made = some n)
  | .uuid, w => w.hold = none ∧ w.made = none
  | .disk (.exists_ _), _ | .disk .sync, _ | .ident, _ => True

/-- A call that ends holds no file. -/
def WriterEnd (_ : WriteCall P) (_ : Except Exc Unit) (w : Writer (WriteCall P)) : Prop :=
  w.hold = none

variable {target} {w : Writer (WriteCall P)} {E : Exc → Writer (WriteCall P) → Prop} {n : String}

theorem writerGuard_file : FileGuard (WriterGuard (P := P) target) :=
  ⟨fun hh hi hoff => ⟨_, hh, hi, hoff⟩, trivial⟩

/-- The thread may remove the name. -/
structure Cleanable (target n : String) (w : Writer (WriteCall P)) : Prop where
  owns : w.Owns target n
  made : w.made = none ∨ w.made = some n

/-- **The `finally`**: whatever has happened, the temporary name goes, and no file is held. -/
theorem always_cleaning {α : Type} {p : StateProg α}
    (h : p.Always WriterStep (WriterGuard target) (fun _ w => Cleanable target n w)
      (fun _ w => Cleanable target n w) w) :
    (p.ensure (dropTemporary n)).Always WriterStep (WriterGuard target) (fun _ w => w.hold = none)
      (fun _ w => w.hold = none) w := by
  have hdrop : ∀ {w : Writer (WriteCall P)}, Cleanable target n w →
      (dropTemporary n).Always WriterStep (WriterGuard target) (fun _ w => w.hold = none)
      (fun _ w => w.hold = none) w := by
    intro w hw
    refine always_handle.2 (always_perform.2 ⟨⟨hw.owns, hw.made⟩, ?_, ?_⟩)
    · rintro v w' ⟨rfl, -⟩
      rfl
    · rintro e w' ⟨rfl, -⟩
      cases e <;> rfl
  exact always_ensure.2 (h.mono (fun _ _ hg => hg) (fun _ _ hw => hdrop hw) fun _ _ hw => hdrop hw)

/-- **`write_json_atomic`** only does what its guards allow, and holds no file at its end. -/
theorem StateFile.always_writeJsonAtomic {payload : P}
    (hcall : w.call = some (.writeJsonAtomic payload)) (hhold : w.hold = none)
    (hmade : w.made = none) :
    (StateFile.writeJsonAtomic target payload).Always WriterStep (WriterGuard target)
    (fun _ w => w.hold = none) (fun _ w => w.hold = none) w := by
  refine always_bind.2 (always_syncFile writerGuard_file (always_bind.2 ?_) fun _ => hhold)
  rcases hdumps : JsonWriter.dumps payload with e | encoded
  · exact hhold
  refine always_bind.2 (always_perform.2 ⟨⟨hhold, hmade⟩, ?_, ?_⟩)
  · rintro u w' (⟨u', hu, hval, rfl⟩ | ⟨⟨e, he⟩, -⟩)
    · cases hval
      have hown : ({ w with token := some u } : Writer (WriteCall P)).Owns target
          (uuidTmp target u) := .inr ⟨u, rfl, rfl⟩
      refine always_bind.2 (always_createFile hown (fun i => always_cleaning (always_bind.2 ?_))
        fun _ => hhold)
      have hclean : ∀ x b, Cleanable target (uuidTmp target u)
          ({ w with token := some u, hold := x, made := some (uuidTmp target u), renamed := b } :
              Writer (WriteCall P)) :=
        fun x b => ⟨.inr ⟨u, rfl, rfl⟩, .inr rfl⟩
      refine always_bind.2 (always_syncFile writerGuard_file
        (always_closingFile writerGuard_file
          (always_bind.2 (always_writeFile writerGuard_file rfl rfl rfl ?_ ?_))) ?_)
      · refine always_bind.2 (always_syncFile writerGuard_file
          (always_syncFile writerGuard_file ⟨?_, fun _ => hclean _ _⟩ fun _ _ => hclean _ _)
          fun _ _ => hclean _ _)
        refine always_bind.2 (always_rename ⟨rfl, _, _, rfl, rfl, hcall, ?_⟩ ?_ fun _ => hclean _ _)
        · rw [WriteCall.encoding, hdumps]
          rfl
        · refine always_bind.2 (always_syncFile writerGuard_file
            (always_closingFile writerGuard_file ?_) fun _ => hclean _ _)
          exact always_syncFile writerGuard_file ⟨hclean _ _, fun _ => hclean _ _⟩
            fun _ _ => hclean _ _
      · exact fun _ x _ => hclean _ _
      · exact fun _ => hclean _ _
    · cases he
  · rintro e w' (⟨u', -, hval, -⟩ | ⟨-, rfl⟩)
    · cases hval
    · exact hhold

/-- **`FileCheckpointStore.save`** likewise. -/
theorem StateFile.always_save {checkpoint : P} (hcall : w.call = some (.save checkpoint))
    (hhold : w.hold = none) (hmade : w.made = none) :
    (StateFile.save target checkpoint).Always WriterStep (WriterGuard target)
    (fun _ w => w.hold = none) (fun _ w => w.hold = none) w := by
  refine always_bind.2 (always_syncFile writerGuard_file
    (always_bind.2 (always_perform.2 ⟨trivial, ?_, ?_⟩)) fun _ => hhold)
  · rintro ident w ⟨hident, rfl⟩
    cases hident
    have hclean : ∀ x m b, m = none ∨ m = some (threadTmp target w.ident) →
        Cleanable target (threadTmp target w.ident)
        ({ w with hold := x, made := m, renamed := b } : Writer (WriteCall P)) :=
        fun x m b hm => ⟨.inl rfl, hm⟩
    refine always_cleaning (always_bind.2
      (always_truncate (.inl rfl) (fun i => always_bind.2 (always_closingFile writerGuard_file ?_))
      fun _ => hclean w.hold w.made w.renamed (.inl hmade)))
    have hopen : ∀ x b, Cleanable target (threadTmp target w.ident)
        ({ w with hold := x, made := some (threadTmp target w.ident), renamed := b } :
            Writer (WriteCall P)) := fun x b =>
      hclean x _ b (.inr rfl)
    refine always_bind.2 (always_bind.2
      (always_writeFile writerGuard_file rfl rfl rfl ?_ fun _ x _ => hopen _ _))
    rcases hdump : JsonWriter.dump checkpoint with ⟨text, _ | e⟩
    · refine always_writeFile writerGuard_file rfl rfl rfl ?_ fun _ x _ => hopen _ _
      refine always_bind.2 (always_syncFile writerGuard_file
        (always_syncFile writerGuard_file ⟨?_, fun _ => hopen _ _⟩ fun _ _ => hopen _ _)
        fun _ _ => hopen _ _)
      refine always_rename ⟨rfl, _, _, rfl, rfl, hcall, ?_⟩ (hopen _ _) fun _ => hopen _ _
      rw [WriteCall.encoding, hdump]
      rfl
    · exact fun _ => hopen _ _
  · rintro e w' ⟨he, -⟩
    cases he

/-! ## All calls -/

omit [JsonWriter P] in
theorem Writer.Owns.ne {n : String} (h : w.Owns target n) : n ≠ target := by
  rcases h with rfl | ⟨u, -, rfl⟩
  · exact threadTmp_ne _ _
  · exact uuidTmp_ne _ _

/-- Where one thread is at: its names are new, and the name it has opened leads to its file, or
    to nothing. -/
structure WriterFit (target : String) (disk : Disk String) (used : List String)
    (started : List (WriteCall P)) (w : Writer (WriteCall P)) : Prop where
  token : ∀ u, w.token = some u → IsUuid u ∧ u ∈ used
  held : ∀ h, w.hold = some h → w.Owns target h.name
  made : ∀ n, w.made = some n → w.Owns target n ∧
    ((∃ h, w.hold = some h ∧ h.name = n) ∨ disk.entry n = none)
  called : ∀ k, w.call = some k → k ∈ started

omit [JsonWriter P] in
theorem WriterFit.mono {disk disk' : Disk String} {used used' : List String}
    {started started' : List (WriteCall P)} (hw : WriterFit target disk used started w)
    (hused : used ⊆ used') (hstarted : started ⊆ started')
    (hentry : ∀ n, w.Owns target n → disk.entry n = none → disk'.entry n = none) :
    WriterFit target disk' used' started' w where
  token u hu := ⟨(hw.token u hu).1, hused (hw.token u hu).2⟩
  held := hw.held
  made n hn := ⟨(hw.made n hn).1, (hw.made n hn).2.imp_right (hentry n (hw.made n hn).1)⟩
  called k hk := hstarted (hw.called k hk)

/-- An operation on a file keeps where its thread is at. -/
theorem WriterFit.after {disk disk' : Disk String} {used : List String}
    {started : List (WriteCall P)} {o : DiskOp String} {r : Except Exc o.Val}
    (hw : WriterFit target disk used started w) (hok : WriterGuard target (.disk o) w)
    (hact : disk.Acts o r disk') :
    WriterFit target disk' used started (w.after o r) where
  token := hw.token
  called := hw.called
  held h hh := by
    show w.Owns target h.name
    rcases Hold.of_after hh with ⟨h₀, hh₀, hname⟩ | rfl | rfl
    · exact hname ▸ hw.held h₀ hh₀
    · exact hok
    · exact hok
  made n hn := by
    show w.Owns target n ∧ _
    cases hact with
    | @error o e he =>
      cases o with
      | unlink m =>
        obtain ⟨hown, hheld⟩ := hw.made n hn
        refine ⟨hown, .inr ?_⟩
        rcases hok.2 with hnone | hsome
        · exact absurd (hnone.symm.trans hn) (by simp)
        · cases hsome.symm.trans hn
          exact he n rfl
      | create | truncate | write | rename | exists_ | sync => exact hw.made n hn
    | create | empty | fresh =>
      cases hn
      exact ⟨hok, .inl ⟨_, rfl, rfl⟩⟩
    | write =>
      obtain ⟨hown, ⟨h, hh, hname⟩ | hnone⟩ := hw.made n hn
      · exact ⟨hown, .inl ⟨_, congrArg (Option.map _) hh, hname⟩⟩
      · exact ⟨hown, .inr hnone⟩
    | @rename src dst i hi =>
      obtain ⟨rfl, h, k, hh, rfl, -⟩ := hok
      have hact : disk.Acts (ε := Exc) (.rename h.name dst) (.ok ())
          (disk.rename h.name dst i hi) := .rename hi
      obtain ⟨hown, ⟨h', hh', rfl⟩ | hnone⟩ := hw.made n hn
      · cases hh.symm.trans hh'
        exact ⟨hown, .inr (hact.rename_entry hown.ne)⟩
      · refine ⟨hown, .inr (hact.entry_none ⟨by simp, by simp, ?_⟩ hnone)⟩
        rintro src heq
        cases heq
        exact hown.ne rfl
    | @unlink m =>
      refine ⟨(hw.made n hn).1, .inr ?_⟩
      rcases hok.2 with hnone | hsome
      · exact absurd (hnone.symm.trans hn) (by simp)
      · cases hsome.symm.trans hn
        exact Disk.remove_entry_self
    | exists_ | sync => exact hw.made n hn

/-- What holds between any steps of the threads. -/
structure WritersInv (target : String) (disk₀ : Disk String) (ident : ℕ ↪ ℕ × ℕ)
    (s : StateWorld (WriteCall P)) : Prop where
  apart : Replacing (· = target) s.disk fun t => (s.writer t).hold
  identified : ∀ t, (s.writer t).ident = ident t
  fit : ∀ t, WriterFit target s.disk s.used s.started (s.writer t)
  tokens : ∀ t t' u, (s.writer t).token = some u → (s.writer t').token = some u → t = t'
  current : s.disk.read target = disk₀.read target ∨
    ∃ k ∈ s.started, ∃ b, k.encoding = some b ∧ s.disk.read target = some b

namespace WritersInv
variable {disk₀ : Disk String} {ident : ℕ ↪ ℕ × ℕ} {s : StateWorld (WriteCall P)} {t t' : ℕ}

/-- Different threads have different names. -/
theorem owns_inj (hi : WritersInv target disk₀ ident s) (h : (s.writer t).Owns target n)
    (h' : (s.writer t').Owns target n) : t = t' := by
  rcases h with hn | ⟨u, hu, hn⟩ <;> rcases h' with hn' | ⟨u', hu', hn'⟩
  · have heq := threadTmp_inj (hn.symm.trans hn')
    rw [hi.identified, hi.identified] at heq
    exact ident.injective heq
  · exact absurd (hn'.symm.trans hn) (uuidTmp_ne_threadTmp ((hi.fit t').token u' hu').1 _)
  · exact absurd (hn.symm.trans hn') (uuidTmp_ne_threadTmp ((hi.fit t).token u hu).1 _)
  · obtain rfl := uuidTmp_inj (hn.symm.trans hn')
    exact hi.tokens t t' u hu hu'

/-- What the guards allow, the others' files permit. -/
theorem permits {o : DiskOp String} (hi : WritersInv target disk₀ ident s)
    (hok : WriterGuard target (.disk o) (s.writer t)) :
    Permits (· = target) (fun t => (s.writer t).hold) t o := by
  have hnew : ∀ {n}, (s.writer t).Owns target n →
      n ≠ target ∧ ∀ t' ≠ t, ∀ h, (s.writer t').hold = some h → h.name ≠ n := by
    intro n hn
    refine ⟨hn.ne, fun t' ht h hh hname => ht ?_⟩
    exact hi.owns_inj (hname ▸ (hi.fit t').held h hh) hn
  cases o with
  | create n => exact hnew hok
  | truncate n => exact hnew hok
  | write i off b => exact hok
  | rename src dst =>
    obtain ⟨rfl, h, k, hh, hname, -⟩ := hok
    exact ⟨h, hh, hname, rfl⟩
  | unlink n => exact hok.1.ne
  | exists_ n => trivial
  | sync => trivial

/-- The thread takes up a call, or leaves one: it holds nothing. -/
theorem reset {x : Option (WriteCall P)} {started : List (WriteCall P)}
    (hi : WritersInv target disk₀ ident s) (hstarted : s.started ⊆ started)
    (hx : ∀ k, x = some k → k ∈ started) :
    WritersInv target disk₀ ident
      (({ s with started := started } : StateWorld (WriteCall P)).setWriter t
        { ident := (s.writer t).ident, call := x }) where
  apart := by
    rw [StateWorld.hold_setWriter]
    exact hi.apart.release t
  identified t' := by
    by_cases ht : t' = t
    · subst ht
      simpa [StateWorld.setWriter] using hi.identified t'
    · simpa [StateWorld.setWriter, Function.update_of_ne ht] using hi.identified t'
  fit t' := by
    by_cases ht : t' = t
    · subst ht
      simp only [StateWorld.setWriter, Function.update_self]
      exact ⟨by simp, by simp, by simp, hx⟩
    · simp only [StateWorld.setWriter, Function.update_of_ne ht]
      exact (hi.fit t').mono (List.Subset.refl _) hstarted fun _ _ h => h
  tokens t₁ t₂ u h₁ h₂ := by
    have hne : ∀ {t'}, ((({ s with started := started } : StateWorld (WriteCall P)).setWriter t
        { ident := (s.writer t).ident, call := x }).writer t').token = some u →
        (s.writer t').token = some u := by
      intro t' h
      by_cases ht : t' = t
      · subst ht
        simp [StateWorld.setWriter] at h
      · simpa [StateWorld.setWriter, Function.update_of_ne ht] using h
    exact hi.tokens t₁ t₂ u (hne h₁) (hne h₂)
  current := hi.current.imp_right fun ⟨k, hk, hb⟩ => ⟨k, hstarted hk, hb⟩

/-- The thread gets a new `uuid`, and has no file yet. -/
theorem newUuid {u : String} (hi : WritersInv target disk₀ ident s) (hu : IsUuid u)
    (hnew : u ∉ s.used) (hhold : (s.writer t).hold = none) (hmade : (s.writer t).made = none) :
    WritersInv target disk₀ ident
      (({ s with used := u :: s.used } : StateWorld (WriteCall P)).setWriter t
        { s.writer t with token := some u }) where
  apart := by
    rw [StateWorld.hold_setWriter]
    show Replacing _ s.disk (Function.update (fun t => (s.writer t).hold) t (s.writer t).hold)
    rw [Function.update_eq_self]
    exact hi.apart
  identified t' := by
    by_cases ht : t' = t
    · subst ht
      simpa [StateWorld.setWriter] using hi.identified t'
    · simpa [StateWorld.setWriter, Function.update_of_ne ht] using hi.identified t'
  fit t' := by
    by_cases ht : t' = t
    · subst ht
      simp only [StateWorld.setWriter, Function.update_self]
      refine ⟨fun v hv => ?_, fun _ h => ?_, fun _ h => ?_, (hi.fit t').called⟩
      · cases hv
        exact ⟨hu, List.mem_cons_self⟩
      · exact absurd (hhold.symm.trans h) (by simp)
      · exact absurd (hmade.symm.trans h) (by simp)
    · simp only [StateWorld.setWriter, Function.update_of_ne ht]
      exact (hi.fit t').mono (List.subset_cons_self _ _) (List.Subset.refl _) fun _ _ h => h
  tokens t₁ t₂ v h₁ h₂ := by
    have hcases : ∀ {t'}, ((({ s with used := u :: s.used } : StateWorld (WriteCall P)).setWriter t
        { s.writer t with token := some u }).writer t').token = some v →
        t' = t ∧ v = u ∨ t' ≠ t ∧ (s.writer t').token = some v ∧ v ≠ u := by
      intro t' h
      by_cases ht : t' = t
      · subst ht
        simp only [StateWorld.setWriter, Function.update_self, Option.some.injEq] at h
        exact .inl ⟨rfl, h.symm⟩
      · simp only [StateWorld.setWriter, Function.update_of_ne ht] at h
        exact .inr ⟨ht, h, fun heq => hnew (heq ▸ ((hi.fit t').token v h).2)⟩
    rcases hcases h₁ with ⟨rfl, rfl⟩ | ⟨-, hv₁, hne₁⟩ <;>
      rcases hcases h₂ with ⟨rfl, hv⟩ | ⟨-, hv₂, hne₂⟩
    · rfl
    · exact absurd rfl hne₂
    · exact absurd hv hne₁
    · exact hi.tokens t₁ t₂ v hv₁ hv₂
  current := hi.current

/-- **An operation on a file**: the target keeps its content, or gets a complete encoding. -/
theorem disk {o : DiskOp String} {r : Except Exc o.Val} {d' : Disk String}
    (hi : WritersInv target disk₀ ident s) (hok : WriterGuard target (.disk o) (s.writer t))
    (hact : s.disk.Acts o r d') :
    WritersInv target disk₀ ident
    (({ s with disk := d' } : StateWorld (WriteCall P)).setWriter t ((s.writer t).after o r)) where
  apart := by
    rw [StateWorld.hold_setWriter]
    exact hi.apart.step (hi.permits hok) hact
  identified t' := by
    by_cases ht : t' = t
    · subst ht
      simpa [StateWorld.setWriter, Writer.after] using hi.identified t'
    · simpa [StateWorld.setWriter, Function.update_of_ne ht] using hi.identified t'
  fit t' := by
    by_cases ht : t' = t
    · subst ht
      simp only [StateWorld.setWriter, Function.update_self]
      exact (hi.fit t').after hok hact
    · simp only [StateWorld.setWriter, Function.update_of_ne ht]
      refine (hi.fit t').mono (List.Subset.refl _) (List.Subset.refl _) fun n hn hnone => ?_
      refine hact.entry_none ⟨?_, ?_, ?_⟩ hnone
      · rintro rfl
        exact ht (hi.owns_inj hn hok)
      · rintro rfl
        exact ht (hi.owns_inj hn hok)
      · rintro src rfl
        exact hn.ne hok.1
  tokens t₁ t₂ u h₁ h₂ := by
    have hsame : ∀ {t'}, ((({ s with disk := d' } : StateWorld (WriteCall P)).setWriter t
        ((s.writer t).after o r)).writer t').token = (s.writer t').token := by
      intro t'
      by_cases ht : t' = t
      · subst ht
        simp [StateWorld.setWriter, Writer.after]
      · simp [StateWorld.setWriter, Function.update_of_ne ht]
    exact hi.tokens t₁ t₂ u (hsame ▸ h₁) (hsame ▸ h₂)
  current := by
    rcases hi.apart.read_target (hi.permits hok) hact rfl with hread | ⟨h, v, rfl, hh, -, hread⟩
    · show d'.read target = _ ∨ ∃ k ∈ s.started, ∃ b, k.encoding = some b ∧ d'.read target = some b
      rw [hread]
      exact hi.current
    · obtain ⟨-, h', k, hh', -, hk, hwhole⟩ := hok
      cases hh.symm.trans hh'
      exact .inr ⟨k, (hi.fit t).called k hk, h.written, hwhole, hread⟩

end WritersInv

theorem writersInv_boot {disk₀ : Disk String} {ident : ℕ ↪ ℕ × ℕ} :
    WritersInv target disk₀ ident (bootWriters (K := WriteCall P) disk₀ ident) where
  apart := ⟨by simp [bootWriters], by simp [bootWriters]⟩
  identified _ := rfl
  fit _ := by
    refine ⟨?_, ?_, ?_, ?_⟩ <;> simp [bootWriters]
  tokens _ _ _ h := nomatch h
  current := .inl rfl

/-- Every interleaving keeps the invariant, and every thread its guards. -/
theorem writers_rely (disk₀ : Disk String) (ident : ℕ ↪ ℕ × ℕ) :
    Machine.Rely (writers (P := P) target) (fun _ _ => True) (WritersInv target disk₀ ident)
    (fun t s => s.writer t) WriterStep (WriterGuard target) WriterEnd where
  start c t k s _ hi _ hs := by
    cases hs
    refine ⟨hi.reset (List.subset_cons_self _ _) fun k' hk' => ?_, ?_, fun j hj =>
      StateWorld.setWriter_ne hj⟩
    · cases hk'
      exact List.mem_cons_self
    · rw [StateWorld.setWriter_self]
      cases k with
      | writeJsonAtomic payload => exact StateFile.always_writeJsonAtomic rfl rfl rfl
      | save checkpoint => exact StateFile.always_save rfl rfl rfl
  op c t ch k o f r s _ hi _ hok hop := by
    cases o with
    | disk o =>
      obtain ⟨d', hact, rfl⟩ := StateWorld.op_disk hop
      exact ⟨hi.disk hok hact, ⟨StateWorld.setWriter_self, hact.answers⟩, fun j hj =>
        StateWorld.setWriter_ne hj⟩
    | uuid =>
      rcases StateWorld.op_uuid hop with ⟨u, hu, hnew, rfl, rfl⟩ | ⟨he, rfl⟩
      · exact ⟨hi.newUuid hu hnew hok.1 hok.2, .inl ⟨u, hu, rfl, StateWorld.setWriter_self⟩,
          fun j hj => StateWorld.setWriter_ne hj⟩
      · exact ⟨hi, .inr ⟨he, rfl⟩, fun _ _ => rfl⟩
    | ident =>
      obtain ⟨hr, rfl⟩ := StateWorld.op_ident hop
      exact ⟨hi, ⟨hr, rfl⟩, fun _ _ => rfl⟩
  finish c t k r _ hi _ _ :=
    ⟨hi.reset (List.Subset.refl _) (by simp), fun j hj => StateWorld.setWriter_ne hj⟩
  die c t _ hi := ⟨hi.reset (List.Subset.refl _) (by simp), fun j hj => StateWorld.setWriter_ne hj⟩

/-- **Files are replaced whole**: in every configuration the target has its old content, or the
    complete encoding of the payload of a call; a step of a call that has not renamed its file
    leaves the target as it is; and what a call has opened is gone when it raises. -/
theorem all_or_nothing {disk₀ : Disk String} {ident : ℕ ↪ ℕ × ℕ}
    {c : Cfg StateOp.Val Exc Unit (StateWorld (WriteCall P)) (WriteCall P)}
    (h : (writers (P := P) target).Reach (fun _ _ => True)
      (Machine.idle (bootWriters disk₀ ident)) c) :
    (c.sh.disk.read target = disk₀.read target ∨
      ∃ k ∈ c.sh.started, ∃ b, k.encoding = some b ∧ c.sh.disk.read target = some b) ∧
    (∀ a c', (writers target).step c a = some c' → (c'.sh.writer a.thread).renamed = false →
      c'.sh.disk.read target = c.sh.disk.read target) ∧
    ∀ t k e, c.run t = some (k, .raise e) → ∀ n, (c.sh.writer t).made = some n →
    c.sh.disk.entry n = none := by
  obtain ⟨hi, hfits⟩ := (writers_rely disk₀ ident).inv writersInv_boot h
  refine ⟨hi.current, fun a c' hstep hrenamed => ?_, fun t k e hrun n hn => ?_⟩
  · rcases Machine.step_cases hstep with ⟨t, k, s, rfl, -, hs, rfl⟩ |
      ⟨t, ch, k, o, f, r, s, rfl, hrun, hop, rfl⟩ | ⟨t, k, r, rfl, -, rfl⟩ | ⟨t, rfl, rfl⟩
    · cases hs
      rfl
    · have hok := (hfits t k _ hrun).1
      cases o with
      | disk o =>
        obtain ⟨d', hact, rfl⟩ := StateWorld.op_disk hop
        rcases hi.apart.read_target (hi.permits hok) hact rfl with hread | ⟨x, v, rfl, -, rfl, -⟩
        · exact hread
        · simp [StateWorld.setWriter, Writer.after, Act.thread] at hrenamed
      | uuid => rcases StateWorld.op_uuid hop with ⟨u, -, -, -, rfl⟩ | ⟨-, rfl⟩ <;> rfl
      | ident =>
        obtain ⟨-, rfl⟩ := StateWorld.op_ident hop
        rfl
    · rfl
    · rfl
  · rcases ((hi.fit t).made n hn).2 with ⟨x, hx, -⟩ | hnone
    · have hend : (c.sh.writer t).hold = none := hfits t k _ hrun
      exact absurd (hend.symm.trans hx) (by simp)
    · exact hnone

end

/-! ### A run -/

/-- `json`, where the payload is the empty object. -/
@[reducible]
def emptyObjects : JsonWriter Unit := ⟨fun _ => .ok [0x7B, 0x7D], fun _ => ([0x7B, 0x7D], none)⟩

/-- One thread opens its file, and fails to write it; another one replaces the target meanwhile. -/
def stateSteps : List (Act (WriteCall Unit) (DiskChoice Exc ⊕ String)) :=
  let op t := Act.op t (.inl (.done 1))
  [.start 0 (.writeJsonAtomic ()), op 0, .op 0 (.inr "0123456789abcdef0123456789abcdef"), op 0,
    .start 1 (.save ()), op 1, op 1, op 1, op 1, op 1, op 1, op 0,
    .op 0 (.inl (.fail (.fault .ioError))), op 1, op 1, op 1, op 1, op 0, op 0]

/-- The target has the checkpoint, and the first call raises. -/
def stateReplaced (c : Cfg StateOp.Val Exc Unit (StateWorld (WriteCall Unit)) (WriteCall Unit)) :
    Bool :=
  c.sh.disk.read "state.json" == some [0x7B, 0x7D, 0x0A] && match c.run 0 with
    | some (_, .raise _) => (c.sh.writer 0).made.isSome
    | _ => false

theorem all_or_nothing_save :
    ∃ c : Cfg StateOp.Val Exc Unit (StateWorld (WriteCall Unit)) (WriteCall Unit),
    stateReplaced c = true ∧ ∀ t k e, c.run t = some (k, .raise e) →
    ∀ n, (c.sh.writer t).made = some n → c.sh.disk.entry n = none := by
  obtain ⟨c, hc, hq, -⟩ :=
    Machine.Reach.exists_of_run (P := fun _ _ => True) (@writers Unit emptyObjects "state.json")
    (Machine.idle (bootWriters emptyDisk threadIdent)) (fun _ _ => true) stateSteps stateReplaced
    (fun _ _ _ => trivial) (by decide +kernel)
  exact ⟨c, hq, (@all_or_nothing Unit emptyObjects _ _ _ _ hc).2.2⟩

end DatasourceKit

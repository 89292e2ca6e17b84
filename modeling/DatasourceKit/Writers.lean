/-
  Threads that write files under temporary names, and rename them.

  * `StateOp`: the operations of files, a new `uuid4`, and the identifiers of the process and the
    thread; `StateProg`: programs over them;
  * `Writer`, `StateWorld`: what a thread is at, and the state of all;
    `fileMachine`: threads that make any calls, of which any may be killed at any step;
  * `WriterStep`: what an operation does to where its thread is at, and the rules of the
    operations for a `FileGuard`.
-/
import DatasourceKit.Interleave.Pool
import DatasourceKit.Files.Replace
import DatasourceKit.Clearance.Record

namespace DatasourceKit

open Interleave Prog Files

/-! ## Operations -/

/-- The operations of files, a new `uuid4`, and the identifiers of the process and the thread. -/
inductive StateOp where
  | disk (o : DiskOp String)
  | uuid
  | ident

def StateOp.Val : StateOp → Type
  | disk o => o.Val
  | uuid => String
  | ident => ℕ × ℕ

abbrev StateProg (α : Type) := Prog StateOp.Val Exc α

def onDisk (o : DiskOp String) : StateProg o.Val := perform (StateOp.disk o)

/-- What changes no file: making a directory, wrapping, flushing, syncing or closing a
    descriptor. -/
def syncFile : StateProg Unit := onDisk .sync

def writeFile (i : ℕ) (off : ℕ) (b : Bytes) : StateProg Unit :=
  writeLoop (fun off b => onDisk (.write i off b)) b.length off b

/-- `uuid.uuid4().hex`. -/
def IsUuid (u : String) : Prop := u.length = 32 ∧ isHex u.toList = true

instance (u : String) : Decidable (IsUuid u) := inferInstanceAs (Decidable (_ ∧ _))

/-! ## Threads -/

section
variable {K : Type}

/-- What a thread is at: its call, its `uuid`, the file it holds, the last one it has opened, and
    whether it has renamed it. -/
structure Writer (K : Type) where
  ident : ℕ × ℕ
  call : Option K := none
  token : Option String := none
  hold : Option (Hold String) := none
  made : Option String := none
  renamed : Bool := false

/-- The files, the `uuid`s used so far, the calls so far, and the threads. -/
structure StateWorld (K : Type) where
  disk : Disk String
  used : List String
  started : List K
  writer : ℕ → Writer K

/-- What the thread is at after an operation on a file. -/
def Writer.after (w : Writer K) (o : DiskOp String) (r : Except Exc o.Val) : Writer K where
  ident := w.ident
  call := w.call
  token := w.token
  hold := Hold.after w.hold o r
  made := match o, r with
    | .create n, .ok _ | .truncate n, .ok _ => some n
    | _, _ => w.made
  renamed := match o, r with
    | .rename .., .ok _ => true
    | _, _ => w.renamed

namespace StateWorld
variable (s : StateWorld K)

def setWriter (t : ℕ) (w : Writer K) : StateWorld K :=
  { s with writer := Function.update s.writer t w }

/-- An operation of the thread `t`. -/
def op (t : ℕ) : DiskChoice Exc ⊕ String → (o : StateOp) → StateWorld K →
    Option (Except Exc o.Val × StateWorld K)
  | .inl ch, .disk o, s => (s.disk.act ⟨.fileExists, .notFound⟩ o ch).map fun r =>
      (r.1, { s with disk := r.2 }.setWriter t ((s.writer t).after o r.1))
  | .inl (.fail e), .uuid, s => some (.error e, s)
  | .inr u, .uuid, s =>
    if IsUuid u ∧ u ∉ s.used then
      some (.ok u, { s with used := u :: s.used }.setWriter t { s.writer t with token := some u })
    else none
  | .inl _, .ident, s => some (.ok (s.writer t).ident, s)
  | _, _, _ => none

/-- The thread `t` has ended its call, or been killed. -/
def rest (t : ℕ) : StateWorld K := s.setWriter t { ident := (s.writer t).ident }

end StateWorld

/-- Threads that make calls. -/
def fileMachine {α : Type} (code : K → StateProg α) :
    Machine StateOp.Val Exc α (StateWorld K) K (DiskChoice Exc ⊕ String) where
  code := code
  op := StateWorld.op
  start t k s := some ({ s with started := k :: s.started }.setWriter t
    { ident := (s.writer t).ident, call := some k })
  finish t _ _ s := s.rest t
  die t s := s.rest t

/-- The files before any call; the live threads of the host have different identifiers. -/
def bootWriters (disk : Disk String) (ident : ℕ ↪ ℕ × ℕ) :
    StateWorld K := ⟨disk, [], [], fun t => { ident := ident t }⟩

/-! ## What the operations do -/

namespace StateWorld
variable {s s' : StateWorld K} {t : ℕ} {ch : DiskChoice Exc ⊕ String}

theorem op_disk {o : DiskOp String} {r : Except Exc o.Val}
    (h : op t ch (.disk o) s = some (r, s')) :
    ∃ d', s.disk.Acts o r d' ∧
    s' = ({ s with disk := d' } : StateWorld K).setWriter t ((s.writer t).after o r) := by
  cases ch with
  | inl ch =>
    obtain ⟨⟨r', d'⟩, hact, heq⟩ := Option.map_eq_some_iff.1 h
    cases heq
    exact ⟨d', Disk.acts_of_act hact, rfl⟩
  | inr u => cases h

theorem op_uuid {r : Except Exc String} (h : op t ch .uuid s = some (r, s')) :
    (∃ u, IsUuid u ∧ u ∉ s.used ∧ r = .ok u ∧
      s' = ({ s with used := u :: s.used } : StateWorld K).setWriter t
      { s.writer t with token := some u }) ∨
    ((∃ e, r = .error e) ∧ s' = s) := by
  rcases ch with (k | e) | u
  · cases h
  · cases h
    exact .inr ⟨⟨e, rfl⟩, rfl⟩
  · obtain ⟨⟨hu, hnew⟩, heq⟩ := Option.ite_none_right_eq_some.1 h
    cases heq
    exact .inl ⟨u, hu, hnew, rfl, rfl⟩

theorem op_ident {r : Except Exc (ℕ × ℕ)} (h : op t ch .ident s = some (r, s')) :
    r = .ok (s.writer t).ident ∧ s' = s := by
  rcases ch with ch | u
  · cases h
    exact ⟨rfl, rfl⟩
  · cases h

@[simp] theorem setWriter_self {w : Writer K} :
    (s.setWriter t w).writer t = w := Function.update_self ..

theorem setWriter_ne {t' : ℕ} {w : Writer K} (h : t' ≠ t) :
    (s.setWriter t w).writer t' = s.writer t' :=
  Function.update_of_ne h ..

/-- An operation changes nothing of where the other threads are at. -/
theorem op_others {o : StateOp} {r : Except Exc o.Val} (h : op t ch o s = some (r, s'))
    {t' : ℕ} (ht : t' ≠ t) :
    s'.writer t' = s.writer t' := by
  cases o with
  | disk o =>
    obtain ⟨d', -, rfl⟩ := op_disk h
    exact setWriter_ne ht
  | uuid =>
    rcases op_uuid h with ⟨u, -, -, -, rfl⟩ | ⟨-, rfl⟩
    · exact setWriter_ne ht
    · rfl
  | ident =>
    obtain ⟨-, rfl⟩ := op_ident h
    rfl

/-- What the threads hold, when one of them goes on. -/
theorem hold_setWriter {w : Writer K} :
    (fun t' => ((s.setWriter t w).writer t').hold) =
    Function.update (fun t => (s.writer t).hold) t w.hold := by
  funext t'
  by_cases ht : t' = t
  · subst ht
    simp
  · rw [setWriter_ne ht, Function.update_of_ne ht]

end StateWorld

/-! ## One call -/

/-- What an operation does to where the thread is at. -/
def WriterStep : (o : StateOp) → Writer K → Except Exc o.Val → Writer K → Prop
  | .disk o, w, r, w' => w' = w.after o r ∧ o.Answers r
  | .uuid, w, r, w' => (∃ u, IsUuid u ∧ r = .ok u ∧ w' = { w with token := some u }) ∨
    ((∃ e, r = .error e) ∧ w' = w)
  | .ident, w, r, w' => r = .ok w.ident ∧ w' = w

/-- A thread may write what comes after what it has written, and do what changes no file. -/
structure FileGuard (G : StateOp → Writer K → Prop) : Prop where
  write : ∀ {i off b w h}, w.hold = some h → h.inode = i → h.written.length = off →
    G (.disk (.write i off b)) w
  sync : ∀ {w}, G (.disk .sync) w

section
variable {G : StateOp → Writer K → Prop} (hG : FileGuard G) {w : Writer K}
  {E : Exc → Writer K → Prop}
include hG

theorem always_syncFile {Q : Unit → Writer K → Prop} (hok : Q () w) (herr : ∀ e, E e w) :
    syncFile.Always WriterStep G Q E w := by
  refine always_perform.2 ⟨hG.sync, ?_, ?_⟩
  · rintro v w' ⟨rfl, -⟩
    exact hok
  · rintro e w' ⟨rfl, -⟩
    exact herr e

/-- What is written comes after what has been written. -/
theorem always_writeFile {h : Hold String} {i off : ℕ} {b : Bytes} {Q : Unit → Writer K → Prop}
    (hh : w.hold = some h) (hi : h.inode = i) (hoff : h.written.length = off)
    (hok : Q () { w with hold := some { h with written := h.written ++ b } })
    (herr : ∀ e x, E e { w with hold := some { h with written := x } }) :
    (writeFile i off b).Always WriterStep G Q E w := by
  have hloop : (writeFile i off b).Always WriterStep G _ E w := always_writeLoop
    (I := fun off rest w' => ∃ done,
      w' = { w with hold := some { h with written := h.written ++ done } } ∧ done ++ rest = b ∧
      h.written.length + done.length = off) ?_ le_rfl ?_
  · refine hloop.mono (fun _ _ hg => hg) ?_ fun _ _ he => he
    rintro v w' ⟨done, rfl, hdone, -⟩
    rw [List.append_nil] at hdone
    rw [hdone]
    exact hok
  · rintro off rest w' hrest ⟨done, rfl, hdone, hlen⟩
    refine always_perform.2 ⟨hG.write rfl hi (by simpa using hlen), ?_, ?_⟩
    · rintro (k : ℕ) w' ⟨rfl, hk, hpos⟩
      refine ⟨Nat.pos_of_ne_zero fun hzero =>
        hrest (hpos hzero), hk, done ++ rest.take k, ?_, ?_, ?_⟩
      · simp [Writer.after, Hold.after]
      · rw [List.append_assoc, List.take_append_drop, hdone]
      · rw [List.length_append, List.length_take, Nat.min_eq_left hk]
        omega
    · rintro e w' ⟨rfl, -⟩
      exact herr e _
  · refine ⟨[], ?_, rfl, by simpa using hoff⟩
    rw [List.append_nil, ← hh]

/-- A `with` block: the stream is closed, and what holds of all the states inside holds. -/
theorem always_closingFile {p : StateProg Unit} {Q : Unit → Writer K → Prop}
    (h : p.Always WriterStep G (fun _ w => Q () w ∧ ∀ e, E e w) (fun _ w => ∀ e, E e w) w) :
    (p.ensure syncFile).Always WriterStep G Q E w :=
  always_ensure.2 (h.mono (fun _ _ hg => hg)
      (fun _ _ hq => always_syncFile hG hq.1 hq.2) fun e _ he =>
    always_syncFile hG (he e) he)

omit hG

/-- A file that is renamed is held no more. -/
theorem always_rename {n target : String} {Q : Unit → Writer K → Prop}
    (hg : G (.disk (.rename n target)) w) (hok : Q () { w with hold := none, renamed := true })
    (herr : ∀ e, E e w) :
    (onDisk (.rename n target)).Always WriterStep G Q E w := by
  refine always_perform.2 ⟨hg, ?_, ?_⟩
  · rintro v w' ⟨rfl, -⟩
    exact hok
  · rintro e w' ⟨rfl, -⟩
    exact herr e

/-- A file that is opened is held. -/
theorem always_createFile {n : String} {Q : ℕ → Writer K → Prop} (hg : G (.disk (.create n)) w)
    (hok : ∀ i, Q i { w with hold := some ⟨n, i, []⟩, made := some n }) (herr : ∀ e, E e w) :
    (onDisk (.create n)).Always WriterStep G Q E w := by
  refine always_perform.2 ⟨hg, ?_, ?_⟩
  · rintro i w' ⟨rfl, -⟩
    exact hok i
  · rintro e w' ⟨rfl, -⟩
    exact herr e

theorem always_truncate {n : String} {Q : ℕ → Writer K → Prop} (hg : G (.disk (.truncate n)) w)
    (hok : ∀ i, Q i { w with hold := some ⟨n, i, []⟩, made := some n }) (herr : ∀ e, E e w) :
    (onDisk (.truncate n)).Always WriterStep G Q E w := by
  refine always_perform.2 ⟨hg, ?_, ?_⟩
  · rintro i w' ⟨rfl, -⟩
    exact hok i
  · rintro e w' ⟨rfl, -⟩
    exact herr e

end

end

/-! ### Initial states -/

/-- The threads of one process. -/
def threadIdent : ℕ ↪ ℕ × ℕ := ⟨fun t => (0, t), fun _ _ h => congrArg Prod.snd h⟩

def emptyDisk : Disk String :=
  ⟨fun _ => none, fun _ => [], 0, fun h => by simp at h, fun h => by simp at h⟩

end DatasourceKit

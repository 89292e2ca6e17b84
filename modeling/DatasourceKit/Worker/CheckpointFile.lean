/-
  `FileCheckpointStore` (`worker.py`): one checkpoint in a file.

  * `CheckpointText`: what `json` makes of checkpoints; `Reads`: a file reads as a checkpoint;
  * `load`, `save`: the source functions, over the operations of files; `save` is that of
    `StateFile`;
  * `CheckpointStep`: the operations of one process on the files.  A run may be killed
    between any two of them;
  * `always_load`: what a load answers, the file reads as;
  * `always_saved`: all along a save the file has its old content or the new one, and the
    new one at last exactly if the save has not raised.
-/
import DatasourceKit.Interleave.Commit
import DatasourceKit.AtomicWrite

namespace DatasourceKit

open Interleave Prog Files

/-! ## Operations -/

/-- The operations of `StateFile`, and those of reading a file. -/
inductive CheckpointOp where
  | state (o : StateOp)
  | openRead (n : String)
  | read (i : ℕ)

abbrev CheckpointOp.Val : CheckpointOp → Type
  | state o => o.Val
  | openRead _ => ℕ
  | read _ => Bytes

abbrev CheckpointProg (α : Type) := Prog CheckpointOp.Val Exc α

/-- What an operation of a process with the identifiers does.  Only what is not there
    raises `FileNotFoundError` when it is opened, and what is open never does. -/
def CheckpointStep (ident : ℕ × ℕ) :
    (o : CheckpointOp) → Disk String → Except Exc o.Val → Disk String → Prop
  | .state (.disk o), d, r, d' => ∃ ch, d.act ⟨.fileExists, .notFound⟩ o ch = some (r, d')
  | .state .uuid, d, r, d' => (∀ u, r = .ok u → IsUuid u) ∧ d' = d
  | .state .ident, d, r, d' => r = .ok ident ∧ d' = d
  | .openRead n, d, r, d' => d' = d ∧
      ((∃ i, d.entry n = some i ∧ r = .ok i) ∨ ∃ e, r = .error e ∧
        (e = .notFound → d.entry n = none))
  | .read i, d, r, d' => d' = d ∧ (r = .ok (d.content i) ∨ ∃ e, r = .error e ∧ e ≠ .notFound)

/-! ## The store -/

/-- What `json` makes of checkpoints. -/
class CheckpointText (C : Type) extends JsonWriter C where
  /-- `None`. -/
  null : C
  /-- `json.load(stream)`, for what is in the file. -/
  parse : Bytes → Except Exc C

section
variable {C : Type} [CheckpointText C] (path : String)

/-- The file reads as the checkpoint; `None` if it is not there. -/
def Reads (d : Disk String) (c : C) : Prop :=
  match d.read path with
  | none => c = CheckpointText.null
  | some b => CheckpointText.parse b = .ok c

/-- `json.load` gets back what `json.dump` has written. -/
def Parses (c : C) : Prop := ∃ b, (WriteCall.save c).encoding = some b ∧
    CheckpointText.parse b = .ok c

namespace FileCheckpointStore

def load : CheckpointProg C :=
  ((perform (CheckpointOp.openRead path)).bind fun i =>
      (perform (CheckpointOp.read i)).bind fun raw =>
    Prog.ofExcept (CheckpointText.parse raw)).handle fun
    | .notFound => .ret CheckpointText.null
    | e => .raise e

def save (checkpoint : C) : CheckpointProg Unit :=
  (StateFile.save path checkpoint).lower fun o => perform (CheckpointOp.state o)

end FileCheckpointStore

/-! ## Loading -/

variable {path} {ident : ℕ × ℕ} {d : Disk String} {c : C}

/-- **What a load answers, the file reads as**, and no file changes. -/
theorem always_load (hparse : ∀ b, (CheckpointText.parse b : Except Exc C) ≠ .error .notFound) :
    (FileCheckpointStore.load path : CheckpointProg C).Always (CheckpointStep ident)
    (fun _ d' => d' = d) (fun c d' => d' = d ∧ Reads path d c) (fun _ d' => d' = d) d := by
  refine always_handle.2 (always_bind.2 (always_perform.2 ⟨rfl, ?_, ?_⟩))
  · rintro i d' ⟨rfl, ⟨j, hj, heq⟩ | ⟨e, heq, -⟩⟩
    · cases heq
      have hread : d'.read path = some (d'.content i) := by rw [Disk.read, hj, Option.map_some]
      refine always_bind.2 (always_perform.2 ⟨rfl, ?_, ?_⟩)
      · rintro raw d'' ⟨rfl, heq | ⟨e, heq, -⟩⟩
        · cases heq
          cases hraw : (CheckpointText.parse (d''.content i) : Except Exc C) with
          | ok c =>
            refine ⟨rfl, ?_⟩
            rw [Reads, hread]
            exact hraw
          | error e => cases e <;> first | rfl | exact absurd hraw (hparse _)
        · cases heq
      · rintro e d'' ⟨rfl, heq | ⟨e', heq, he⟩⟩
        · cases heq
        · cases heq
          cases e <;> first | rfl | exact absurd rfl he
    · cases heq
  · rintro e d' ⟨rfl, ⟨j, -, heq⟩ | ⟨e', heq, he⟩⟩
    · cases heq
    · cases heq
      cases e <;> try exact rfl
      refine ⟨rfl, ?_⟩
      rw [Reads, Disk.read, he rfl]
      rfl

/-! ## Saving -/

/-- What a save may be answered: only a name that is not there cannot be removed. -/
def SaveStep (o : StateOp) (w : Writer (WriteCall C)) (r : Except Exc o.Val)
    (w' : Writer (WriteCall C)) : Prop :=
  WriterStep o w r w' ∧
    match o, r with
    | .disk (.unlink _), .error e => e = .notFound
    | _, _ => True

theorem always_onDisk {S : Type} {step : (o : StateOp) → S → Except Exc o.Val → S → Prop}
    {G : StateOp → S → Prop} {o : DiskOp String} {Q : o.Val → S → Prop} {E : Exc → S → Prop}
    {s : S} (hg : G (.disk o) s) (hok : ∀ v s', step (.disk o) s (.ok v) s' → Q v s')
    (herr : ∀ e s', step (.disk o) s (.error e) s' → E e s') :
    (onDisk o).Always step G Q E s := always_perform.2 ⟨hg, hok, herr⟩

/-- The operation renames no file. -/
def StateOp.Keeps (o : StateOp) : Prop := ∀ src dst, o ≠ .disk (.rename src dst)

omit [CheckpointText C] in
/-- What renames no file leaves nothing renamed. -/
theorem always_unrenamed {α : Type} {p : StateProg α} {w : Writer (WriteCall C)}
    (hp : p.Uses StateOp.Keeps) (hw : w.renamed = false) :
    p.Always SaveStep (fun _ _ => True) (fun _ w => w.renamed = false)
    (fun _ w => w.renamed = false) w := by
  refine Always.of_uses (J := fun w : Writer (WriteCall C) => w.renamed = false) hp
    (fun o (w : Writer (WriteCall C)) ho hw => ⟨trivial, ?_⟩) hw
  rintro r w' ⟨hstep, -⟩
  cases o with
  | disk o =>
    obtain ⟨rfl, -⟩ := hstep
    cases o with
    | rename src dst => exact absurd rfl (ho src dst)
    | _ => exact hw
  | uuid =>
    rcases hstep with ⟨u, -, -, rfl⟩ | ⟨-, rfl⟩
    · exact hw
    · exact hw
  | ident =>
    obtain ⟨-, rfl⟩ := hstep
    exact hw

omit [CheckpointText C] in
/-- A removal of the temporary file raises nothing, and renames nothing. -/
theorem always_dropped {n : String} {b : Bool} {w : Writer (WriteCall C)}
    {E : Exc → Writer (WriteCall C) → Prop} (hw : w.renamed = b) :
    (dropTemporary n).Always SaveStep (fun _ _ => True) (fun _ w => w.renamed = b) E w := by
  refine always_handle.2 (always_onDisk (o := .unlink n) trivial ?_ ?_)
  · rintro v w' ⟨⟨rfl, -⟩, -⟩
    exact hw
  · rintro e w' ⟨⟨rfl, -⟩, rfl⟩
    exact hw

theorem uses_syncFile : syncFile.Uses StateOp.Keeps := uses_perform fun _ _ h => by cases h

theorem uses_writeFile (i off : ℕ) (b : Bytes) : (writeFile i off b).Uses StateOp.Keeps :=
  uses_writeLoop (fun _ _ => uses_perform fun _ _ h => by cases h) _ off b

/-- **A save has renamed its file exactly if it does not raise.** -/
theorem always_renamed {w : Writer (WriteCall C)} (hw : w.renamed = false) :
    (StateFile.save path c).Always SaveStep (fun _ _ => True) (fun _ w => w.renamed = true)
      (fun _ w => w.renamed = false) w := by
  have hdump : ∀ i, (dumpFile i c).Uses StateOp.Keeps := by
    refine fun i => (uses_writeFile i 0 _).bind fun _ => ?_
    split
    · trivial
    · exact uses_writeFile _ _ _
  have hbody : ∀ i, (((dumpFile i c).bind fun _ => syncFile.bind fun _ => syncFile).ensure
      syncFile).Uses
      StateOp.Keeps := fun i =>
    ((hdump i).bind fun _ => uses_syncFile.bind fun _ => uses_syncFile).ensure uses_syncFile
  -- Up to the renaming nothing is renamed.
  have hplain : ∀ {α β : Type} {p : StateProg α} {f : α → StateProg β} {w : Writer (WriteCall C)}
      {Q : β → Writer (WriteCall C) → Prop}, p.Uses StateOp.Keeps → w.renamed = false →
      (∀ a w, w.renamed = false →
        (f a).Always SaveStep (fun _ _ => True) Q (fun _ w => w.renamed = false) w) →
      (p.bind f).Always SaveStep (fun _ _ => True) Q
          (fun _ w => w.renamed = false) w := fun hp hw hf =>
    always_bind.2 ((always_unrenamed hp hw).mono (fun _ _ h => h) (fun a w hw => hf a w hw)
      fun _ _ hw => hw)
  refine hplain uses_syncFile hw fun _ w hw =>
    hplain (uses_perform fun _ _ h => by cases h) hw fun ident w hw => ?_
  have hinner : ((onDisk (.truncate (threadTmp path ident))).bind fun i =>
      (((dumpFile i c).bind fun _ => syncFile.bind fun _ => syncFile).ensure syncFile).bind fun _ =>
      onDisk (.rename (threadTmp path ident) path)).Always SaveStep
      (fun _ _ => True) (fun _ w => w.renamed = true)
      (fun _ w => w.renamed = false) w := by
    refine hplain (uses_perform fun _ _ h => by cases h) hw fun i w hw =>
      hplain (hbody i) hw fun _ w hw => ?_
    refine always_onDisk trivial ?_ ?_
    · rintro v w' ⟨⟨rfl, -⟩, -⟩
      rfl
    · rintro e w' ⟨⟨rfl, -⟩, -⟩
      exact hw
  exact always_ensure.2 (hinner.mono (fun _ _ h => h) (fun _ _ hw => always_dropped hw)
    fun _ _ hw => always_dropped hw)

/-- A thread in a save of `c`, which began with the files `d₀`. -/
structure Saving (path : String) (ident : ℕ × ℕ) (c : C) (d₀ : Disk String)
    (w : Writer (WriteCall C)) (d : Disk String) : Prop where
  apart : Replacing (· = path) d (Function.update (fun _ => none) 0 w.hold)
  identified : w.ident = ident
  called : w.call = some (.save c)
  before : w.renamed = false → d.read path = d₀.read path
  after : w.renamed = true → ∃ b, (WriteCall.save c).encoding = some b ∧ d.read path = some b

theorem Saving.current {d₀ : Disk String} {w : Writer (WriteCall C)}
    (h : Saving path ident c d₀ w d) :
    d.read path = d₀.read path ∨ ∃ b, (WriteCall.save c).encoding = some b ∧
    d.read path = some b := by
  cases hw : w.renamed with
  | false => exact .inl (h.before hw)
  | true => exact .inr (h.after hw)

/-- The names a thread opens and removes are not that of the checkpoint. -/
theorem Saving.permits {d₀ : Disk String} {w : Writer (WriteCall C)} {o : DiskOp String}
    (h : Saving path ident c d₀ w d) (hg : WriterGuard path (.disk o) w) :
    Permits (· = path) (Function.update (fun _ => none) 0 w.hold) 0 o := by
  have hnone : ∀ n, ∀ t ≠ 0, ∀ x, Function.update (fun _ => none) 0 w.hold t = some x →
      x.name ≠ n := by
    intro n t ht x hx
    rw [Function.update_of_ne ht] at hx
    cases hx
  have hself : Function.update (fun _ : ℕ => (none : Option (Hold String))) 0 w.hold 0 = w.hold :=
    Function.update_self ..
  cases o with
  | create n => exact ⟨hg.ne, hnone n⟩
  | truncate n => exact ⟨hg.ne, hnone n⟩
  | write i off b =>
    obtain ⟨x, hx, hi, hoff⟩ := hg
    exact ⟨x, hself.trans hx, hi, hoff⟩
  | rename src dst =>
    obtain ⟨rfl, x, k, hx, hname, -⟩ := hg
    exact ⟨x, hself.trans hx, hname, rfl⟩
  | unlink n => exact hg.1.ne
  | exists_ n => trivial
  | sync => trivial

/-- An operation on a file: the checkpoint stays, or is replaced at once. -/
theorem Saving.disk {d₀ d' : Disk String} {w : Writer (WriteCall C)} {o : DiskOp String}
    {r : Except Exc o.Val} (h : Saving path ident c d₀ w d) (hg : WriterGuard path (.disk o) w)
    (hact : d.Acts o r d') :
    Saving path ident c d₀ (w.after o r) d' := by
  have hhold : Function.update (Function.update (fun _ => none) 0 w.hold) 0
      (Hold.after w.hold o r) = Function.update (fun _ : ℕ => (none : Option (Hold String))) 0
      (w.after o r).hold := Function.update_idem ..
  have hself : Function.update (fun _ : ℕ => (none : Option (Hold String))) 0 w.hold 0 = w.hold :=
    Function.update_self ..
  have hapart := h.apart.step (h.permits hg) hact
  rw [hself, hhold] at hapart
  have hread := h.apart.read_target (h.permits hg) hact rfl
  have hkept : (w.after o r).renamed = w.renamed → d'.read path = d.read path →
      Saving path ident c d₀ (w.after o r) d' :=
    fun hw hd => ⟨hapart, h.identified, h.called, fun hb => hd.trans (h.before (hw ▸ hb)),
      fun hb => by rw [hd]; exact h.after (hw ▸ hb)⟩
  cases hact with
  | @rename src dst i hi =>
    obtain ⟨rfl, x, k, hx, rfl, hk, hwhole⟩ := hg
    cases h.called.symm.trans hk
    obtain rfl := (h.apart.held 0 x (hself.trans hx)).named i hi
    refine ⟨hapart, h.identified, h.called, fun hb => (nomatch hb), fun _ =>
      ⟨x.written, hwhole, ?_⟩⟩
    rw [Disk.read, Disk.rename_entry_self]
    exact congrArg some (h.apart.held 0 x (hself.trans hx)).content
  | @error o e he =>
    rcases hread with hread | ⟨x, v, -, -, heq, -⟩
    · refine hkept ?_ hread
      cases o <;> rfl
    · cases heq
  | create | empty | fresh | write | unlink | exists_ | sync =>
    refine hkept rfl (hread.resolve_right ?_)
    rintro ⟨x, v, heq, -⟩
    cases heq

/-- Every operation of a save is simulated by its thread. -/
theorem Saving.step {d₀ d' : Disk String} {w : Writer (WriteCall C)} {o : StateOp}
    {r : Except Exc o.Val} (h : Saving path ident c d₀ w d) (hg : WriterGuard path o w)
    (hs : CheckpointStep ident (.state o) d r d') :
    ∃ w', SaveStep o w r w' ∧ Saving path ident c d₀ w' d' := by
  cases o with
  | disk o =>
    obtain ⟨ch, hch⟩ := hs
    have hact := Disk.acts_of_act hch
    refine ⟨w.after o r, ⟨⟨rfl, hact.answers⟩, ?_⟩, h.disk hg hact⟩
    cases o with
    | unlink n =>
      cases r with
      | ok v => trivial
      | error e =>
        cases ch with
        | fail e => cases hch
        | done k =>
          simp only [Disk.act, Disk.perform] at hch
          split_ifs at hch
          · cases hch
          · exact (Except.error.inj (congrArg Prod.fst (Option.some.inj hch))).symm
    | _ => trivial
  | uuid =>
    obtain ⟨hu, rfl⟩ := hs
    cases r with
    | ok u =>
      exact ⟨{ w with token := some u }, ⟨.inl ⟨u, hu u rfl, rfl, rfl⟩, trivial⟩,
        ⟨h.apart, h.identified, h.called, h.before, h.after⟩⟩
    | error e => exact ⟨w, ⟨.inr ⟨⟨e, rfl⟩, rfl⟩, trivial⟩, h⟩
  | ident =>
    obtain ⟨rfl, rfl⟩ := hs
    exact ⟨w, ⟨⟨congrArg Except.ok h.identified.symm, rfl⟩, trivial⟩, h⟩

/-- **A save is all or nothing**: all along the file has its old content or the complete
    text of the new checkpoint, and at last the latter exactly if the save does not raise. -/
theorem always_saved :
    (FileCheckpointStore.save path c).Always (CheckpointStep ident)
      (fun _ d' => d'.read path = d.read path ∨ ∃ b, (WriteCall.save c).encoding = some b ∧
        d'.read path = some b)
      (fun _ d' => ∃ b, (WriteCall.save c).encoding = some b ∧ d'.read path = some b)
      (fun _ d' => d'.read path = d.read path) d := by
  let w₀ : Writer (WriteCall C) := { ident := ident, call := some (.save c) }
  have hguard : (StateFile.save path c).Always SaveStep (WriterGuard path)
      (fun _ w => w.hold = none) (fun _ w => w.hold = none) w₀ :=
      (StateFile.always_save rfl rfl rfl).restrict fun _ _ _ _ hs => hs.1
  have hstart : Saving path ident c d w₀ d := by
    refine ⟨?_, rfl, rfl, fun _ => rfl, fun hb => (nomatch hb)⟩
    rw [Function.update_eq_self_iff.2 rfl]
    exact ⟨fun _ _ h => (nomatch h), fun _ _ _ _ h => (nomatch h)⟩
  have hsave := (hguard.and (always_renamed rfl)).simulate
    (fun o w d' r d'' (hJ : Saving path ident c d w d') hg
    (hs : CheckpointStep ident (.state o) d' r d'') => hJ.step hg.1 hs) hstart
  refine (Always.lower Eq (fun o s s' hR hg => ?_) hsave rfl).mono (fun _ _ h => h) ?_ ?_
  · subst hR
    obtain ⟨w, hw, -⟩ := hg
    exact always_perform.2 ⟨hw.current, fun v s' hs => ⟨s', hs, rfl⟩, fun e s' hs => ⟨s', hs, rfl⟩⟩
  · rintro v d' ⟨_, rfl, w, hw, -, hrenamed⟩
    exact hw.after hrenamed
  · rintro e d' ⟨_, rfl, w, hw, -, hrenamed⟩
    exact hw.before hrenamed

end

end DatasourceKit

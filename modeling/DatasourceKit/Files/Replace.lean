/-
  Replace — files written under a temporary name, and renamed when they are complete.

  Names `N` lead to inodes, each inode from at most one name; `write` goes to an inode, at an
  offset, whatever its name has become.  Several writers work on the same names.

  * `DiskOp`, `Disk.act`: the operations, each of which may fail without an effect (what is
    there can always be removed), and `write` may write less than it is given;
  * `Hold`: a file a writer has opened, with what it has written; `Hold.after`: how an
    operation of the writer changes it;
  * `Replacing`: the writers hold different files, none of them a target; `Permits`: what a
    writer may do, and `Replacing.step`: that it keeps them apart;
  * `Replacing.read_target`: a target only changes by a renaming, and then holds at once all
    that its writer has written;
  * `writeLoop`: the loop that writes all bytes.
-/
import Mathlib.Tactic.SplitIfs
import DatasourceKit.Interleave.Prog

namespace Files

variable {N ε : Type} [DecidableEq N]

/-- The first bytes, the new bytes at the offset, and what comes after them. -/
def splice (old : List UInt8) (off : ℕ) (b : List UInt8) : List UInt8 :=
  old.take off ++ List.replicate (off - old.length) 0 ++ b ++ old.drop (off + b.length)

theorem splice_length (old b : List UInt8) : splice old old.length b = old ++ b := by
  simp [splice]

/-! ## The disk -/

/-- Names and inodes; `next` is the first inode that is not in use. -/
structure Disk (N : Type) where
  entry : N → Option ℕ
  content : ℕ → List UInt8
  next : ℕ
  bounded : ∀ {n i}, entry n = some i → i < next
  sole : ∀ {n m i}, entry n = some i → entry m = some i → n = m

namespace Disk
variable (d : Disk N)

/-- What the file of the name holds. -/
def read (n : N) : Option (List UInt8) := (d.entry n).map d.content

/-- An empty file under a name. -/
def create (n : N) : Disk N where
  entry := Function.update d.entry n (some d.next)
  content := Function.update d.content d.next []
  next := d.next + 1
  bounded {m i} h := by
    by_cases hm : m = n
    · subst hm
      rw [Function.update_self] at h
      cases h
      omega
    · rw [Function.update_of_ne hm] at h
      have := d.bounded h
      omega
  sole {m m' i} h h' := by
    by_cases hm : m = n <;> by_cases hm' : m' = n
    · rw [hm, hm']
    · subst hm
      rw [Function.update_self] at h
      rw [Function.update_of_ne hm'] at h'
      cases h
      have := d.bounded h'
      omega
    · subst hm'
      rw [Function.update_self] at h'
      rw [Function.update_of_ne hm] at h
      cases h'
      have := d.bounded h
      omega
    · rw [Function.update_of_ne hm] at h
      rw [Function.update_of_ne hm'] at h'
      exact d.sole h h'

/-- The inode with another content. -/
def fill (i : ℕ) (b : List UInt8) : Disk N := { d with content := Function.update d.content i b }

/-- The name is gone. -/
def remove (n : N) : Disk N where
  entry := Function.update d.entry n none
  content := d.content
  next := d.next
  bounded {m i} h := by
    by_cases hm : m = n
    · subst hm
      rw [Function.update_self] at h
      cases h
    · rw [Function.update_of_ne hm] at h
      exact d.bounded h
  sole {m m' i} h h' := by
    have hold : ∀ {m}, Function.update d.entry n none m = some i → d.entry m = some i := by
      intro m hm
      by_cases hmn : m = n
      · subst hmn
        rw [Function.update_self] at hm
        cases hm
      · rwa [Function.update_of_ne hmn] at hm
    exact d.sole (hold h) (hold h')

/-- The file under one name gets the other name. -/
def rename (src dst : N) (i : ℕ) (h : d.entry src = some i) : Disk N where
  entry := Function.update (Function.update d.entry src none) dst (some i)
  content := d.content
  next := d.next
  bounded {m j} hm := by
    by_cases hmd : m = dst
    · subst hmd
      rw [Function.update_self] at hm
      cases hm
      exact d.bounded h
    · rw [Function.update_of_ne hmd] at hm
      exact (d.remove src).bounded hm
  sole {m m' j} hm hm' := by
    have hsrc : ∀ {m}, m ≠ dst →
        Function.update (Function.update d.entry src none) dst (some i) m ≠ some i := by
      intro m hmd hmi
      rw [Function.update_of_ne hmd] at hmi
      by_cases hms : m = src
      · subst hms
        rw [Function.update_self] at hmi
        cases hmi
      · rw [Function.update_of_ne hms] at hmi
        exact hms (d.sole hmi h)
    by_cases hmd : m = dst <;> by_cases hmd' : m' = dst
    · rw [hmd, hmd']
    · subst hmd
      rw [Function.update_self] at hm
      cases hm
      exact absurd hm' (hsrc hmd')
    · subst hmd'
      rw [Function.update_self] at hm'
      cases hm'
      exact absurd hm (hsrc hmd)
    · rw [Function.update_of_ne hmd] at hm
      rw [Function.update_of_ne hmd'] at hm'
      exact (d.remove src).sole hm hm'

section
variable {d} {n m src dst : N} {i j : ℕ} {b : List UInt8}

@[simp] theorem create_entry_self : (d.create n).entry n = some d.next := Function.update_self ..
@[simp] theorem create_content_self : (d.create n).content d.next = [] := Function.update_self ..
omit [DecidableEq N] in
@[simp] theorem fill_content_self : (d.fill i b).content i = b := Function.update_self ..
omit [DecidableEq N] in
@[simp] theorem fill_entry : (d.fill i b).entry = d.entry := rfl
@[simp] theorem remove_entry_self : (d.remove n).entry n = none := Function.update_self ..
@[simp] theorem rename_entry_self {h : d.entry src = some i} :
    (d.rename src dst i h).entry dst = some i :=
  Function.update_self ..

theorem create_entry_ne (h : m ≠ n) : (d.create n).entry m = d.entry m := Function.update_of_ne h ..

theorem create_content_ne (h : i ≠ d.next) :
    (d.create n).content i = d.content i := Function.update_of_ne h ..

omit [DecidableEq N] in
theorem fill_content_ne (h : j ≠ i) : (d.fill i b).content j = d.content j :=
  Function.update_of_ne h ..

theorem remove_entry_ne (h : m ≠ n) : (d.remove n).entry m = d.entry m := Function.update_of_ne h ..

theorem rename_entry_ne {h : d.entry src = some i} (hm : m ≠ dst) :
    (d.rename src dst i h).entry m = (d.remove src).entry m := Function.update_of_ne hm ..

/-- What is left was there. -/
theorem of_remove_entry (h : (d.remove n).entry m = some i) : d.entry m = some i := by
  by_cases hm : m = n
  · subst hm
    rw [remove_entry_self] at h
    cases h
  · rwa [remove_entry_ne hm] at h

end

end Disk

/-! ## Operations -/

inductive DiskOp (N : Type) where
  | create (n : N)                      -- a new file; it must not be there
  | truncate (n : N)                    -- an empty file, new or not
  | write (i off : ℕ) (b : List UInt8)
  | rename (src dst : N)
  | unlink (n : N)
  | exists_ (n : N)
  | sync                                -- what changes no file

/-- The value an operation answers: an inode, how many bytes are written, or whether the file
    is there. -/
def DiskOp.Val : DiskOp N → Type
  | create _ | truncate _ | write .. => ℕ
  | exists_ _ => Bool
  | _ => Unit

/-- How many of the bytes are written: one of them, if there is one. -/
def Wrote (b : List UInt8) (k : ℕ) : Prop := k ≤ b.length ∧ (k = 0 → b = [])

instance (b : List UInt8) (k : ℕ) : Decidable (Wrote b k) :=
  inferInstanceAs (Decidable (_ ∧ (_ → _)))

/-- What an operation may answer. -/
def DiskOp.Answers : (o : DiskOp N) → Except ε o.Val → Prop
  | .write _ _ b, .ok k => Wrote b k
  | _, _ => True

/-- The exceptions of the operations. -/
structure DiskErrors (ε : Type) where
  fileExists : ε
  notFound : ε

/-- The operation is performed, and writes so many bytes; or it fails. -/
inductive DiskChoice (ε : Type) where
  | done (written : ℕ)
  | fail (e : ε)

/-- An operation without a failure. -/
def Disk.perform (errs : DiskErrors ε) (d : Disk N) (written : ℕ) :
    (o : DiskOp N) → Option (Except ε o.Val × Disk N)
  | .create n => if (d.entry n).isSome then some (.error errs.fileExists, d)
    else some (.ok d.next, d.create n)
  | .truncate n =>
    match d.entry n with
    | some i => some (.ok i, d.fill i [])
    | none => some (.ok d.next, d.create n)
  | .write i off b =>
    if Wrote b written then
      some (.ok written, d.fill i (splice (d.content i) off (b.take written)))
    else none
  | .rename src dst =>
    match h : d.entry src with
    | some i => some (.ok (), d.rename src dst i h)
    | none => some (.error errs.notFound, d)
  | .unlink n => if (d.entry n).isSome then some (.ok (), d.remove n)
    else some (.error errs.notFound, d)
  | .exists_ n => some (.ok (d.entry n).isSome, d)
  | .sync => some (.ok (), d)

/-- An operation; what is there can always be removed. -/
def Disk.act (errs : DiskErrors ε) (d : Disk N) (o : DiskOp N) :
    DiskChoice ε → Option (Except ε o.Val × Disk N)
  | .done written => d.perform errs written o
  | .fail e =>
    match o with
    | .unlink _ => none
    | _ => some (.error e, d)

/-- What an operation may do: it raises, and changes nothing, or it has its effect. -/
inductive Disk.Acts (d : Disk N) : (o : DiskOp N) → Except ε o.Val → Disk N → Prop
  | error {o e} : (∀ n, o = .unlink n → d.entry n = none) → Acts d o (.error e) d
  | create {n} : Acts d (.create n) (.ok d.next) (d.create n)
  | empty {n i} : d.entry n = some i → Acts d (.truncate n) (.ok i) (d.fill i [])
  | fresh {n} : Acts d (.truncate n) (.ok d.next) (d.create n)
  | write {i off b k} : Wrote b k →
    Acts d (.write i off b) (.ok k) (d.fill i (splice (d.content i) off (b.take k)))
  | rename {src dst i} (h : d.entry src = some i) :
    Acts d (.rename src dst) (.ok ()) (d.rename src dst i h)
  | unlink {n} : Acts d (.unlink n) (.ok ()) (d.remove n)
  | exists_ {n} : Acts d (.exists_ n) (.ok (d.entry n).isSome) d
  | sync : Acts d .sync (.ok ()) d

theorem Disk.acts_of_act {errs : DiskErrors ε} {d d' : Disk N} {o : DiskOp N} {ch : DiskChoice ε}
    {r : Except ε o.Val} (h : d.act errs o ch = some (r, d')) : d.Acts o r d' := by
  cases ch with
  | fail e => cases o <;> cases h <;> exact .error fun _ h => nomatch h
  | done k =>
    cases o with
    | create n =>
      simp only [act, perform] at h
      split_ifs at h <;> cases h
      · exact .error fun _ h => nomatch h
      · exact .create
    | truncate n =>
      simp only [act, perform] at h
      split at h <;> cases h
      · exact .empty (by assumption)
      · exact .fresh
    | write i off b =>
      simp only [act, perform, Option.ite_none_right_eq_some] at h
      obtain ⟨hk, h⟩ := h
      cases h
      exact .write hk
    | rename src dst =>
      simp only [act, perform] at h
      split at h <;> cases h
      · exact .rename _
      · exact .error fun _ h => nomatch h
    | unlink n =>
      simp only [act, perform] at h
      split_ifs at h with hn <;> cases h
      · exact .unlink
      · refine .error fun m hm => ?_
        cases hm
        simpa using hn
    | exists_ n =>
      cases h
      exact .exists_
    | sync =>
      cases h
      exact .sync

theorem Disk.Acts.answers {d d' : Disk N} {o : DiskOp N} {r : Except ε o.Val} (h : d.Acts o r d') :
    o.Answers r := by
  cases h with
  | error => cases o <;> trivial
  | write hk => exact hk
  | create | empty | fresh | rename | unlink | exists_ | sync => trivial

/-! ## Writers -/

/-- A file that a writer has opened under a name, with what it has written. -/
structure Hold (N : Type) where
  name : N
  inode : ℕ
  written : List UInt8

/-- What the writer holds after an operation. -/
def Hold.after (hold : Option (Hold N)) : (o : DiskOp N) → Except ε o.Val → Option (Hold N)
  | .create n, .ok i => some ⟨n, i, []⟩
  | .truncate n, .ok i => some ⟨n, i, []⟩
  | .write _ _ b, .ok written => hold.map fun h => { h with written := h.written ++ b.take written }
  | .rename .., .ok _ => none
  | .unlink _, _ => none
  | _, _ => hold

/-- What a writer may do, when the others hold these files. -/
def Permits (target : N → Prop) (hold : ℕ → Option (Hold N)) (t : ℕ) : DiskOp N → Prop
  | .create n | .truncate n => ¬target n ∧ ∀ t' ≠ t, ∀ h, hold t' = some h → h.name ≠ n
  | .write i off _ => ∃ h, hold t = some h ∧ h.inode = i ∧ h.written.length = off
  | .rename src dst => ∃ h, hold t = some h ∧ h.name = src ∧ target dst
  | .unlink n => ¬target n
  | .exists_ _ | .sync => True

/-- A writer holds the file, under a name that leads to it or to nothing. -/
structure Holds (target : N → Prop) (d : Disk N) (h : Hold N) : Prop where
  name : ¬target h.name
  inode : h.inode < d.next
  content : d.content h.inode = h.written
  only : ∀ n, d.entry n = some h.inode → n = h.name
  named : ∀ i, d.entry h.name = some i → i = h.inode

/-- The writers hold different files, none of them a target. -/
structure Replacing (target : N → Prop) (d : Disk N) (hold : ℕ → Option (Hold N)) : Prop where
  held : ∀ t h, hold t = some h → Holds target d h
  apart : ∀ t t' h h', hold t = some h → hold t' = some h' →
    h.name = h'.name ∨ h.inode = h'.inode → t = t'

section
variable {target : N → Prop} {d d' : Disk N} {h : Hold N} {n : N} {i t : ℕ}

open Disk

namespace Holds

theorem create (hh : Holds target d h) (hn : h.name ≠ n) : Holds target (d.create n) h where
  name := hh.name
  inode := Nat.lt_succ_of_lt hh.inode
  content := by rw [create_content_ne (Nat.ne_of_lt hh.inode), hh.content]
  only m hm := by
    by_cases hmn : m = n
    · subst hmn
      rw [create_entry_self] at hm
      exact absurd (Option.some.inj hm) (Nat.ne_of_gt hh.inode)
    · rw [create_entry_ne hmn] at hm
      exact hh.only m hm
  named i hi := by
    rw [create_entry_ne hn] at hi
    exact hh.named i hi

omit [DecidableEq N] in
theorem fill {b : List UInt8} (hh : Holds target d h) (hi : h.inode ≠ i) :
    Holds target (d.fill i b) h where
  name := hh.name
  inode := hh.inode
  content := (fill_content_ne hi).trans hh.content
  only := hh.only
  named := hh.named

theorem remove (hh : Holds target d h) : Holds target (d.remove n) h where
  name := hh.name
  inode := hh.inode
  content := hh.content
  only m hm := hh.only m (of_remove_entry hm)
  named i hi := hh.named i (of_remove_entry hi)

theorem rename {src dst : N} (hh : Holds target d h) (hsrc : d.entry src = some i)
    (hname : h.name ≠ src) (hdst : target dst) : Holds target (d.rename src dst i hsrc) h where
  name := hh.name
  inode := hh.inode
  content := hh.content
  only m hm := by
    by_cases hmd : m = dst
    · subst hmd
      rw [rename_entry_self] at hm
      obtain rfl := Option.some.inj hm
      exact absurd (hh.only src hsrc).symm hname
    · rw [rename_entry_ne hmd] at hm
      exact hh.only m (of_remove_entry hm)
  named j hj := by
    have hne : h.name ≠ dst := fun heq => hh.name (heq ▸ hdst)
    rw [rename_entry_ne hne] at hj
    exact hh.named j (of_remove_entry hj)

end Holds

namespace Replacing
variable {hold : ℕ → Option (Hold N)}

omit [DecidableEq N] in
/-- One writer goes on to hold `x`, or nothing. -/
theorem update {x : Option (Hold N)} (hr : Replacing target d hold)
    (hothers : ∀ t' ≠ t, ∀ h, hold t' = some h → Holds target d' h)
    (hown : ∀ h, x = some h → Holds target d' h ∧
      ∀ t' ≠ t, ∀ h', hold t' = some h' → h'.name ≠ h.name ∧ h'.inode ≠ h.inode) :
    Replacing target d' (Function.update hold t x) where
  held t' h hh := by
    by_cases ht : t' = t
    · subst ht
      rw [Function.update_self] at hh
      exact (hown h hh).1
    · rw [Function.update_of_ne ht] at hh
      exact hothers t' ht h hh
  apart t₁ t₂ h₁ h₂ hh₁ hh₂ heq := by
    by_cases ht₁ : t₁ = t <;> by_cases ht₂ : t₂ = t
    · rw [ht₁, ht₂]
    · subst ht₁
      rw [Function.update_self] at hh₁
      rw [Function.update_of_ne ht₂] at hh₂
      obtain ⟨hname, hinode⟩ := (hown h₁ hh₁).2 t₂ ht₂ h₂ hh₂
      exact (heq.elim (fun h => hname h.symm) fun h => hinode h.symm).elim
    · subst ht₂
      rw [Function.update_self] at hh₂
      rw [Function.update_of_ne ht₁] at hh₁
      obtain ⟨hname, hinode⟩ := (hown h₂ hh₂).2 t₁ ht₁ h₁ hh₁
      exact (heq.elim hname hinode).elim
    · rw [Function.update_of_ne ht₁] at hh₁
      rw [Function.update_of_ne ht₂] at hh₂
      exact hr.apart t₁ t₂ h₁ h₂ hh₁ hh₂ heq

omit [DecidableEq N] in
/-- A writer may let go of what it holds. -/
theorem release (hr : Replacing target d hold) (t : ℕ) :
    Replacing target d (Function.update hold t none) :=
  hr.update (fun t' _ h hh => hr.held t' h hh) fun _ hh => nomatch hh

/-- A new file, which its writer holds. -/
theorem create (hr : Replacing target d hold) (hn : ¬target n)
    (hfree : ∀ t' ≠ t, ∀ h, hold t' = some h → h.name ≠ n) :
    Replacing target (d.create n) (Function.update hold t (some ⟨n, d.next, []⟩)) := by
  refine hr.update (fun t' ht h hh => (hr.held t' h hh).create (hfree t' ht h hh)) ?_
  rintro h ⟨⟩
  refine ⟨⟨hn, Nat.lt_succ_self _, create_content_self, fun m hm => ?_,
      fun i hi => ?_⟩, fun t' ht h' hh' =>
    ⟨hfree t' ht h' hh', Nat.ne_of_lt (hr.held t' h' hh').inode⟩⟩
  · by_contra hmn
    rw [create_entry_ne hmn] at hm
    exact absurd (d.bounded hm) (Nat.lt_irrefl _)
  · rw [create_entry_self] at hi
    exact (Option.some.inj hi).symm

omit [DecidableEq N] in
/-- A file that is there is emptied, and held. -/
theorem empty (hr : Replacing target d hold) (hn : ¬target n)
    (hfree : ∀ t' ≠ t, ∀ h, hold t' = some h → h.name ≠ n) (hi : d.entry n = some i) :
    Replacing target (d.fill i []) (Function.update hold t (some ⟨n, i, []⟩)) := by
  have hother : ∀ t' ≠ t, ∀ h, hold t' = some h → h.inode ≠ i := by
    rintro t' ht h hh rfl
    exact hfree t' ht h hh ((hr.held t' h hh).only n hi).symm
  refine hr.update (fun t' ht h hh => (hr.held t' h hh).fill (hother t' ht h hh)) ?_
  rintro h ⟨⟩
  refine ⟨⟨hn, d.bounded hi, fill_content_self, fun m hm =>
      d.sole hm hi, fun j hj => ?_⟩, fun t' ht h' hh' =>
    ⟨hfree t' ht h' hh', hother t' ht h' hh'⟩⟩
  exact Option.some.inj (hj.symm.trans hi)

omit [DecidableEq N] in
/-- A writer writes to the file it holds, at its end. -/
theorem write {b : List UInt8} (hr : Replacing target d hold) (hh : hold t = some h) :
    Replacing target (d.fill h.inode (splice (d.content h.inode) h.written.length b))
      (Function.update hold t (some { h with written := h.written ++ b })) := by
  have hheld := hr.held t h hh
  have hother : ∀ t' ≠ t, ∀ h', hold t' = some h' →
      h'.name ≠ h.name ∧ h'.inode ≠ h.inode := fun t' ht h' hh' =>
    ⟨fun heq => ht (hr.apart t' t h' h hh' hh (.inl heq)), fun heq =>
      ht (hr.apart t' t h' h hh' hh (.inr heq))⟩
  refine hr.update (fun t' ht h' hh' => (hr.held t' h' hh').fill (hother t' ht h' hh').2) ?_
  rintro h' ⟨⟩
  refine ⟨⟨hheld.name, hheld.inode, ?_, hheld.only, hheld.named⟩, hother⟩
  rw [fill_content_self, hheld.content, splice_length]

/-- The file a writer holds gets the name of its target. -/
theorem rename {dst : N} (hr : Replacing target d hold) (hh : hold t = some h)
    (hi : d.entry h.name = some i) (hdst : target dst) :
    Replacing target (d.rename h.name dst i hi) (Function.update hold t none) :=
  hr.update (fun t' ht h' hh' =>
    (hr.held t' h' hh').rename hi (fun heq => ht (hr.apart t' t h' h hh' hh (.inl heq))) hdst)
    fun _ hnone => nomatch hnone

/-- A name that is no target goes. -/
theorem remove (hr : Replacing target d hold) :
    Replacing target (d.remove n) (Function.update hold t none) :=
  hr.update (fun t' _ h' hh' => (hr.held t' h' hh').remove) fun _ hnone => nomatch hnone

/-- **What is permitted keeps the writers apart.** -/
theorem step {o : DiskOp N} {r : Except ε o.Val} (hr : Replacing target d hold)
    (hp : Permits target hold t o) (h : d.Acts o r d') :
    Replacing target d' (Function.update hold t (Hold.after (hold t) o r)) := by
  have hsame : Replacing target d (Function.update hold t (hold t)) := by
    rwa [Function.update_eq_self]
  cases h with
  | error =>
    cases o with
    | unlink n => exact hr.release t
    | create | truncate | write | rename | exists_ | sync => exact hsame
  | create => exact hr.create hp.1 hp.2
  | empty hi => exact hr.empty hp.1 hp.2 hi
  | fresh => exact hr.create hp.1 hp.2
  | write hk =>
    obtain ⟨x, hx, rfl, rfl⟩ := hp
    simp only [Hold.after, hx, Option.map_some]
    exact hr.write hx
  | rename hi =>
    obtain ⟨x, hx, rfl, hdst⟩ := hp
    exact hr.rename hx hi hdst
  | unlink => exact hr.remove
  | exists_ => exact hsame
  | sync => exact hsame

end Replacing

/-- **A target only changes by a renaming**, and then holds what its writer has written. -/
theorem Replacing.read_target {hold : ℕ → Option (Hold N)} {o : DiskOp N} {r : Except ε o.Val}
    (hr : Replacing target d hold) (hp : Permits target hold t o)
    (hact : d.Acts o r d') (hn : target n) :
    d'.read n = d.read n ∨ ∃ h v, o = .rename h.name n ∧ hold t = some h ∧ r = .ok v ∧
    d'.read n = some h.written := by
  have hcreate : ∀ {m}, ¬target m → (d.create m).read n = d.read n := by
    intro m hm
    have hnm : n ≠ m := fun heq => hm (heq ▸ hn)
    rw [Disk.read, Disk.read, create_entry_ne hnm]
    cases hi : d.entry n with
    | none => rfl
    | some i => rw [Option.map_some, Option.map_some,
      create_content_ne (Nat.ne_of_lt (d.bounded hi))]
  have hfill : ∀ {i b}, d.entry n ≠ some i → (d.fill i b).read n = d.read n := by
    intro i b hne
    rw [Disk.read, Disk.read, fill_entry]
    cases hi : d.entry n with
    | none => rfl
    | some j =>
      rw [Option.map_some, Option.map_some, fill_content_ne]
      rintro rfl
      exact hne hi
  cases hact with
  | error | exists_ | sync => exact .inl rfl
  | create | fresh => exact .inl (hcreate hp.1)
  | empty hi => exact .inl (hfill fun hni => hp.1 (d.sole hni hi ▸ hn))
  | write =>
    obtain ⟨x, hx, rfl, -⟩ := hp
    exact .inl (hfill fun hni => (hr.held t x hx).name ((hr.held t x hx).only n hni ▸ hn))
  | @rename src dst i hi =>
    obtain ⟨x, hx, rfl, -⟩ := hp
    by_cases hnd : n = dst
    · subst hnd
      obtain rfl := (hr.held t x hx).named i hi
      refine .inr ⟨x, (), rfl, hx, rfl, ?_⟩
      rw [Disk.read, rename_entry_self]
      exact congrArg some (hr.held t x hx).content
    · have hnx : n ≠ x.name := fun heq => (hr.held t x hx).name (heq ▸ hn)
      rw [Disk.read, Disk.read, rename_entry_ne hnd, remove_entry_ne hnx]
      exact .inl rfl
  | @unlink m =>
    have hnm : n ≠ m := fun heq => hp (heq ▸ hn)
    rw [Disk.read, Disk.read, remove_entry_ne hnm]
    exact .inl rfl

namespace Disk.Acts

/-- A name that leads nowhere still does, unless the operation gives it a file. -/
theorem entry_none {o : DiskOp N} {r : Except ε o.Val} (h : d.Acts o r d')
    (ho : o ≠ .create n ∧ o ≠ .truncate n ∧ ∀ src, o ≠ .rename src n) (hn : d.entry n = none) :
    d'.entry n = none := by
  cases h with
  | error | empty | write | exists_ | sync => exact hn
  | @create m => rwa [create_entry_ne fun heq : n = m => ho.1 (heq ▸ rfl)]
  | @fresh m => rwa [create_entry_ne fun heq : n = m => ho.2.1 (heq ▸ rfl)]
  | @rename src dst i hi =>
    rw [rename_entry_ne fun heq : n = dst => ho.2.2 src (heq ▸ rfl)]
    by_cases hns : n = src
    · rw [hns, remove_entry_self]
    · rwa [remove_entry_ne hns]
  | @unlink m =>
    by_cases hnm : n = m
    · rw [hnm, remove_entry_self]
    · rwa [remove_entry_ne hnm]

/-- A name that is removed leads nowhere. -/
theorem unlink_entry {r : Except ε (DiskOp.unlink n).Val} (h : d.Acts (.unlink n) r d') :
    d'.entry n = none := by
  cases h with
  | error hn => exact hn n rfl
  | unlink => exact remove_entry_self

/-- A name that is renamed leads nowhere. -/
theorem rename_entry {dst : N} {v : (DiskOp.rename n dst).Val}
    (h : d.Acts (ε := ε) (.rename n dst) (.ok v) d') (hne : n ≠ dst) : d'.entry n = none := by
  cases h with
  | rename hi => rw [rename_entry_ne hne, remove_entry_self]

end Disk.Acts

omit [DecidableEq N] in
/-- What a writer holds after an operation, it has held before, or opened. -/
theorem Hold.of_after {hold : Option (Hold N)} {o : DiskOp N} {r : Except ε o.Val}
    (h' : Hold.after hold o r = some h) :
    (∃ h₀, hold = some h₀ ∧ h₀.name = h.name) ∨ o = .create h.name ∨ o = .truncate h.name := by
  cases o with
  | create n =>
    cases r with
    | ok i =>
      cases h'
      exact .inr (.inl rfl)
    | error e => exact .inl ⟨h, h', rfl⟩
  | truncate n =>
    cases r with
    | ok i =>
      cases h'
      exact .inr (.inr rfl)
    | error e => exact .inl ⟨h, h', rfl⟩
  | write i off b =>
    cases r with
    | ok k =>
      obtain ⟨h₀, hh₀, rfl⟩ := Option.map_eq_some_iff.1 h'
      exact .inl ⟨h₀, hh₀, rfl⟩
    | error e => exact .inl ⟨h, h', rfl⟩
  | rename src dst =>
    cases r with
    | ok v => cases h'
    | error e => exact .inl ⟨h, h', rfl⟩
  | unlink n => cases r <;> cases h'
  | exists_ n => cases r <;> exact .inl ⟨h, h', rfl⟩
  | sync => cases r <;> exact .inl ⟨h, h', rfl⟩

end

/-! ## Writing all bytes -/

section
open Interleave Interleave.Prog

variable {Op : Type} {Val : Op → Type}

/-- Write all bytes from the offset on; every round writes a byte, so there are at most `n`. -/
def writeLoop (write : ℕ → List UInt8 → Prog Val ε ℕ) : ℕ → ℕ → List UInt8 → Prog Val ε Unit
  | 0, _, _ => .ret ()
  | n + 1, off, b =>
    if b = [] then .ret () else (write off b).bind fun k => writeLoop write n (off + k) (b.drop k)

omit [DecidableEq N] in
theorem uses_writeLoop {A : Op → Prop} {write : ℕ → List UInt8 → Prog Val ε ℕ}
    (hwrite : ∀ off b, (write off b).Uses A) (n off : ℕ) (b : List UInt8) :
    (writeLoop write n off b).Uses A := by
  induction n generalizing off b with
  | zero => trivial
  | succ n ih =>
    rw [writeLoop]
    split_ifs
    · trivial
    · exact (hwrite off b).bind fun k => ih _ _

omit [DecidableEq N] in
/-- The rule for the loop: every round keeps `I` for what is left. -/
theorem always_writeLoop {S : Type} {step : (o : Op) → S → Except ε (Val o) → S → Prop}
    {G : Op → S → Prop} {E : ε → S → Prop} {write : ℕ → List UInt8 → Prog Val ε ℕ}
    {I : ℕ → List UInt8 → S → Prop}
    (hwrite : ∀ off b s, b ≠ [] → I off b s → (write off b).Always step G
      (fun k s' => 0 < k ∧ k ≤ b.length ∧ I (off + k) (b.drop k) s') E s)
    {n off : ℕ} {b : List UInt8} {s : S} (hn : b.length ≤ n) (h : I off b s) :
    (writeLoop write n off b).Always step G (fun _ s' => I (off + b.length) [] s') E s := by
  induction n generalizing off b s with
  | zero =>
    obtain rfl : b = [] := List.length_eq_zero_iff.1 (by omega)
    exact h
  | succ n ih =>
    rw [writeLoop]
    split_ifs with hb
    · subst hb
      exact h
    · refine always_bind.2 ((hwrite off b s hb h).mono (fun _ _ hg => hg) ?_ fun _ _ he => he)
      rintro k s' ⟨hk, hkb, hI⟩
      have hlen : off + k + (b.drop k).length = off + b.length := by
        rw [List.length_drop]
        omega
      rw [← hlen]
      exact ih (by rw [List.length_drop]; omega) hI

end

end Files

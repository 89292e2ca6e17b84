/-
  Files — names, inodes and link counts.

  A file system maps the names of directories `D` to inode numbers, and inode numbers to
  inodes.  The updates are total; when they are allowed is left to who uses them.

  * `create`, `link`, `unlink`: a name for a new inode, a further name, one name less;
    the last two keep the link count;
  * `append`, `chmod`: the content and the mode of an inode; `SameFile`: what all but
    `append` and `create` keep;
  * `Unused`: no name leads to the inode; `SoleName`: exactly one does.
-/
import Mathlib.Data.Nat.Notation
import Mathlib.Logic.Function.Basic

namespace Files

/-- The type of a file. -/
inductive Kind where
  | regular | directory | symlink | other
deriving DecidableEq

/-- A file without its names. -/
structure Inode where
  kind : Kind
  uid : ℕ
  mode : ℕ
  nlink : ℕ
  content : List UInt8
deriving DecidableEq

/-- What `stat` tells of a file. -/
structure Stat where
  ino : ℕ
  kind : Kind
  uid : ℕ
  mode : ℕ
  nlink : ℕ
deriving DecidableEq

/-- The file keeps its type, its owner and its content. -/
structure SameFile (v v' : Inode) : Prop where
  kind : v'.kind = v.kind
  uid : v'.uid = v.uid
  content : v'.content = v.content

theorem SameFile.of_eq {v v' : Inode} (h : v' = v) : SameFile v v' := by
  subst h
  exact ⟨rfl, rfl, rfl⟩

/-- The inodes, and the names in the directories `D`. -/
@[ext]
structure FileSys (D : Type) where
  inode : ℕ → Inode
  entry : D → String → Option ℕ

namespace FileSys
variable {D : Type} (s : FileSys D)

def stat (i : ℕ) : Stat :=
  ⟨i, (s.inode i).kind, (s.inode i).uid, (s.inode i).mode, (s.inode i).nlink⟩

/-- No name leads to the inode. -/
def Unused (i : ℕ) : Prop := ∀ d n, s.entry d n ≠ some i

/-- The one name of the inode is `n` in `d`. -/
structure SoleName (d : D) (n : String) (i : ℕ) : Prop where
  named : s.entry d n = some i
  only : ∀ {d' n'}, s.entry d' n' = some i → d' = d ∧ n' = n

@[simp] theorem stat_ino (i : ℕ) : (s.stat i).ino = i := rfl
@[simp] theorem stat_kind (i : ℕ) : (s.stat i).kind = (s.inode i).kind := rfl
@[simp] theorem stat_uid (i : ℕ) : (s.stat i).uid = (s.inode i).uid := rfl
@[simp] theorem stat_mode (i : ℕ) : (s.stat i).mode = (s.inode i).mode := rfl
@[simp] theorem stat_nlink (i : ℕ) : (s.stat i).nlink = (s.inode i).nlink := rfl

variable {s}

theorem Unused.ne {d : D} {n : String} {i w : ℕ} (hw : s.Unused w)
    (h : s.entry d n = some i) : i ≠ w := by
  rintro rfl
  exact hw d n h

theorem SoleName.ne {d d' : D} {n n' : String} {i j : ℕ} (hi : s.SoleName d n i)
    (h : s.entry d' n' = some j) (hne : d' = d → n' ≠ n) : j ≠ i := by
  rintro rfl
  obtain ⟨hd, hn⟩ := hi.only h
  exact hne hd hn

variable (s)

/-! ## Updates -/

def setInode (i : ℕ) (v : Inode) : FileSys D := { s with inode := Function.update s.inode i v }

/-- `write` at the end of the file. -/
def append (i : ℕ) (b : List UInt8) : FileSys D :=
  s.setInode i { s.inode i with content := (s.inode i).content ++ b }

def chmod (i mode : ℕ) : FileSys D := s.setInode i { s.inode i with mode := mode }

@[simp] theorem setInode_entry (i : ℕ) (v : Inode) : (s.setInode i v).entry = s.entry := rfl
@[simp] theorem setInode_self (i : ℕ) (v : Inode) :
    (s.setInode i v).inode i = v := by simp [setInode]
@[simp] theorem setInode_ne {i j : ℕ} (v : Inode) (h : j ≠ i) :
    (s.setInode i v).inode j = s.inode j := by
  simp [setInode, h]

@[simp] theorem append_entry (i : ℕ) (b : List UInt8) : (s.append i b).entry = s.entry := rfl
@[simp] theorem chmod_entry (i mode : ℕ) : (s.chmod i mode).entry = s.entry := rfl

theorem append_self (i : ℕ) (b : List UInt8) :
    (s.append i b).inode i = { s.inode i with content := (s.inode i).content ++ b } := by
    simp [append]

theorem append_ne {i j : ℕ} (b : List UInt8) (h : j ≠ i) : (s.append i b).inode j = s.inode j := by
  simp [append, h]

theorem chmod_self (i mode : ℕ) :
    (s.chmod i mode).inode i = { s.inode i with mode := mode } := by simp [chmod]

theorem chmod_ne {i j : ℕ} (mode : ℕ) (h : j ≠ i) : (s.chmod i mode).inode j = s.inode j := by
  simp [chmod, h]

theorem sameFile_chmod (i mode j : ℕ) : SameFile (s.inode j) ((s.chmod i mode).inode j) := by
  by_cases hj : j = i
  · subst hj
    rw [s.chmod_self]
    exact ⟨rfl, rfl, rfl⟩
  · exact .of_eq (s.chmod_ne mode hj)

section
variable [DecidableEq D]

/-- The names with `n` in `d` leading to `i`. -/
def setEntry (d : D) (n : String) (i : Option ℕ) : FileSys D :=
  { s with entry := fun d' n' => if d' = d ∧ n' = n then i else s.entry d' n' }

/-- A new file. -/
def create (d : D) (n : String) (i : ℕ) (v : Inode) :
    FileSys D := (s.setInode i v).setEntry d n (some i)

/-- `link`: the name `n` in `d` for the inode `i`. -/
def link (d : D) (n : String) (i : ℕ) : FileSys D :=
  (s.setInode i { s.inode i with nlink := (s.inode i).nlink + 1 }).setEntry d n (some i)

/-- `unlink`: the name `n` in `d` of the inode `i` is gone. -/
def unlink (d : D) (n : String) (i : ℕ) : FileSys D :=
  (s.setInode i { s.inode i with nlink := (s.inode i).nlink - 1 }).setEntry d n none

variable (d d' : D) (n n' : String) (i : ℕ) (v : Inode)

@[simp] theorem setEntry_inode (o : Option ℕ) : (s.setEntry d n o).inode = s.inode := rfl

theorem create_entry :
    (s.create d n i v).entry d' n' = if d' = d ∧ n' = n then some i else s.entry d' n' := rfl

theorem link_entry :
    (s.link d n i).entry d' n' = if d' = d ∧ n' = n then some i else s.entry d' n' := rfl

theorem unlink_entry :
    (s.unlink d n i).entry d' n' = if d' = d ∧ n' = n then none else s.entry d' n' := rfl

@[simp] theorem create_entry_self : (s.create d n i v).entry d n = some i := by simp [create_entry]
@[simp] theorem link_entry_self : (s.link d n i).entry d n = some i := by simp [link_entry]
@[simp] theorem unlink_entry_self : (s.unlink d n i).entry d n = none := by simp [unlink_entry]

variable {d d' n n' i}

theorem create_entry_ne (h : d' = d → n' ≠ n) : (s.create d n i v).entry d' n' = s.entry d' n' := by
  rw [create_entry, if_neg fun ⟨hd, hn⟩ => h hd hn]

theorem link_entry_ne (h : d' = d → n' ≠ n) : (s.link d n i).entry d' n' = s.entry d' n' := by
  rw [link_entry, if_neg fun ⟨hd, hn⟩ => h hd hn]

theorem unlink_entry_ne (h : d' = d → n' ≠ n) : (s.unlink d n i).entry d' n' = s.entry d' n' := by
  rw [unlink_entry, if_neg fun ⟨hd, hn⟩ => h hd hn]

theorem create_inode_self : (s.create d n i v).inode i = v := by simp [create]

theorem create_inode_ne {j : ℕ} (h : j ≠ i) : (s.create d n i v).inode j = s.inode j := by
  simp [create, h]

theorem link_inode_self :
    (s.link d n i).inode i = { s.inode i with nlink := (s.inode i).nlink + 1 } := by simp [link]

theorem link_inode_ne {j : ℕ} (h : j ≠ i) : (s.link d n i).inode j = s.inode j := by
  simp [link, h]

theorem unlink_inode_self :
    (s.unlink d n i).inode i = { s.inode i with nlink := (s.inode i).nlink - 1 } := by simp [unlink]

theorem unlink_inode_ne {j : ℕ} (h : j ≠ i) : (s.unlink d n i).inode j = s.inode j := by
  simp [unlink, h]

theorem sameFile_link (d : D) (n : String) (i j : ℕ) :
    SameFile (s.inode j) ((s.link d n i).inode j) := by
  by_cases hj : j = i
  · subst hj
    rw [s.link_inode_self]
    exact ⟨rfl, rfl, rfl⟩
  · exact .of_eq (s.link_inode_ne hj)

theorem sameFile_unlink (d : D) (n : String) (i j : ℕ) :
    SameFile (s.inode j) ((s.unlink d n i).inode j) := by
  by_cases hj : j = i
  · subst hj
    rw [s.unlink_inode_self]
    exact ⟨rfl, rfl, rfl⟩
  · exact .of_eq (s.unlink_inode_ne hj)

/-! ## A file written under a temporary name -/

theorem create_append (b : List UInt8) :
    (s.create d n i v).append i b = s.create d n i { v with content := v.content ++ b } := by
  simp [create, append, setInode, setEntry]

theorem create_chmod (mode : ℕ) :
    (s.create d n i v).chmod i mode = s.create d n i { v with mode := mode } := by
  simp [create, chmod, setInode, setEntry]

/-- A new file that is linked to its final name, and whose temporary name goes, is a new
    file under its final name. -/
theorem create_link_unlink (hne : d' = d → n' ≠ n) (hnone : s.entry d n = none) :
    ((s.create d n i v).link d' n' i).unlink d n i = s.create d' n' i v := by
  have hentry : (((s.create d n i v).link d' n' i).unlink d n i).entry =
      (s.create d' n' i v).entry := by
    funext d'' n''
    rw [unlink_entry, link_entry, create_entry, create_entry]
    by_cases h : d'' = d ∧ n'' = n
    · obtain ⟨rfl, rfl⟩ := h
      have h' : ¬(d'' = d' ∧ n'' = n') := fun h' => hne h'.1.symm h'.2.symm
      rw [if_pos ⟨rfl, rfl⟩, if_neg h', hnone]
    · rw [if_neg h, if_neg h]
  have hinode : (((s.create d n i v).link d' n' i).unlink d n i).inode =
      (s.create d' n' i v).inode := by
    funext j
    by_cases hj : j = i
    · subst hj
      rw [unlink_inode_self, link_inode_self, create_inode_self, create_inode_self]
      rfl
    · rw [unlink_inode_ne _ hj, link_inode_ne _ hj, create_inode_ne _ _ hj, create_inode_ne _ _ hj]
  exact FileSys.ext hinode hentry

theorem create_soleName (h : s.Unused i) : (s.create d n i v).SoleName d n i where
  named := s.create_entry_self d n i v
  only {d' n'} hn := by
    rw [create_entry] at hn
    by_cases heq : d' = d ∧ n' = n
    · exact heq
    · rw [if_neg heq] at hn
      exact absurd hn (h d' n')

theorem mode_link (d : D) (n : String) (i j : ℕ) :
    ((s.link d n i).inode j).mode = (s.inode j).mode := by
  by_cases hj : j = i
  · subst hj
    rw [s.link_inode_self]
  · rw [s.link_inode_ne hj]

theorem mode_unlink (d : D) (n : String) (i j : ℕ) :
    ((s.unlink d n i).inode j).mode = (s.inode j).mode := by
  by_cases hj : j = i
  · subst hj
    rw [s.unlink_inode_self]
  · rw [s.unlink_inode_ne hj]

end

end FileSys

end Files

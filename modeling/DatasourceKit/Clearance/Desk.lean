/-
  A file system that can run calls of `clear_legacy_process_tombstone`.

  * `Desk`: a file system as two tables; `Desk.files`: what it maps;
  * `Desk.act`: an operation without a failure; reads and writes are not cut short, and the
    names of `uuid4` are given;
  * `clearStep_of_act`: it is a step of the operating system.
-/
import Mathlib.Data.List.AList
import Mathlib.Data.List.Infix
import DatasourceKit.Clearance.Tombstone

namespace DatasourceKit

open Files ClearanceHost

/-- The names and the inodes of a file system, with the next answers for new inodes and for
    `uuid4`. -/
@[ext]
structure Desk where
  entries : AList fun _ : Dir × String => ℕ
  inodes : AList fun _ : ℕ => Inode
  next : ℕ
  uuids : List String

namespace Desk

/-- The file system of two tables; an inode that is not listed has no content. -/
def filesOf (entries : AList fun _ : Dir × String => ℕ) (inodes : AList fun _ : ℕ => Inode) :
    FileSys Dir where
  inode i := (inodes.lookup i).getD ⟨.other, 0, 0, 0, []⟩
  entry d n := entries.lookup (d, n)

section
variable {entries entries' : AList fun _ : Dir × String => ℕ} {inodes : AList fun _ : ℕ => Inode}

theorem filesOf_insert (i : ℕ) (v : Inode) :
    filesOf entries (inodes.insert i v) = (filesOf entries inodes).setInode i v := by
  refine FileSys.ext (funext fun j => ?_) rfl
  show ((inodes.insert i v).lookup j).getD _ = _
  by_cases hj : j = i
  · subst hj
    rw [AList.lookup_insert, FileSys.setInode_self, Option.getD_some]
  · rw [AList.lookup_insert_ne hj, FileSys.setInode_ne _ _ hj, filesOf]

/-- One name is set, or erased. -/
theorem filesOf_setEntry {d : Dir} {n : String} {o : Option ℕ}
    (hself : entries'.lookup (d, n) = o)
    (hne : ∀ {k}, k ≠ (d, n) → entries'.lookup k = entries.lookup k) :
    filesOf entries' inodes = (filesOf entries inodes).setEntry d n o := by
  refine FileSys.ext rfl (funext fun d' => funext fun n' => ?_)
  show entries'.lookup (d', n') = ite _ _ _
  split_ifs with h
  · obtain ⟨rfl, rfl⟩ := h
    exact hself
  · exact hne fun heq => h (Prod.mk.inj heq)

end

variable (t : Desk) {d : Dir} {n : String} {i : ℕ}

def files : FileSys Dir := filesOf t.entries t.inodes

/-- All that a desk consists of, in a form that can be compared. -/
def tables : List ((Dir × String) × ℕ) × List (ℕ × Inode) × ℕ × List String :=
  (t.entries.entries.map fun e => (e.1, e.2), t.inodes.entries.map fun e => (e.1, e.2), t.next,
    t.uuids)

theorem tables_injective : tables.Injective := by
  intro t t' h
  simp only [tables, Prod.mk.injEq] at h
  have hpair : ∀ {α β : Type}, (fun e : (_ : α) × β => (e.1, e.2)).Injective := by
    rintro α β ⟨a, b⟩ ⟨a', b'⟩ heq
    cases heq
    rfl
  exact Desk.ext (AList.ext (hpair.list_map h.1)) (AList.ext (hpair.list_map h.2.1)) h.2.2.1
    h.2.2.2

/-! ## Files -/

def setInode (i : ℕ) (v : Inode) : Desk := { t with inodes := t.inodes.insert i v }

def append (i : ℕ) (b : Bytes) : Desk :=
  t.setInode i { t.files.inode i with content := (t.files.inode i).content ++ b }

def chmod (i mode : ℕ) : Desk := t.setInode i { t.files.inode i with mode := mode }

/-- A new file under the next inode number. -/
def create (d : Dir) (n : String) (v : Inode) : Desk where
  entries := t.entries.insert (d, n) t.next
  inodes := t.inodes.insert t.next v
  next := t.next + 1
  uuids := t.uuids

def link (d : Dir) (n : String) (i : ℕ) : Desk :=
  { t.setInode i { t.files.inode i with nlink := (t.files.inode i).nlink + 1 } with
    entries := t.entries.insert (d, n) i }

def unlink (d : Dir) (n : String) (i : ℕ) : Desk :=
  { t.setInode i { t.files.inode i with nlink := (t.files.inode i).nlink - 1 } with
    entries := t.entries.erase (d, n) }

theorem files_setInode (i : ℕ) (v : Inode) : (t.setInode i v).files = t.files.setInode i v :=
  filesOf_insert i v

theorem files_create (v : Inode) : (t.create d n v).files = t.files.create d n t.next v := by
  rw [FileSys.create, ← files_setInode]
  exact filesOf_setEntry (AList.lookup_insert _) fun hne => AList.lookup_insert_ne hne

theorem files_link : (t.link d n i).files = t.files.link d n i := by
  rw [FileSys.link, ← files_setInode]
  exact filesOf_setEntry (AList.lookup_insert _) fun hne => AList.lookup_insert_ne hne

theorem files_unlink : (t.unlink d n i).files = t.files.unlink d n i := by
  rw [FileSys.unlink, ← files_setInode]
  exact filesOf_setEntry (AList.lookup_erase _ _) fun hne => AList.lookup_erase_ne hne

/-- No name leads to the inode. -/
def isUnused (i : ℕ) : Bool := t.entries.entries.all fun e => e.2 != i

/-- No name is in the directory. -/
def isEmpty (a : ℕ) : Bool := t.entries.keys.all fun k => k.1 != .sub a

/-- The names in the directory. -/
def inside (a : ℕ) : List String := (t.entries.keys.filter fun k => k.1 == .sub a).map Prod.snd

variable {t}

theorem mem_entries (h : t.files.entry d n = some i) : ⟨(d, n), i⟩ ∈ t.entries.entries :=
  AList.mem_lookup_iff.1 (Option.mem_def.2 h)

theorem unused (h : t.isUnused i = true) : t.files.Unused i := by
  intro d n hn
  have hne := List.all_eq_true.1 h _ (mem_entries hn)
  simp at hne

theorem mem_inside {a : ℕ} {n : String} :
    n ∈ t.inside a ↔ (t.files.entry (.sub a) n).isSome = true := by
  rw [files, filesOf, AList.lookup_isSome, AList.mem_keys]
  simp only [inside, List.mem_map, List.mem_filter, beq_iff_eq]
  constructor
  · rintro ⟨⟨d, n'⟩, ⟨hk, rfl⟩, rfl⟩
    exact hk
  · exact fun hk => ⟨(.sub a, n), ⟨hk, rfl⟩, rfl⟩

theorem entry_of_isEmpty {a : ℕ} (h : t.isEmpty a = true) (n : String) :
    t.files.entry (.sub a) n = none := by
  refine AList.lookup_eq_none.2 fun hk => ?_
  have hne := List.all_eq_true.1 h _ (AList.mem_keys.1 hk)
  simp at hne

theorem nodup_inside (a : ℕ) : (t.inside a).Nodup := by
  refine List.Nodup.map_on ?_ (t.entries.keys_nodup.filter _)
  simp only [List.mem_filter, beq_iff_eq]
  rintro ⟨d, n⟩ ⟨-, rfl⟩ ⟨d', n'⟩ ⟨-, rfl⟩ rfl
  rfl

/-! ## New names -/

/-- The bytes of a name, which the kernel finds faster than its characters. -/
def bytes (n : String) : Bytes := n.toByteArray.data.toList

theorem bytes_append (m n : String) : bytes (m ++ n) = bytes m ++ bytes n := by
  rw [bytes, String.toByteArray_append, ByteArray.data_append, Array.toList_append]
  rfl

theorem infix_quarantineName (sha u : String) : bytes u <:+: bytes (quarantineName sha u) :=
  ⟨bytes (".legacy-pid." ++ sha ++ "."), bytes ".quarantine", by
    simp only [quarantineName, bytes_append]⟩

theorem infix_tmpName (u : String) : bytes u <:+: bytes (tmpName u) :=
  ⟨bytes ".tmp-", [], by rw [tmpName, bytes_append, List.append_nil]⟩

section
variable [ClearanceHost]

/-- The quarantine that a file mentions. -/
def mentioned (c : Content) : String :=
  match c with
  | .doc d => match d.get "quarantine" with
    | .str q => q
    | _ => ""
  | _ => ""

/-- Neither a name nor a file mentions `u`. -/
def isFresh (t : Desk) (u : String) : Bool :=
  t.entries.entries.all fun e => !decide (bytes u <:+: bytes e.1.2) &&
    !decide (bytes u <:+: bytes (mentioned (loads (t.files.inode e.2).content)))

theorem freshUuid {u : String} (h : t.isFresh u = true) : FreshUuid t.files u := by
  have hlisted : ∀ {d n i}, t.files.entry d n = some i → ¬bytes u <:+: bytes n ∧
      ¬bytes u <:+: bytes (mentioned (loads (t.files.inode i).content)) := by
    intro d n i hn
    simpa using List.all_eq_true.1 h _ (mem_entries hn)
  have hnone : ∀ {d n}, bytes u <:+: bytes n → t.files.entry d n = none := by
    intro d n hu
    rcases hn : t.files.entry d n with _ | i
    · rfl
    · exact absurd hu (hlisted hn).1
  refine ⟨fun sha => ⟨hnone (infix_quarantineName sha u), ?_⟩, fun a => hnone (infix_tmpName u)⟩
  intro a n j d _ hj hd hq
  have hmentioned := (hlisted hj).2
  rw [hd, mentioned, hq] at hmentioned
  exact hmentioned (infix_quarantineName sha u)

/-! ## Operations -/

/-- `open` of a file that is there. -/
def opened {α : Type} (mode : OpenMode) (k : Kind) (a : α) : Except Exc α :=
  match openAnswer mode k with
  | none => .ok a
  | some e => .error e

/-- The operation, with the path of the unit directory; `none` where the next inode number or
    the next name is not new. -/
def act (path : List Stat) : (o : ClearOp) → Desk → Option (Except Exc o.Val × Desk)
  | .openPart k, t => some (match path[k]? with
    | none => .error .notFound
    | some st => opened .directory st.kind (), t)
  | .openFile d n mode, t => some (match t.files.entry d n with
    | none => .error .notFound
    | some i => opened mode (t.files.inode i).kind i, t)
  | .create d n, t =>
    if t.files.entry d n = none then
      if t.isUnused t.next = true then
        some (.ok t.next, t.create d n ⟨.regular, euid, 0o600, 1, []⟩)
      else none
    else some (.error .fileExists, t)
  | .mkdir n, t =>
    if t.files.entry .unit n = none then
      if t.isUnused t.next = true ∧ t.isEmpty t.next = true then
        some (.ok (), t.create .unit n ⟨.directory, euid, 0o700, 2, []⟩)
      else none
    else some (.error .fileExists, t)
  | .fstat (.file i), t => some (.ok (t.files.stat i), t)
  | .fstat (.part k), t => some (match path[k]? with
    | some st => .ok st
    | none => .error (.fault .ioError), t)
  | .stat n, t => some (match statNamed path t.files n with
    | some st => .ok st
    | none => .error .notFound, t)
  | .listdir a, t => some (.ok (t.inside a), t)
  | .link d src dst, t =>
    match t.files.entry d src with
    | none => some (.error .notFound, t)
    | some i =>
      if t.files.entry d dst = none then some (.ok (), t.link d dst i)
      else some (.error .fileExists, t)
  | .unlink d n, t =>
    match t.files.entry d n with
    | none => some (.error .notFound, t)
    | some i => some (.ok (), t.unlink d n i)
  | .read i offset n, t =>
    match (t.files.inode i).kind with
    | .regular => some (.ok (((t.files.inode i).content.drop offset).take n), t)
    | .directory => some (.error .isDirectory, t)
    | _ => some (.ok [], t)
  | .write i b, t => some (.ok b.length, t.append i b)
  | .fchmod i mode, t => some (.ok (), t.chmod i mode)
  | .quiet .., t => some (.ok (), t)
  | .uuid, t =>
    match t.uuids with
    | [] => none
    | u :: l =>
      if u.length = 32 ∧ isHex u.toList = true ∧ t.isFresh u = true then
        some (.ok u, { t with uuids := l })
      else none

variable {path : List Stat} {o : ClearOp} {r : Except Exc o.Val} {t' : Desk}

theorem clearEffect_of_act {env : ClearEnv} (h : t.act env.path o = some (r, t')) :
    ClearEffect env o t.files r t'.files := by
  cases o with
  | openPart k =>
    cases h
    refine ⟨rfl, ?_⟩
    rcases env.path[k]? with _ | st <;> rfl
  | openFile d n mode =>
    cases h
    refine ⟨rfl, ?_⟩
    rcases t.files.entry d n with _ | i <;> rfl
  | create d n =>
    simp only [act] at h
    simp only [ClearEffect]
    split_ifs at h ⊢ with hn hu
    · cases h
      exact ⟨t.next, 0o600, unused hu, by decide, rfl, t.files_create _⟩
    · cases h
      exact ⟨rfl, rfl⟩
  | mkdir n =>
    simp only [act] at h
    simp only [ClearEffect]
    split_ifs at h ⊢ with hn hu
    · cases h
      exact ⟨t.next, 0o700, unused hu.1, entry_of_isEmpty hu.2, by decide, rfl, t.files_create _⟩
    · cases h
      exact ⟨rfl, rfl⟩
  | fstat fd =>
    cases fd with
    | file i =>
      cases h
      exact ⟨rfl, rfl⟩
    | part k =>
      cases h
      refine ⟨rfl, ?_⟩
      rcases env.path[k]? with _ | st <;> rfl
  | stat n =>
    cases h
    refine ⟨rfl, ?_⟩
    rcases statNamed env.path t.files n with _ | st <;> rfl
  | listdir a =>
    cases h
    exact ⟨rfl, _, nodup_inside a, fun n => mem_inside, rfl⟩
  | link d src dst =>
    simp only [act] at h
    simp only [ClearEffect]
    rcases hsrc : t.files.entry d src with _ | i
    · simp only [hsrc] at h
      cases h
      exact ⟨rfl, rfl⟩
    · simp only [hsrc] at h
      show ite _ _ _
      split_ifs at h ⊢ with hn
      · cases h
        exact ⟨rfl, t.files_link⟩
      · cases h
        exact ⟨rfl, rfl⟩
  | unlink d n =>
    simp only [act] at h
    simp only [ClearEffect]
    rcases hn : t.files.entry d n with _ | i
    · simp only [hn] at h
      cases h
      exact ⟨rfl, rfl⟩
    · simp only [hn] at h
      cases h
      exact ⟨rfl, t.files_unlink⟩
  | read i offset n =>
    simp only [act] at h
    simp only [ClearEffect]
    rcases hkind : (t.files.inode i).kind with _ | _ | _ | _
    all_goals simp only [hkind] at h
    · cases h
      exact ⟨rfl, _, ⟨List.take_prefix _ _, List.length_take_le _ _, fun hnil =>
        (List.take_eq_nil_iff.1 hnil).symm⟩, rfl⟩
    · cases h
      exact ⟨rfl, rfl⟩
    all_goals
      cases h
      exact ⟨rfl, [], Nat.zero_le n, rfl⟩
  | write i b =>
    cases h
    refine ⟨b.length, le_rfl, fun hb => .inl (List.length_eq_zero_iff.1 hb), rfl, ?_⟩
    rw [List.take_length]
    exact t.files_setInode i _
  | fchmod i mode =>
    cases h
    exact ⟨rfl, t.files_setInode i _⟩
  | quiet c fd =>
    cases h
    exact ⟨rfl, rfl⟩
  | uuid =>
    simp only [act] at h
    rcases huuids : t.uuids with _ | ⟨u, l⟩
    · simp only [huuids] at h
      cases h
    · simp only [huuids] at h
      split_ifs at h with hu
      cases h
      exact ⟨rfl, u, hu.1, hu.2.1, fun _ => freshUuid hu.2.2, rfl⟩

/-- What the desk does is a step of the operating system. -/
theorem clearStep_of_act {env : ClearEnv} (h : t.act env.path o = some (r, t')) :
    ClearStep env o t.files r t'.files := .inl (clearEffect_of_act h)

end

end Desk

end DatasourceKit

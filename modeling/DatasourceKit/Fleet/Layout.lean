/-
  Where a reconciler keeps its files: `_validate_unit` (`fleet/process.py`), `unit_dir`
  and `_lock_path` (`fleet/state.py`).

  * `Path`: what `pathlib` makes of a string, its root and its components;
  * `validateUnit_iff`: the accepted names are the single components other than `.` and
    `..`;
  * `Separated`: the directory of a unit is apart from those of all other units and from
    the supervisor lock, and making it does not stand in the way of `acquire_lock`;
  * `separated_iff`: the only unit whose directory is not is `supervisor.lock`.
-/
import Mathlib.Data.List.Infix
import DatasourceKit.Fleet.SupervisorLock

namespace DatasourceKit.Layout

open Interleave Interleave.Prog

/-! ## Paths -/

/-- A `PurePosixPath`: `/`, `//` or nothing, and the components. -/
structure Path where
  root : String
  parts : List String
deriving DecidableEq

namespace Path

def rootOf : List Char → String
  | '/' :: '/' :: '/' :: _ => "/"
  | '/' :: '/' :: _ => "//"
  | '/' :: _ => "/"
  | _ => ""

/-- `Path(s)`. -/
def parse (s : String) : Path where
  root := rootOf s.toList
  parts := ((s.toList.splitOn '/').map String.ofList).filter fun c => c ≠ "" ∧ c ≠ "."

/-- `p / s`. -/
def join (p : Path) (s : String) : Path :=
  let q := parse s
  if q.root = "" then ⟨p.root, p.parts ++ q.parts⟩ else q

/-- `p.name`. -/
def name (p : Path) : String := p.parts.getLast?.getD ""

/-- `p.parent`. -/
def parent (p : Path) : Path := ⟨p.root, p.parts.dropLast⟩

/-- `q` is `p`, or below it. -/
def Contains (p q : Path) : Prop := p.root = q.root ∧ p.parts <+: q.parts

/-- The path and the directories above it. -/
def upTo (p : Path) : List Path := p.parts.inits.map fun l => ⟨p.root, l⟩

theorem mem_upTo {p q : Path} : q ∈ p.upTo ↔ q.Contains p := by
  simp only [upTo, List.mem_map, List.mem_inits, Contains]
  constructor
  · rintro ⟨l, hl, rfl⟩
    exact ⟨rfl, hl⟩
  · rintro ⟨hr, hp⟩
    exact ⟨q.parts, hp, by cases q; cases hr; rfl⟩

theorem Contains.refl (p : Path) : p.Contains p := ⟨rfl, List.prefix_refl _⟩

end Path

/-- No component of a path has a slash. -/
theorem notMem_parts {s c : String} (h : c ∈ (Path.parse s).parts) : '/' ∉ c.toList := by
  obtain ⟨hc, -⟩ := List.mem_filter.1 h
  obtain ⟨l, hl, rfl⟩ := List.mem_map.1 hc
  rw [String.toList_ofList]
  clear hc h
  generalize s.toList = cs at hl
  induction cs generalizing l with
  | nil => simp_all
  | cons c cs ih =>
    rw [List.splitOn_cons_eq_if_modifyHead] at hl
    obtain ⟨l', ls, hls⟩ := List.exists_cons_of_ne_nil (List.splitOn_ne_nil '/' cs)
    rw [hls] at hl ih
    split_ifs at hl with hsep
    · rcases List.mem_cons.1 hl with rfl | hl
      · simp
      · exact ih l hl
    · rcases List.mem_cons.1 hl with rfl | hl
      · simp only [beq_iff_eq] at hsep
        simp [Ne.symm hsep, ih l' (List.mem_cons_self ..)]
      · exact ih l (List.mem_cons_of_mem _ hl)

/-- What `pathlib` makes of a single component. -/
theorem parse_component {s : String} (h : '/' ∉ s.toList) (hne : s ≠ "") (hdot : s ≠ ".") :
    Path.parse s = ⟨"", [s]⟩ := by
  have hroot : Path.rootOf s.toList = "" := by
    unfold Path.rootOf
    split <;> simp_all
  simp [Path.parse, hroot, List.splitOn_eq_singleton h, hne, hdot]

/-! ## The lock path and the tree -/

def lockFile : String := "supervisor.lock"

def lockPath (root : Path) : Path := root.join lockFile

theorem lockPath_eq (root : Path) : lockPath root = ⟨root.root, root.parts ++ [lockFile]⟩ := by
  have hparse : Path.parse lockFile = ⟨"", [lockFile]⟩ := by decide
  simp [lockPath, Path.join, hparse]

inductive Node where
  | dir
  | file (c : Content)

def Node.isFile : Node → Bool
  | dir => false
  | file _ => true

/-- What is at each path. -/
abbrev Tree := Path → Option Node

/-- `p.mkdir(parents=True, exist_ok=True)`. -/
def Tree.mkdirs (t : Tree) (p : Path) : Except Exc Tree :=
  if (t p).any Node.isFile then .error .fileExists
  else if p.upTo.any fun q => (t q).any Node.isFile then .error (.fault .ioError)
  else .ok fun q => if q ∈ p.upTo then some .dir else t q

/-- A step of the process `pid`, on the host `host`, on the lock of the reconciler at
    `root`. -/
def LockStep (root : Path) (host : String) (pid : ℤ) :
    (o : LockOp) → Tree → Except Exc o.Val → Tree → Prop
  | .mkdir, t, r, t' => (t.mkdirs root = .ok t' ∧ r = .ok ()) ∨
    (∃ e, t.mkdirs root = .error e ∧ r = .error e ∧ t' = t)
  | .time, t, r, t' => (∃ now, r = .ok now) ∧ t' = t
  | .getpid, t, r, t' => r = .ok pid ∧ t' = t
  | .gethostname, t, r, t' => r = .ok host ∧ t' = t
  | .create, t, r, t' =>
    (t (lockPath root) = none ∧ (∃ fd, r = .ok fd) ∧
      t' = Function.update t (lockPath root) (some (.file .malformed))) ∨
    ((t (lockPath root)).isSome ∧ r = .error .fileExists ∧ t' = t)
  | .dump _ body, t, r, t' => r = .ok () ∧
    t' = Function.update t (lockPath root) (some (.file (.doc body)))
  | .read, t, r, t' => t' = t ∧ r = match t (lockPath root) with
    | none => .error .notFound
    | some .dir => .error .isDirectory
    | some (.file c) => .ok c
  | .probe _, t, r, t' => (∃ b, r = .ok b) ∧ t' = t
  | .unlink, t, r, t' =>
    match t (lockPath root) with
    | none => r = .error .notFound ∧ t' = t
    | some .dir => r = .error .isDirectory ∧ t' = t
    | some (.file _) => r = .ok () ∧ t' = Function.update t (lockPath root) none

section
variable {root d : Path} {u : String} {t t' : Tree}

theorem mkdirs_ok (h : t.mkdirs d = .ok t') :
    t' = fun q => if q ∈ d.upTo then some .dir else t q := by
  unfold Tree.mkdirs at h
  split_ifs at h
  cases h
  rfl

/-- Directories that exist are left as they are. -/
theorem mkdirs_of_dirs (h : ∀ q ∈ d.upTo, t q = some .dir) : t.mkdirs d = .ok t := by
  have hself := h d (Path.mem_upTo.2 (.refl d))
  have hany : (d.upTo.any fun q => (t q).any Node.isFile) = false := by
    rw [List.any_eq_false]
    intro q hq
    rw [h q hq]
    simp [Node.isFile]
  unfold Tree.mkdirs
  rw [hself, hany]
  simp only [Option.any_some, Node.isFile, Bool.false_eq_true, if_false]
  congr 1
  funext q
  split_ifs with hq
  · exact (h q hq).symm
  · rfl

end

/-! ## Unit directories -/

section
variable [StrRepr]

def validateUnit (unit : String) : Except Exc String :=
  if unit = "" ∨ unit ∈ [".", ".."] ∨ (Path.parse unit).name ≠ unit ∨
      Char.ofNat 0 ∈ unit.toList then
    .error (.valueError ("unit must be one safe path component, got " ++ StrRepr.repr unit))
  else .ok unit

def unitDir (root : Path) (unit : String) : Except Exc Path := (validateUnit unit).map root.join

theorem validateUnit_iff {u v : String} : validateUnit u = .ok v ↔
    v = u ∧ u ≠ "" ∧ u ≠ "." ∧ u ≠ ".." ∧ '/' ∉ u.toList ∧ Char.ofNat 0 ∉ u.toList := by
  have hname : u ≠ "" → u ≠ "." → ((Path.parse u).name = u ↔ '/' ∉ u.toList) := by
    intro hne hdot
    constructor
    · intro h
      have hlast : u ∈ (Path.parse u).parts := by
        unfold Path.name at h
        cases hl : (Path.parse u).parts.getLast? with
        | none =>
          rw [hl] at h
          exact absurd h.symm hne
        | some c =>
          rw [hl] at h
          obtain rfl : c = u := h
          exact List.mem_of_getLast? hl
      exact notMem_parts hlast
    · intro h
      rw [parse_component h hne hdot]
      rfl
  unfold validateUnit
  constructor
  · intro h
    split_ifs at h with hc
    cases h
    simp only [List.mem_cons, List.not_mem_nil, or_false, not_or, ne_eq, not_not] at hc
    obtain ⟨hne, ⟨hdot, hdots⟩, hlast, hnul⟩ := hc
    exact ⟨rfl, hne, hdot, hdots, (hname hne hdot).1 hlast, hnul⟩
  · rintro ⟨rfl, hne, hdot, hdots, hslash, hnul⟩
    rw [if_neg]
    simp only [List.mem_cons, List.not_mem_nil, or_false, not_or, ne_eq, not_not]
    exact ⟨hne, ⟨hdot, hdots⟩, (hname hne hdot).2 hslash, hnul⟩

/-- The directory of an accepted unit. -/
theorem unitDir_ok {root d : Path} {u : String} (h : unitDir root u = .ok d) :
    d = ⟨root.root, root.parts ++ [u]⟩ := by
  unfold unitDir at h
  cases hv : validateUnit u with
  | error e => rw [hv] at h; cases h
  | ok v =>
    rw [hv] at h
    cases h
    obtain ⟨rfl, hne, hdot, -, hslash, -⟩ := validateUnit_iff.1 hv
    simp [Path.join, parse_component hslash hne hdot]


/-- `acquire_lock` of the reconciler at `root` succeeds on the tree. -/
def Acquires (root : Path) (t : Tree) : Prop := ∀ host pid payload fuel,
  (acquireLock payload (fuel + 1)).Always (LockStep root host pid) (fun _ _ => True)
    (fun body t' => t' (lockPath root) = some (.file (.doc body)) ∧ body.get "pid" = .int pid)
      (fun _ _ => False) t

/-- The directory `d` of the unit `u` is a child of the root, apart from those of the other
    units and from the lock, and making it leaves a free lock free. -/
structure Separated (root : Path) (u : String) (d : Path) : Prop where
  child : d.parent = root ∧ d ≠ root
  apart : ∀ v d', unitDir root v = .ok d' → v ≠ u → d ≠ d' ∧ ¬ d.Contains d' ∧ ¬ d'.Contains d
  lock : d ≠ lockPath root
  keepsLock : ∀ t t', Tree.mkdirs t d = .ok t' → t' (lockPath root) = t (lockPath root)
  acquires : ∀ t t', Tree.mkdirs t d = .ok t' → t (lockPath root) = none → Acquires root t'

section
omit [StrRepr]
variable {root : Path} {t : Tree} {host : String} {pid : ℤ} {payload : Dict} {fuel : ℕ}
  {Q : Dict → Tree → Prop} {E : Exc → Tree → Prop}

theorem always_treeStep {o : LockOp} {Q : o.Val → Tree → Prop}
    (hok : ∀ v t', LockStep root host pid o t (.ok v) t' → Q v t')
    (herr : ∀ e t', ¬ LockStep root host pid o t (.error e) t') :
    (perform o).Always (LockStep root host pid) (fun _ _ => True) Q E t :=
  always_perform.2 ⟨trivial, hok, fun e t' h => (herr e t' h).elim⟩

theorem always_treeAttempt {o : LockOp} {Q : Except Exc o.Val → Tree → Prop}
    (h : ∀ r t', LockStep root host pid o t r t' → Q r t') :
    (attempt o).Always (LockStep root host pid) (fun _ _ => True) Q E t :=
    always_attempt.2 ⟨trivial, h⟩

/-- `acquire_lock` comes to its loop, where the root is a directory. -/
theorem always_acquireTree (hdirs : ∀ q ∈ root.upTo, t q = some .dir)
    (h : ∀ body : Dict, body.get "pid" = .int pid →
      (acquireLoop body fuel).Always (LockStep root host pid) (fun _ _ => True) Q E t) :
    (acquireLock payload fuel).Always (LockStep root host pid) (fun _ _ => True) Q E t := by
  have hmk := mkdirs_of_dirs hdirs
  refine always_bind.2 (always_treeStep ?_ ?_)
  · rintro - t' (⟨ht, -⟩ | ⟨e, he, -⟩)
    · obtain rfl := Except.ok.inj (hmk.symm.trans ht)
      refine always_bind.2 (always_treeStep ?_ fun e t' h => by cases h.1.choose_spec)
      rintro now t' ⟨-, rfl⟩
      refine always_bind.2 (always_treeStep ?_ fun e t' h => by cases h.1)
      rintro own t' ⟨hown, rfl⟩
      cases hown
      refine always_bind.2 (always_treeStep ?_ fun e t' h => by cases h.1)
      rintro name t' ⟨-, rfl⟩
      refine h _ ?_
      rw [Dict.get_set_ne _ _ (by decide), Dict.get_set_self]
    · rw [hmk] at he
      cases he
  · rintro e t' (⟨-, he⟩ | ⟨e', ht, -, -⟩)
    · cases he
    · rw [hmk] at ht
      cases ht

/-- A free lock can be acquired. -/
theorem acquires_of_free (hdirs : ∀ q ∈ root.upTo, t q = some .dir)
    (hfree : t (lockPath root) = none) :
    Acquires root t := by
  intro host pid payload fuel
  refine always_acquireTree hdirs fun body hpid => always_bind.2 (always_treeAttempt ?_)
  rintro r t' (⟨-, ⟨fd, rfl⟩, rfl⟩ | ⟨hsome, -⟩)
  · refine always_bind.2 (always_treeStep ?_ fun e t' h => by cases h.1)
    rintro - t' ⟨-, rfl⟩
    exact ⟨Function.update_self .., hpid⟩
  · rw [hfree] at hsome
    cases hsome

/-- No lock is acquired where a directory has its name. -/
theorem always_blocked (hdirs : ∀ q ∈ root.upTo, t q = some .dir)
    (hdir : t (lockPath root) = some .dir) :
    (acquireLock payload (fuel + 1)).Always (LockStep root host pid) (fun _ _ => True)
    (fun _ _ => False) (fun e _ => e = .isDirectory) t := by
  refine always_acquireTree hdirs fun body _ => always_bind.2 (always_treeAttempt ?_)
  rintro r t' (⟨hnone, -⟩ | ⟨-, rfl, rfl⟩)
  · rw [hdir] at hnone
    cases hnone
  refine always_bind.2 (always_bind.2 (always_treeAttempt ?_))
  rintro r t' ⟨rfl, hr⟩
  rw [hdir] at hr
  subst hr
  refine (always_bind (p := attempt LockOp.unlink)).2 (always_treeAttempt fun r t'' h => ?_)
  simp only [LockStep, hdir] at h
  obtain ⟨rfl, rfl⟩ := h
  rfl

theorem exists_treeStep (o : LockOp) : ∃ r t', LockStep root host pid o t r t' := by
  cases o
  case mkdir =>
    cases hm : t.mkdirs root with
    | ok t' => exact ⟨_, t', .inl ⟨hm, rfl⟩⟩
    | error e => exact ⟨_, t, .inr ⟨e, hm, rfl, rfl⟩⟩
  case time => exact ⟨_, t, ⟨0, rfl⟩, rfl⟩
  case getpid | gethostname | dump | read => exact ⟨_, _, by constructor <;> rfl⟩
  case create =>
    cases hl : t (lockPath root) with
    | none => exact ⟨_, _, .inl ⟨hl, ⟨0, rfl⟩, rfl⟩⟩
    | some n => exact ⟨_, t, .inr ⟨by rw [hl]; rfl, rfl, rfl⟩⟩
  case probe => exact ⟨_, t, ⟨true, rfl⟩, rfl⟩
  case unlink =>
    simp only [LockStep]
    split <;> exact ⟨_, _, rfl, rfl⟩

end

omit [StrRepr] in
theorem contains_child {root d d' : Path} {u v : String} (hd : d = ⟨root.root, root.parts ++ [u]⟩)
    (hd' : d' = ⟨root.root, root.parts ++ [v]⟩) (h : d.Contains d') : u = v := by
  subst hd hd'
  have heq := h.2.eq_of_length (by simp)
  simpa using heq

/-- **The directory of a unit is apart from everything else under the root, unless the
    unit has the name of the supervisor lock.** -/
theorem separated_iff {root d : Path} {u : String} (h : unitDir root u = .ok d) :
    Separated root u d ↔ u ≠ lockFile := by
  have hd := unitDir_ok h
  constructor
  · rintro hsep rfl
    exact hsep.lock (hd.trans (lockPath_eq root).symm)
  · intro hne
    have hlock : lockPath root ∉ d.upTo := fun hmem =>
      hne (contains_child (lockPath_eq root) hd (Path.mem_upTo.1 hmem)).symm
    have hkeep : ∀ t t', Tree.mkdirs t d = .ok t' → t' (lockPath root) = t (lockPath root) := by
      intro t t' ht
      rw [mkdirs_ok ht]
      exact if_neg hlock
    refine ⟨?_, ?_, ?_, hkeep, ?_⟩
    · rw [hd]
      exact ⟨by simp [Path.parent], fun heq => by simpa using congrArg (List.length ∘ Path.parts) heq⟩
    · intro v d' hv hvu
      have hd' := unitDir_ok hv
      refine ⟨?_, fun hc => hvu (contains_child hd hd' hc).symm, fun hc =>
        hvu (contains_child hd' hd hc)⟩
      rintro rfl
      exact hvu (contains_child hd' hd (.refl _))
    · intro heq
      exact hlock (heq ▸ Path.mem_upTo.2 (.refl _))
    · intro t t' ht hfree
      refine acquires_of_free (fun q hq => ?_) ((hkeep t t' ht).trans hfree)
      obtain ⟨hr, hp⟩ := Path.mem_upTo.1 hq
      have hmem : q ∈ d.upTo :=
        Path.mem_upTo.2 ⟨by rw [hd]; exact hr, by rw [hd]; exact hp.trans (List.prefix_append ..)⟩
      rw [mkdirs_ok ht]
      exact if_pos hmem

end

local instance plainRepr : StrRepr := ⟨fun s => s⟩

theorem separated_worker : Separated ⟨"/", ["srv"]⟩ "worker" ⟨"/", ["srv", "worker"]⟩ :=
  (separated_iff (by decide)).2 (by decide)

/-- **The unit `supervisor.lock` stands in the way of the supervisor.** -/
theorem lock_not_separated : ¬ ∀ (root d : Path) (u : String), unitDir root u = .ok d →
    Separated root u d := by
  intro h
  have hsep := h ⟨"/", []⟩ ⟨"/", [lockFile]⟩ lockFile (by decide)
  -- the directory of the unit is made under an empty root
  have hgets := hsep.acquires (fun _ => none) _ rfl rfl "a" 1 ∅ 0
  have hraises : (acquireLock ∅ 1).Always (LockStep ⟨"/", []⟩ "a" 1) (fun _ _ => True)
      (fun _ _ => False) (fun e _ => e = .isDirectory) fun q =>
      if q ∈ Path.upTo ⟨"/", [lockFile]⟩ then some .dir else none := by
    refine always_blocked (fun q hq => if_pos ?_) (if_pos (by decide))
    obtain rfl := List.mem_singleton.1 hq
    decide
  obtain ⟨_, _, -, hf⟩ | ⟨_, _, hf, -⟩ := (hgets.and hraises).exists_end (J := fun _ => True)
    (fun o t _ _ => (exists_treeStep o).imp fun _ h => h.imp fun _ h => ⟨h, trivial⟩) trivial
  · exact hf
  · exact hf

end DatasourceKit.Layout

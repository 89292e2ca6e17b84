/-
  What the functions of a legacy clearance do to the file system.

  Each specification lists the ways its function may end.  `hf` is about an operation that
  fails; the other hypotheses about exceptions say why one is raised.

  * `always_clearOp`, and a rule for every operation;
  * `always_readRegularFd`, `always_openPrivateNamed`, `always_recoverAuditLink`: what is
    read is there, and one temporary name may go;
  * `always_atomicPrivateJson`: a record appears under its name at once.
-/
import DatasourceKit.Clearance.Tombstone

namespace DatasourceKit

open Interleave Prog Files ClearanceHost

variable [ClearanceHost] {env : ClearEnv} {G : ClearOp → FileSys Dir → Prop}
  {E : Exc → FileSys Dir → Prop} {s : FileSys Dir}

/-! ## Operations -/

/-- An operation has its effect, or fails without one. -/
theorem always_clearOp {o : ClearOp} {Q : o.Val → FileSys Dir → Prop} (hg : G o s)
    (hf : ∀ f s', env.faulty → E (.fault f) s')
    (hok : ∀ v s', ClearEffect env o s (.ok v) s' → Q v s')
    (herr : ∀ e s', ClearEffect env o s (.error e) s' → E e s') :
    (perform o).Always (ClearStep env) G Q E s := by
  refine always_perform.2 ⟨hg, fun v s' h => ?_, fun e s' h => ?_⟩
  · rcases h with h | ⟨-, -, f, hf⟩
    · exact hok v s' h
    · cases hf
  · rcases h with h | ⟨hfaulty, rfl, f, hf'⟩
    · exact herr e s' h
    · cases hf'
      exact hf f _ hfaulty

theorem always_require {c : Bool} {msg : String} {Q : Unit → FileSys Dir → Prop}
    (hok : c = true → Q () s) (hbad : c = false → E (.tombstone msg) s) :
    (require c msg).Always (ClearStep env) G Q E s := by
  cases c with
  | false => exact hbad rfl
  | true => exact hok rfl

theorem always_loadsOr {msg : String} {raw : Bytes} {Q : Content → FileSys Dir → Prop}
    (hok : loads raw ≠ .overlong → Q (loads raw) s)
    (hbad : loads raw = .malformed ∨ loads raw = .undecodable → E (.tombstone msg) s)
    (hlong : loads raw = .overlong → ∀ m, E (.valueError m) s) :
    (loadsOr msg raw).Always (ClearStep env) G Q E s := by
  unfold loadsOr
  split
  · next hc => exact hbad (.inl hc)
  · next hc => exact hbad (.inr hc)
  · next hc => exact hlong hc _
  · next hc => exact hok hc

/-- What `open` refuses is not private. -/
theorem isPrivate_of_refused {d : Bool} (allowed : List ℕ) {i : ℕ} {e : Exc}
    (h : openAnswer (if d then .directory else .read) (s.inode i).kind = some e) :
    isPrivate (s.stat i) d allowed = false ∧ e ≠ .notFound := by
  cases d <;> rcases hk : (s.inode i).kind <;> simp_all [openAnswer, isPrivate] <;> cases h <;> simp

section
variable {n : ℕ} {got chunk b : Bytes}
omit [ClearanceHost]

/-- The parts of a file that are delivered one after the other. -/
theorem Chunk.extends (hgot : got <+: b) (h : Chunk (b.drop got.length) n chunk) :
    got ++ chunk <+: b := by
  have hdrop := List.prefix_append_right_inj got |>.2 h.front
  rwa [List.prefix_iff_eq_append.1 hgot] at hdrop

/-- Nothing is delivered only where everything was, or nothing is asked for. -/
theorem Chunk.complete (hgot : got <+: b) (h : Chunk (b.drop got.length) n [])
    (hn : 0 < n) : got = b := by
  have hend := (h.eof rfl).resolve_right hn.ne'
  exact hgot.eq_of_length_le (List.drop_eq_nil_iff.1 hend)

end

section
variable (hG : ∀ o s, o.reads = true → G o s) (hf : ∀ f s', env.faulty → E (.fault f) s')
include hG hf

theorem always_quietOp {c : Quiet} {fd : Fd} {Q : Unit → FileSys Dir → Prop} (h : Q () s) :
    (Os.quiet c fd).Always (ClearStep env) G Q E s := by
  refine always_clearOp (hG _ _ rfl) hf ?_ ?_
  · rintro v s' ⟨-, rfl⟩
    exact h
  · rintro e s' ⟨he, -⟩
    cases he

theorem always_fstat {i : ℕ} {Q : Stat → FileSys Dir → Prop} (h : Q (s.stat i) s) :
    (Os.fstat (.file i)).Always (ClearStep env) G Q E s := by
  refine always_clearOp (hG _ _ rfl) hf ?_ ?_
  · rintro v s' ⟨rfl, hv⟩
    cases hv
    exact h
  · rintro e s' ⟨-, he⟩
    cases he

theorem always_stat {n : Named} {Q : Stat → FileSys Dir → Prop}
    (hsome : ∀ st, statNamed env.path s n = some st → Q st s)
    (hnone : statNamed env.path s n = none → E .notFound s) :
    (Os.stat n).Always (ClearStep env) G Q E s := by
  rcases hst : statNamed env.path s n with _ | st
  · refine always_clearOp (hG _ _ rfl) hf ?_ ?_
    · rintro v s' ⟨-, hv⟩
      rw [hst] at hv
      cases hv
    · rintro e s' ⟨rfl, he⟩
      rw [hst] at he
      cases he
      exact hnone hst
  · refine always_clearOp (hG _ _ rfl) hf ?_ ?_
    · rintro v s' ⟨rfl, hv⟩
      rw [hst] at hv
      cases hv
      exact hsome st hst
    · rintro e s' ⟨-, he⟩
      rw [hst] at he
      cases he

/-- `os.stat` of a name in a directory. -/
theorem always_stat_entry {d : Dir} {n : String} {Q : Stat → FileSys Dir → Prop}
    (hsome : ∀ i, s.entry d n = some i → Q (s.stat i) s)
    (hnone : s.entry d n = none → E .notFound s) :
    (Os.stat (.entry d n)).Always (ClearStep env) G Q E s := by
  refine always_stat hG hf (fun st hst => ?_) fun hst => ?_
  · obtain ⟨i, hi, rfl⟩ := Option.map_eq_some_iff.1 hst
    exact hsome i hi
  · exact hnone (Option.map_eq_none_iff.1 hst)

theorem always_openFile {d : Dir} {n : String} {mode : OpenMode} {Q : ℕ → FileSys Dir → Prop}
    (hok : ∀ i, s.entry d n = some i → openAnswer mode (s.inode i).kind = none → Q i s)
    (hnone : s.entry d n = none → E .notFound s)
    (hbad : ∀ i e, s.entry d n = some i → openAnswer mode (s.inode i).kind = some e → E e s) :
    (Os.openFile d n mode).Always (ClearStep env) G Q E s := by
  rcases hn : s.entry d n with _ | i
  · refine always_clearOp (hG _ _ rfl) hf ?_ ?_
    · rintro v s' ⟨-, hv⟩
      rw [hn] at hv
      cases hv
    · rintro e s' ⟨rfl, he⟩
      rw [hn] at he
      cases he
      exact hnone hn
  rcases ha : openAnswer mode (s.inode i).kind with _ | e'
  · refine always_clearOp (hG _ _ rfl) hf ?_ ?_
    · rintro v s' ⟨rfl, hv⟩
      simp only [hn, ha] at hv
      cases hv
      exact hok _ hn ha
    · rintro e s' ⟨-, he⟩
      simp only [hn, ha] at he
      cases he
  · refine always_clearOp (hG _ _ rfl) hf ?_ ?_
    · rintro v s' ⟨-, hv⟩
      simp only [hn, ha] at hv
      cases hv
    · rintro e s' ⟨rfl, he⟩
      simp only [hn, ha] at he
      cases he
      exact hbad i _ hn ha

theorem always_uuid {Q : String → FileSys Dir → Prop}
    (h : ∀ u : String, u.length = 32 → isHex u.toList = true →
      (env.unique → FreshUuid s u) → Q u s) :
    Os.uuid.Always (ClearStep env) G Q E s := by
  refine always_clearOp (hG _ _ rfl) hf ?_ ?_
  · rintro v s' ⟨rfl, u, hlen, hu, hfresh, hv⟩
    cases hv
    exact h v hlen hu hfresh
  · rintro e s' ⟨-, u, -, -, -, he⟩
    cases he

theorem always_listdir {a : ℕ} {Q : List String → FileSys Dir → Prop}
    (h : ∀ l : List String, l.Nodup → (∀ n, n ∈ l ↔ (s.entry (.sub a) n).isSome) → Q l s) :
    (Os.listdir a).Always (ClearStep env) G Q E s := by
  refine always_clearOp (hG _ _ rfl) hf ?_ ?_
  · rintro v s' ⟨rfl, l, hnodup, hl, hv⟩
    cases hv
    exact h v hnodup hl
  · rintro e s' ⟨-, l, -, -, he⟩
    cases he

omit hG in
theorem always_write {i : ℕ} {b : Bytes} {Q : ℕ → FileSys Dir → Prop} (hg : G (.write i b) s)
    (h : ∀ k, k ≤ b.length → (k = 0 → b = [] ∨ env.faulty) → Q k (s.append i (b.take k))) :
    (Os.write i b).Always (ClearStep env) G Q E s := by
  refine always_clearOp hg hf ?_ ?_
  · rintro v s' ⟨k, hk, hzero, hv, rfl⟩
    cases hv
    exact h _ hk hzero
  · rintro e s' ⟨k, -, -, he, -⟩
    cases he

omit hG in
theorem always_fchmod {i mode : ℕ} {Q : Unit → FileSys Dir → Prop} (hg : G (.fchmod i mode) s)
    (h : Q () (s.chmod i mode)) : (Os.fchmod i mode).Always (ClearStep env) G Q E s := by
  refine always_clearOp hg hf ?_ ?_
  · rintro v s' ⟨-, rfl⟩
    exact h
  · rintro e s' ⟨he, -⟩
    cases he

omit hG in
theorem always_create {d : Dir} {n : String} {Q : ℕ → FileSys Dir → Prop} (hg : G (.create d n) s)
    (hok : ∀ w mode, s.entry d n = none → s.Unused w → mode &&& 0o600 = mode →
      Q w (s.create d n w ⟨.regular, euid, mode, 1, []⟩))
    (hexists : s.entry d n ≠ none → E .fileExists s) :
    (Os.create d n).Always (ClearStep env) G Q E s := by
  by_cases hnone : s.entry d n = none
  · refine always_clearOp hg hf ?_ ?_
    · rintro v s' h
      simp only [ClearEffect, hnone, if_true] at h
      obtain ⟨w, mode, hw, hmode, hv, rfl⟩ := h
      cases hv
      exact hok _ mode hnone hw hmode
    · rintro e s' h
      simp only [ClearEffect, hnone, if_true] at h
      obtain ⟨w, mode, -, -, he, -⟩ := h
      cases he
  · refine always_clearOp hg hf ?_ ?_
    · rintro v s' h
      simp only [ClearEffect, hnone, if_false] at h
      exact nomatch h.1
    · rintro e s' h
      simp only [ClearEffect, hnone, if_false] at h
      obtain ⟨he, rfl⟩ := h
      cases he
      exact hexists hnone

omit hG in
theorem always_mkdir {n : String} {Q : Unit → FileSys Dir → Prop} (hg : G (.mkdir n) s)
    (hok : ∀ w mode, s.entry .unit n = none → s.Unused w → (∀ m, s.entry (.sub w) m = none) →
      mode &&& 0o700 = mode → Q () (s.create .unit n w ⟨.directory, euid, mode, 2, []⟩))
    (hexists : s.entry .unit n ≠ none → E .fileExists s) :
    (Os.mkdir n).Always (ClearStep env) G Q E s := by
  by_cases hnone : s.entry .unit n = none
  · refine always_clearOp hg hf ?_ ?_
    · rintro v s' h
      simp only [ClearEffect, hnone, if_true] at h
      obtain ⟨w, mode, hw, hempty, hmode, -, rfl⟩ := h
      exact hok w mode hnone hw hempty hmode
    · rintro e s' h
      simp only [ClearEffect, hnone, if_true] at h
      obtain ⟨w, mode, -, -, -, he, -⟩ := h
      cases he
  · refine always_clearOp hg hf ?_ ?_
    · rintro v s' h
      simp only [ClearEffect, hnone, if_false] at h
      exact nomatch h.1
    · rintro e s' h
      simp only [ClearEffect, hnone, if_false] at h
      obtain ⟨he, rfl⟩ := h
      cases he
      exact hexists hnone

/-- A component of the path is opened if it is a directory. -/
theorem always_openPart {k : ℕ} {Q : Unit → FileSys Dir → Prop} (hok : Q () s)
    (hbad : (∀ st, env.path[k]? = some st → st.kind ≠ .directory) → ∀ e, E e s) :
    (Os.openPart k).Always (ClearStep env) G Q E s := by
  refine always_clearOp (hG _ _ rfl) hf ?_ ?_
  · rintro v s' ⟨rfl, -⟩
    exact hok
  · rintro e s' ⟨rfl, he⟩
    refine hbad (fun st hst hk => ?_) e
    simp only [hst, hk, openAnswer] at he
    cases he

theorem always_fstatPart {k : ℕ} {Q : Stat → FileSys Dir → Prop}
    (hok : ∀ st, env.path[k]? = some st → Q st s) (hnone : env.path[k]? = none → ∀ e, E e s) :
    (Os.fstat (.part k)).Always (ClearStep env) G Q E s := by
  rcases hst : env.path[k]? with _ | st
  · refine always_clearOp (hG _ _ rfl) hf ?_ ?_
    · rintro v s' ⟨-, hv⟩
      rw [hst] at hv
      cases hv
    · rintro e s' ⟨rfl, -⟩
      exact hnone hst e
  · refine always_clearOp (hG _ _ rfl) hf ?_ ?_
    · rintro v s' ⟨rfl, hv⟩
      rw [hst] at hv
      cases hv
      exact hok st hst
    · rintro e s' ⟨-, he⟩
      rw [hst] at he
      cases he

omit hG in
theorem always_link {d : Dir} {src dst : String} {Q : Unit → FileSys Dir → Prop}
    (hg : G (.link d src dst) s)
    (hok : ∀ i, s.entry d src = some i → s.entry d dst = none → Q () (s.link d dst i))
    (hnone : s.entry d src = none → E .notFound s)
    (hexists : s.entry d dst ≠ none → E .fileExists s) :
    (Os.link d src dst).Always (ClearStep env) G Q E s := by
  rcases hsrc : s.entry d src with _ | i
  · refine always_clearOp hg hf ?_ ?_
    · rintro v s' h
      simp only [ClearEffect, hsrc] at h
      exact nomatch h.1
    · rintro e s' h
      simp only [ClearEffect, hsrc] at h
      obtain ⟨he, rfl⟩ := h
      cases he
      exact hnone hsrc
  by_cases hdst : s.entry d dst = none
  · refine always_clearOp hg hf ?_ ?_
    · rintro v s' h
      simp only [ClearEffect, hsrc, hdst, if_true] at h
      obtain ⟨-, rfl⟩ := h
      exact hok i hsrc hdst
    · rintro e s' h
      simp only [ClearEffect, hsrc, hdst, if_true] at h
      exact nomatch h.1
  · refine always_clearOp hg hf ?_ ?_
    · rintro v s' h
      simp only [ClearEffect, hsrc, hdst, if_false] at h
      exact nomatch h.1
    · rintro e s' h
      simp only [ClearEffect, hsrc, hdst, if_false] at h
      obtain ⟨he, rfl⟩ := h
      cases he
      exact hexists hdst

omit hG in
theorem always_unlink {d : Dir} {n : String} {Q : Unit → FileSys Dir → Prop}
    (hg : G (.unlink d n) s) (hok : ∀ i, s.entry d n = some i → Q () (s.unlink d n i))
    (hnone : s.entry d n = none → E .notFound s) :
    (Os.unlink d n).Always (ClearStep env) G Q E s := by
  rcases hn : s.entry d n with _ | i
  · refine always_clearOp hg hf ?_ ?_
    · rintro v s' h
      simp only [ClearEffect, hn] at h
      exact nomatch h.1
    · rintro e s' h
      simp only [ClearEffect, hn] at h
      obtain ⟨he, rfl⟩ := h
      cases he
      exact hnone hn
  · refine always_clearOp hg hf ?_ ?_
    · rintro v s' h
      simp only [ClearEffect, hn] at h
      obtain ⟨-, rfl⟩ := h
      exact hok i hn
    · rintro e s' h
      simp only [ClearEffect, hn] at h
      exact nomatch h.1

theorem always_closing {α : Type} {p : ClearProg α} {fd : Fd} {Q : α → FileSys Dir → Prop}
    (h : p.Always (ClearStep env) G Q E s) : (closing p fd).Always (ClearStep env) G Q E s :=
  always_ensure.2 (h.mono (fun _ _ h => h) (fun _ _ hq => always_quietOp hG hf hq) fun _ _ he =>
      always_quietOp hG hf he)

theorem always_orClose {α : Type} {p : ClearProg α} {fd : Fd} {Q : α → FileSys Dir → Prop}
    (h : p.Always (ClearStep env) G Q E s) : (orClose p fd).Always (ClearStep env) G Q E s :=
  always_handle.2 (h.mono (fun _ _ h => h) (fun _ _ hq => hq) fun _ _ he =>
    always_bind.2 (always_quietOp hG hf he))

/-! ## Reading -/

/-- Every round gets a part of the content. -/
theorem always_readMore {i limit n : ℕ} {got : Bytes} {Q : Bytes → FileSys Dir → Prop}
    (hgot : got.length ≤ limit) (hn : limit + 1 ≤ n + got.length)
    (hfront : (s.inode i).kind = .regular → got <+: (s.inode i).content)
    (hok : ∀ raw, raw.length ≤ limit →
      ((s.inode i).kind = .regular → raw = (s.inode i).content) → Q raw s)
    (hkind : (s.inode i).kind ≠ .regular → ∀ e, E e s)
    (hlarge : (s.inode i).kind = .regular → limit < (s.inode i).content.length →
      E (.tombstone "tombstone is unreasonably large") s) :
    (readMore i limit n got).Always (ClearStep env) G Q E s := by
  induction n generalizing got with
  | zero => omega
  | succ n ih =>
    have hsize : 0 < min (1024 * 1024) (limit + 1 - got.length) := by omega
    have hround : ∀ chunk, ((s.inode i).kind = .regular →
        Chunk ((s.inode i).content.drop got.length)
        (min (1024 * 1024) (limit + 1 - got.length)) chunk) →
        (if chunk = [] then .ret got
        else if (got ++ chunk).length > limit then
        .raise (.tombstone "tombstone is unreasonably large")
        else readMore i limit n (got ++ chunk) :
        ClearProg Bytes).Always (ClearStep env) G Q E s := by
      intro chunk hchunk
      split_ifs with hempty hmore
      · subst hempty
        exact hok got hgot fun hk => (hchunk hk).complete (hfront hk) hsize
      · by_cases hk : (s.inode i).kind = .regular
        · exact hlarge hk (lt_of_lt_of_le hmore ((hchunk hk).extends (hfront hk)).length_le)
        · exact hkind hk _
      · have hpos := List.length_pos_iff.2 hempty
        exact ih (by omega) (by rw [List.length_append]; omega) fun hk =>
          (hchunk hk).extends (hfront hk)
    refine always_bind.2 (always_clearOp (hG _ _ rfl) hf ?_ ?_)
    · rintro v s' ⟨rfl, hv⟩
      cases hk : (s'.inode i).kind with
      | regular =>
        rw [hk] at hv
        obtain ⟨chunk, hchunk, hv⟩ := hv
        cases hv
        exact hround v fun _ => hchunk
      | directory => rw [hk] at hv; cases hv
      | symlink =>
        rw [hk] at hv
        obtain ⟨chunk, -, hv⟩ := hv
        cases hv
        exact hround v fun h => by rw [hk] at h; cases h
      | other =>
        rw [hk] at hv
        obtain ⟨chunk, -, hv⟩ := hv
        cases hv
        exact hround v fun h => by rw [hk] at h; cases h
    · rintro e s' ⟨rfl, he⟩
      refine hkind (fun hk => ?_) e
      rw [hk] at he
      obtain ⟨chunk, -, he⟩ := he
      cases he

/-- The content of a regular file of at most `limit` bytes is read as it is. -/
theorem always_readRegularFd {i limit : ℕ} {Q : Bytes → FileSys Dir → Prop}
    (hok : ∀ raw, raw.length ≤ limit →
      ((s.inode i).kind = .regular → raw = (s.inode i).content) → Q raw s)
    (hkind : (s.inode i).kind ≠ .regular → ∀ e, E e s)
    (hlarge : (s.inode i).kind = .regular → limit < (s.inode i).content.length →
      E (.tombstone "tombstone is unreasonably large") s) :
    (readRegularFd i limit).Always (ClearStep env) G Q E s :=
  always_bind.2 (always_quietOp hG hf (always_readMore hG hf (Nat.zero_le _) (by simp)
      (fun _ => List.nil_prefix) hok hkind hlarge))

theorem always_openPrivateNamed {d : Dir} {n : String} {directory : Bool} {allowed : List ℕ}
    {Q : ℕ × Stat → FileSys Dir → Prop}
    (hok : ∀ i, s.entry d n = some i → isPrivate (s.stat i) directory allowed = true →
      Q (i, s.stat i) s)
    (hnone : s.entry d n = none → E .notFound s)
    (hbad : ∀ i, s.entry d n = some i → isPrivate (s.stat i) directory allowed = false →
      ∀ e, e ≠ .notFound → E e s) :
    (openPrivateNamed d n directory allowed).Always (ClearStep env) G Q E s := by
  refine always_bind.2 (always_openFile hG hf (fun i hi _ => ?_) hnone fun i e hi he => ?_)
  swap
  · obtain ⟨hprivate, hne⟩ := isPrivate_of_refused allowed he
    exact hbad i hi hprivate e hne
  refine always_bind.2 (always_fstat hG hf
    (always_bind.2 (always_stat_entry hG hf (fun j hj => ?_) fun hnone => ?_)))
  swap
  · rw [hi] at hnone
    cases hnone
  obtain rfl : i = j := Option.some.inj (hi.symm.trans hj)
  have hsame : sameInode (s.stat i) (s.stat i) = true := by simp [sameInode]
  rcases hp : isPrivate (s.stat i) directory allowed with _ | _
  · simp only [hsame, Bool.false_and, Bool.false_eq_true, if_false]
    exact always_bind.2 (always_quietOp hG hf (hbad i hi hp _ (by simp)))
  · simp only [hsame, Bool.and_self, if_true]
    exact hok i hi hp

/-! ## Records -/

theorem always_findLinks {a i : ℕ} {names : List String} {Q : List String → FileSys Dir → Prop}
    (hnames : ∀ n ∈ names, (s.entry (.sub a) n).isSome)
    (h : Q (names.filter fun n => isTmpName n && (s.entry (.sub a) n == some i)) s) :
    (findLinks a (s.stat i) names).Always (ClearStep env) G Q E s := by
  induction names generalizing Q with
  | nil => exact h
  | cons n names ih =>
    have hrest : ∀ m ∈ names, (s.entry (.sub a) m).isSome := fun m hm =>
      hnames m (List.mem_cons_of_mem _ hm)
    rw [findLinks]
    split_ifs with htmp
    · refine always_bind.2 (always_stat_entry hG hf (fun j hj => always_bind.2 (ih hrest ?_))
        fun hnone => ?_)
      · have hsame : sameInode (s.stat i) (s.stat j) = (s.entry (.sub a) n == some i) := by
          rw [hj]
          simp [sameInode, eq_comm]
        rw [hsame]
        show Q (if (s.entry (.sub a) n == some i) = true then _ else _) s
        rw [List.filter_cons, htmp, Bool.true_and] at h
        exact h
      · have hsome := hnames n (List.mem_cons_self ..)
        rw [hnone] at hsome
        cases hsome
    · rw [List.filter_cons] at h
      exact ih hrest (by simpa [htmp] using h)

/-- The temporary names that lead to the file. -/
def IsLink (s : FileSys Dir) (a i : ℕ) (n : String) : Prop :=
  isTmpName n = true ∧ s.entry (.sub a) n = some i

theorem always_recoverAuditLink {a i : ℕ} {Q : Unit → FileSys Dir → Prop}
    (hGu : ∀ n, isTmpName n = true → G (.unlink (.sub a) n) s)
    (hskip : (s.inode i).nlink ≠ 2 → Q () s)
    (hdrop : ∀ n, IsLink s a i n → (s.inode i).nlink = 2 → Q () (s.unlink (.sub a) n i))
    (hbad : (s.inode i).nlink = 2 → (¬∃ n, IsLink s a i n ∧ ∀ m, IsLink s a i m → m = n) →
      ∀ e, e ≠ .notFound → E e s) :
    (recoverAuditLink i (s.stat i) a).Always (ClearStep env) G Q E s := by
  rw [recoverAuditLink]
  split_ifs with hn
  · exact hskip hn
  have hn : (s.inode i).nlink = 2 := not_not.1 hn
  refine always_bind.2 (always_listdir hG hf fun names hnodup hnames =>
    always_bind.2 (always_findLinks hG hf (fun n hm => (hnames n).1 hm) ?_))
  have hmem : ∀ n, n ∈ names.filter (fun n => isTmpName n && (s.entry (.sub a) n == some i)) ↔
      IsLink s a i n := by
    intro n
    rw [List.mem_filter, Bool.and_eq_true, beq_iff_eq]
    refine ⟨fun h => h.2, fun h => ⟨(hnames n).2 ?_, h⟩⟩
    rw [h.2]
    rfl
  have hnodup' := hnodup.filter fun n => isTmpName n && (s.entry (.sub a) n == some i)
  generalize hl : names.filter (fun n => isTmpName n && (s.entry (.sub a) n == some i)) =
    l at hmem hnodup'
  rcases l with _ | ⟨n, _ | ⟨m, l⟩⟩
  · refine hbad hn ?_ _ (by simp)
    rintro ⟨n, hlink, -⟩
    exact nomatch (hmem n).2 hlink
  · have hlink := (hmem n).1 (List.mem_cons_self ..)
    refine always_bind.2 (always_unlink hf (hGu n hlink.1) (fun j hj => ?_) fun hnone => ?_)
    swap
    · rw [hlink.2] at hnone
      cases hnone
    obtain rfl : i = j := Option.some.inj (hlink.2.symm.trans hj)
    refine always_bind.2 (always_quietOp hG hf (always_bind.2 (always_fstat hG hf ?_)))
    have hone : ((s.unlink (.sub a) n i).stat i).nlink = 1 := by
      rw [FileSys.stat_nlink, s.unlink_inode_self]
      show (s.inode i).nlink - 1 = 1
      rw [hn]
    rw [if_neg (not_not.2 hone)]
    exact hdrop n hlink hn
  · refine hbad hn ?_ _ (by simp)
    rintro ⟨x, -, honly⟩
    have hnx := honly n ((hmem n).1 (by simp))
    have hmx := honly m ((hmem m).1 (by simp))
    rw [hnx, hmx] at hnodup'
    simp at hnodup'

/-! ## Publication -/

/-- The record is within the limit. -/
def FitsRecord (d : Dict) : Prop := ∃ text, dumpsSorted d = .ok text ∧ text.length + 1 ≤ recordLimit

omit hG in
theorem always_writeAll {d : Dir} {n : String} {w m : ℕ} {v : Inode} {b : Bytes}
    {Q : Unit → FileSys Dir → Prop} (hw : s.Unused w) (hm : b.length ≤ m)
    (hGw : ∀ s' b, s'.SoleName d n w → G (.write w b) s')
    (hok : Q () (s.create d n w { v with content := v.content ++ b }))
    (hbad : env.faulty → ∀ e s', E e s') :
    (writeAll w m b).Always (ClearStep env) G Q E (s.create d n w v) := by
  have hdone : ∀ {v : Inode} {b : Bytes}, b = [] →
      Q () (s.create d n w { v with content := v.content ++ b }) → Q () (s.create d n w v) := by
    rintro v b rfl h
    rwa [List.append_nil] at h
  induction m generalizing v b with
  | zero =>
    have hb : b = [] := List.length_eq_zero_iff.1 (Nat.le_zero.1 hm)
    rw [writeAll, if_pos hb]
    exact hdone hb hok
  | succ m ih =>
    rw [writeAll]
    split_ifs with hb
    · exact hdone hb hok
    refine always_bind.2 (always_write hf (hGw _ _ (s.create_soleName v hw)) fun k hk hzero => ?_)
    split_ifs with hk0
    · exact hbad ((hzero hk0).resolve_left hb) _ _
    rw [s.create_append]
    refine ih (by rw [List.length_drop]; omega) ?_
    have happend : v.content ++ b.take k ++ b.drop k = v.content ++ b := by
      rw [List.append_assoc, List.take_append_drop]
    simpa only [happend] using hok

theorem always_dropTmp {a w : ℕ} {tmp : String} {Q : Unit → FileSys Dir → Prop}
    (hGu : ∀ s', G (.unlink (.sub a) tmp) s') (hok : ∀ i, s.entry (.sub a) tmp = some i →
        Q () (s.unlink (.sub a) tmp i))
    (hnone : s.entry (.sub a) tmp = none → Q () s) :
    (dropTmp a w tmp).Always (ClearStep env) G Q E s := by
  refine always_bind.2 (always_quietOp hG hf (always_handle.2 (always_bind.2 ?_)))
  refine always_unlink ?_ (hGu s) (fun i hi => always_quietOp hG ?_ (hok i hi)) hnone
  · exact hf
  · exact hf

/-- The temporary file is written, made private and linked to its final name. -/
theorem always_publishTmp {a w mode : ℕ} {tmp final : String} {raw : Bytes}
    {Q : Unit → FileSys Dir → Prop} (hw : s.Unused w) (hne : final ≠ tmp)
    (hGw : ∀ s' b, s'.SoleName (.sub a) tmp w → G (.write w b) s')
    (hGc : ∀ s', G (.fchmod w 0o600) s')
    (hGl : G (.link (.sub a) tmp final) (s.create (.sub a) tmp w ⟨.regular, euid, 0o600, 1, raw⟩))
    (hok : s.entry (.sub a) final = none →
      Q () ((s.create (.sub a) tmp w ⟨.regular, euid, 0o600, 1, raw⟩).link (.sub a) final w))
    (hbad : env.faulty ∨ s.entry (.sub a) final ≠ none → ∀ e s', E e s') :
    (publishTmp a w tmp final raw).Always (ClearStep env) G Q E
      (s.create (.sub a) tmp w ⟨.regular, euid, mode, 1, []⟩) := by
  refine always_bind.2 (always_writeAll hf hw (Nat.le_refl _) hGw ?_ fun h => hbad (.inl h))
  refine always_bind.2 (always_quietOp hG hf (always_bind.2 (always_fchmod hf (hGc _) ?_)))
  rw [s.create_chmod]
  have hfinal : ∀ v, (s.create (.sub a) tmp w v).entry (.sub a) final =
      s.entry (.sub a) final := fun v =>
    s.create_entry_ne v fun _ => hne
  refine always_bind.2 (always_quietOp hG hf
    (always_bind.2 (always_link hf hGl (fun i hi hnone => ?_) (fun hnone => ?_)
    fun hexists => ?_)))
  · rw [s.create_entry_self] at hi
    obtain rfl := Option.some.inj hi
    rw [hfinal] at hnone
    refine always_bind.2 (always_quietOp hG hf
      (always_bind.2 (always_stat_entry hG hf (fun j hj => ?_) fun hj => ?_)))
    · rw [FileSys.link_entry_self] at hj
      obtain rfl := Option.some.inj hj
      refine always_bind.2 (always_fstat hG hf (always_require (fun _ => hok hnone) fun h => ?_))
      simp [sameInode] at h
    · rw [FileSys.link_entry_self] at hj
      cases hj
  · rw [s.create_entry_self] at hnone
    cases hnone
  · rw [hfinal] at hexists
    exact hbad (.inr hexists) _ _

/-- **A record is published at once**: nothing but the record has changed, or an exception
    is raised. -/
theorem always_atomicPrivateJson {a : ℕ} {final : String} {value : Dict}
    {Q : Unit → FileSys Dir → Prop} (hfinal : isTmp final = false)
    (hGn : ∀ n, isTmp n = true → G (.create (.sub a) n) s)
    (hGw : ∀ s' w n b, isTmp n = true → s'.SoleName (.sub a) n w → G (.write w b) s')
    (hGc : ∀ w s', G (.fchmod w 0o600) s')
    (hGl : ∀ w n text, isTmpName n = true → s.entry (.sub a) n = none → s.Unused w →
      dumpsSorted value = .ok text →
      G (.link (.sub a) n final) (s.create (.sub a) n w ⟨.regular, euid, 0o600, 1, text ++ [0x0A]⟩))
    (hGu : ∀ n s', isTmp n = true → G (.unlink (.sub a) n) s')
    (hok : ∀ w text, s.Unused w → s.entry (.sub a) final = none → dumpsSorted value = .ok text →
      Q () (s.create (.sub a) final w ⟨.regular, euid, 0o600, 1, text ++ [0x0A]⟩))
    (hbad : env.faulty ∨ ¬env.unique ∨ s.entry (.sub a) final ≠ none ∨
      ¬FitsRecord value → ∀ e s', E e s') :
    (atomicPrivateJson a final value).Always (ClearStep env) G Q E s := by
  rw [atomicPrivateJson]
  rcases htext : dumpsSorted value with e | text
  · refine hbad (.inr (.inr (.inr ?_))) _ _
    rintro ⟨text, htext', -⟩
    rw [htext] at htext'
    cases htext'
  show Always (ClearStep env) G Q E (if _ then _ else _) s
  have hlength : (text ++ [0x0A]).length = text.length + 1 := by simp
  rw [hlength]
  split_ifs with hlarge
  · refine hbad (.inr (.inr (.inr ?_))) _ _
    rintro ⟨text', htext', hfit⟩
    rw [htext] at htext'
    cases htext'
    omega
  refine always_bind.2 (always_uuid hG hf fun u hlen hu hfresh => always_bind.2 (always_create hf
    (hGn _ (isTmp_tmpName u)) (fun w mode hnone hw _ => ?_) fun hexists => ?_))
  swap
  · refine hbad (.inr (.inl fun hunique => hexists ((hfresh hunique).2 a))) _ _
  have hne : final ≠ tmpName u := by
    rintro rfl
    rw [isTmp_tmpName] at hfinal
    cases hfinal
  have hdrop : (env.faulty ∨ s.entry (.sub a) final ≠ none) → ∀ e s',
      (dropTmp a w (tmpName u)).Always (ClearStep env) G (fun _ s => E e s) E s' := by
    intro h e s'
    have hE : ∀ e s', E e s' := hbad (by tauto)
    exact always_dropTmp hG hf (fun s' => hGu _ s' (isTmp_tmpName u)) (fun _ _ => hE _ _)
      fun _ => hE _ _
  refine always_ensure.2 (always_publishTmp hG ?_ hw hne
    (fun s' b hs => hGw s' w _ b (isTmp_tmpName u) hs) (hGc w)
    (hGl w _ text (isTmpName_tmpName hlen hu) hnone hw htext) (fun hfinalnone => ?_) hdrop)
  · exact fun f s' hfaulty => hdrop (.inl hfaulty) _ _
  · refine always_dropTmp hG hf (fun s' => hGu _ s' (isTmp_tmpName u)) (fun i hi => ?_) fun hi => ?_
    · rw [FileSys.link_entry_ne _ fun _ => hne.symm, s.create_entry_self] at hi
      obtain rfl := Option.some.inj hi
      rw [s.create_link_unlink _ (fun _ => hne) hnone]
      exact hok w text hw hfinalnone htext
    · rw [FileSys.link_entry_ne _ fun _ => hne.symm, s.create_entry_self] at hi
      cases hi

end

end DatasourceKit

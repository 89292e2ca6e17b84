/-
  A first clearance of a tombstone that does not match gets to an end.

  The specifications of a clearance say how its runs may end; here is a run.

  * `can_openFile`, `can_openPrivateNamed`, `can_readRegularFd`, …: what operations may answer
    where none fails;
  * `Bare`: a unit directory with nothing but the tombstone;
  * `rejected_raises`: a call does get to the tombstone, and raises.
-/
import DatasourceKit.Clearance.Series
import DatasourceKit.Clearance.TrustedWalk

namespace DatasourceKit

open Interleave Prog Files ClearanceHost

variable [ClearanceHost] {env : ClearEnv} {E : Exc → FileSys Dir → Prop} {s : FileSys Dir}

/-! ## Operations -/

/-- An operation may have its effect. -/
theorem can_clearOp {o : ClearOp} {Q : o.Val → FileSys Dir → Prop} {v : o.Val} {s' : FileSys Dir}
    (h : ClearEffect env o s (.ok v) s') (hq : Q v s') : (perform o).Can (ClearStep env) Q E s :=
  can_perform (.inl h) hq

theorem can_quiet {c : Quiet} {fd : Fd} {Q : Unit → FileSys Dir → Prop} (h : Q () s) :
    (Os.quiet c fd).Can (ClearStep env) Q E s :=
  can_clearOp ⟨rfl, rfl⟩ h

theorem can_fstat {i : ℕ} {Q : Stat → FileSys Dir → Prop} (h : Q (s.stat i) s) :
    (Os.fstat (.file i)).Can (ClearStep env) Q E s :=
  can_clearOp ⟨rfl, rfl⟩ h

theorem can_fchmod {i mode : ℕ} {Q : Unit → FileSys Dir → Prop} (h : Q () (s.chmod i mode)) :
    (Os.fchmod i mode).Can (ClearStep env) Q E s :=
  can_clearOp ⟨rfl, rfl⟩ h

theorem can_stat {n : Named} {st : Stat} {Q : Stat → FileSys Dir → Prop}
    (hst : statNamed env.path s n = some st) (h : Q st s) : (Os.stat n).Can (ClearStep env) Q E s :=
  can_clearOp ⟨rfl, by rw [hst]⟩ h

theorem can_stat_entry {d : Dir} {n : String} {i : ℕ} {Q : Stat → FileSys Dir → Prop}
    (hn : s.entry d n = some i) (h : Q (s.stat i) s) :
    (Os.stat (.entry d n)).Can (ClearStep env) Q E s :=
  can_stat (by simp [statNamed, hn]) h

theorem can_openFile {d : Dir} {n : String} {i : ℕ} {mode : OpenMode} {Q : ℕ → FileSys Dir → Prop}
    (hn : s.entry d n = some i) (hanswer : openAnswer mode (s.inode i).kind = none) (h : Q i s) :
    (Os.openFile d n mode).Can (ClearStep env) Q E s :=
  can_clearOp ⟨rfl, by simp [hn, hanswer]⟩ h

/-- A name that leads nowhere. -/
theorem can_openFile_none {d : Dir} {n : String} {mode : OpenMode} {Q : ℕ → FileSys Dir → Prop}
    (hn : s.entry d n = none) (h : E .notFound s) :
    (Os.openFile d n mode).Can (ClearStep env) Q E s :=
  ⟨.error .notFound, s, .inl ⟨rfl, by rw [hn]⟩, h⟩

theorem can_require {c : Bool} {msg : String} {Q : Unit → FileSys Dir → Prop}
    (hc : c = true) (h : Q () s) :
    (require c msg).Can (ClearStep env) Q E s := by
  rw [hc]
  exact h

theorem can_closing {α : Type} {p : ClearProg α} {fd : Fd} {Q : α → FileSys Dir → Prop}
    (h : p.Can (ClearStep env) Q E s) : (closing p fd).Can (ClearStep env) Q E s :=
  can_ensure.2 (h.mono (fun _ _ hq => can_quiet hq) fun _ _ he => can_quiet he)

/-! ## Files -/

theorem can_openPrivateNamed {d : Dir} {n : String} {directory : Bool} {allowed : List ℕ} {i : ℕ}
    {Q : ℕ × Stat → FileSys Dir → Prop} (hn : s.entry d n = some i)
    (hanswer : openAnswer (if directory then .directory else .read) (s.inode i).kind = none)
    (hprivate : isPrivate (s.stat i) directory allowed = true) (h : Q (i, s.stat i) s) :
    (openPrivateNamed d n directory allowed).Can (ClearStep env) Q E s := by
  refine can_bind.2 (can_openFile hn hanswer
    (can_bind.2 (can_fstat (can_bind.2 (can_stat_entry hn ?_)))))
  rw [hprivate, Bool.true_and, if_pos (by simp [sameInode])]
  exact h

/-- A regular file of at most `limit` bytes is read in rounds of a mebibyte. -/
theorem can_readMore {i limit n : ℕ} {got : Bytes} {Q : Bytes → FileSys Dir → Prop}
    (hkind : (s.inode i).kind = .regular) (hsmall : (s.inode i).content.length ≤ limit)
    (hgot : got <+: (s.inode i).content) (hn : (s.inode i).content.length < n + got.length)
    (h : Q (s.inode i).content s) :
    (readMore i limit n got).Can (ClearStep env) Q E s := by
  induction n generalizing got with
  | zero =>
    have := hgot.length_le
    omega
  | succ n ih =>
    have hlength := hgot.length_le
    generalize hsize : min (1024 * 1024) (limit + 1 - got.length) = size
    have hpos : 0 < size := by omega
    have hchunk : Chunk ((s.inode i).content.drop got.length) size
        (((s.inode i).content.drop got.length).take size) := by
      refine ⟨List.take_prefix .., by simp, fun hnil => ?_⟩
      rw [List.take_eq_nil_iff] at hnil
      exact hnil.symm.imp_left id
    generalize ((s.inode i).content.drop got.length).take size = chunk at hchunk
    refine can_bind.2 (can_clearOp (v := chunk) ⟨rfl, ?_⟩ ?_)
    · rw [hkind, hsize]
      exact ⟨chunk, hchunk, rfl⟩
    · split_ifs with hempty hmore
      · subst hempty
        rwa [hchunk.complete hgot hpos]
      · have hext := (hchunk.extends hgot).length_le
        omega
      · have hchunkpos := List.length_pos_iff.2 hempty
        exact ih (hchunk.extends hgot) (by rw [List.length_append]; omega)

theorem can_readRegularFd {i limit : ℕ} {Q : Bytes → FileSys Dir → Prop}
    (hkind : (s.inode i).kind = .regular) (hsmall : (s.inode i).content.length ≤ limit)
    (h : Q (s.inode i).content s) :
    (readRegularFd i limit).Can (ClearStep env) Q E s :=
  can_bind.2 (can_quiet (can_readMore hkind hsmall List.nil_prefix (by simp; omega) h))

/-! ## The namespace -/

/-- A trusted path is walked down. -/
theorem can_walk {path : List Stat} {n : ℕ} (htrusted : TrustedPath path n) :
    (openTrustedUnitDirectory n).Can (ClearStep (calmHost path))
    (fun st s' => s' = s ∧ path.getLast? = some st) (fun _ _ => False) s := by
  have hstep : ∀ o s, IsWalk o → ∃ r s', ClearStep (calmHost path) o s r s' :=
    fun _ s ho => walk_step ho s
  have hwalk := (always_walk (s := s) (htrusted.length ▸ htrusted.pos)).can hstep
  rw [htrusted.length] at hwalk
  exact hwalk.mono (fun _ _ hq => ⟨hq.1, hq.2.1⟩) fun _ _ hno => hno htrusted

variable {r : ClearRequest} {ns : Namespace} {i l a : ℕ}

theorem can_bindNamed {opened st : Stat} {n : Named} {message : String}
    {Q : Unit → FileSys Dir → Prop} (hst : statNamed env.path s n = some st)
    (hino : opened.ino = st.ino) (h : Q () s) :
    (bindNamed opened n message).Can (ClearStep env) Q E s :=
  can_bind.2 (can_catching.2 (can_stat hst (can_require (by simp [sameInode, hino]) h)))

theorem can_bindClearanceNamespace {Q : Unit → FileSys Dir → Prop}
    (hb : Bound env ns s) (h : Q () s) :
    (bindClearanceNamespace ns).Can (ClearStep env) Q E s := by
  obtain ⟨st, hst, hino⟩ := hb.path
  have hlock : statNamed env.path s (.entry .unit lockFile) = some (s.stat ns.lockSt.ino) := by
    simp [statNamed, hb.lock]
  have haudit : statNamed env.path s (.entry .unit auditDirName) = some (s.stat ns.audit) := by
    simp [statNamed, hb.audit]
  refine can_bind.2 (can_bindNamed hst hino
    (can_bind.2 (can_bindNamed hlock rfl (can_bind.2 (can_bindNamed haudit
    hb.auditSt (can_bind.2 (can_fstat (can_require ?_ h))))))))
  simp [sameInode, hb.auditSt]

/-- A new lock. -/
def withLock (s : FileSys Dir) (l : ℕ) : FileSys Dir :=
  (s.create .unit lockFile l ⟨.regular, euid, 0o600, 1, []⟩).chmod l 0o600

/-- A new audit directory. -/
def withAudit (s : FileSys Dir) (a : ℕ) : FileSys Dir :=
  s.create .unit auditDirName a ⟨.directory, euid, 0o700, 2, []⟩

theorem withLock_inode (s : FileSys Dir) (l : ℕ) :
    (withLock s l).inode l = ⟨.regular, euid, 0o600, 1, []⟩ := by
  rw [withLock, FileSys.chmod_self, s.create_inode_self]

theorem withLock_inode_ne {k : ℕ} (s : FileSys Dir) (hk : k ≠ l) :
    (withLock s l).inode k = s.inode k := by
  rw [withLock, FileSys.chmod_ne _ _ hk, s.create_inode_ne _ hk]

theorem withLock_entry (s : FileSys Dir) (l : ℕ) {d : Dir} {n : String} :
    (withLock s l).entry d n = if d = .unit ∧ n = lockFile then some l else s.entry d n := rfl

theorem withAudit_entry (s : FileSys Dir) (a : ℕ) {d : Dir} {n : String} :
    (withAudit s a).entry d n = if d = .unit ∧ n = auditDirName then some a else s.entry d n := rfl

/-- The lock is made. -/
theorem can_openUnitLock {dir : Fd} {Q : ℕ → FileSys Dir → Prop}
    (hnone : s.entry .unit lockFile = none) (hl : s.Unused l) (h : Q l (withLock s l)) :
    (openUnitLock dir).Can (ClearStep env) Q E s := by
  have hcreate : ClearEffect env (.create .unit lockFile) s (.ok l)
      (s.create .unit lockFile l ⟨.regular, euid, 0o600, 1, []⟩) := by
    simp only [ClearEffect, hnone, if_true]
    exact ⟨l, 0o600, hl, by decide, rfl, rfl⟩
  exact can_bind.2 (can_catching.2 (can_clearOp hcreate (can_handle.2 (can_bind.2 (can_fchmod
    (can_bind.2 (can_quiet (can_bind.2 (can_quiet h)))))))))

theorem can_lockUnit {Q : Stat → FileSys Dir → Prop} (hl : s.entry .unit lockFile = some l)
    (hprivate : isPrivate (s.stat l) false [1] = true) (h : Q (s.stat l) s) :
    (lockUnit l).Can (ClearStep env) Q E s := by
  refine can_bind.2 (can_fstat
    (can_bind.2 (can_stat_entry hl (can_bind.2 (can_require ?_ (can_bind.2 (can_quiet h)))))))
  simp [hprivate, sameInode]

/-- The audit directory is made. -/
theorem can_makeAuditDirectory {dir : Fd} {Q : Unit → FileSys Dir → Prop}
    (hnone : s.entry .unit auditDirName = none) (ha : s.Unused a)
    (hempty : ∀ n, s.entry (.sub a) n = none) (h : Q () (withAudit s a)) :
    (makeAuditDirectory dir).Can (ClearStep env) Q E s := by
  have hmkdir : ClearEffect env (.mkdir auditDirName) s (.ok ())
      (withAudit s a) := by
    simp only [ClearEffect, hnone, if_true]
    exact ⟨a, 0o700, ha, hempty, by decide, trivial, rfl⟩
  exact can_handle.2 (can_bind.2 (can_clearOp hmkdir (can_quiet h)))

/-! ## The tombstone -/

theorem can_loadsOr {msg : String} {raw : Bytes} {Q : Content → FileSys Dir → Prop}
    (hok : Q (loads raw) s) (h : ∀ e, E e s) : (loadsOr msg raw).Can (ClearStep env) Q E s := by
  unfold loadsOr
  split
  · exact h _
  · exact h _
  · exact h _
  · exact hok

/-- A tombstone that does not match is read and refused. -/
theorem can_checkTombstone {p : Plan} {Q : Stat → FileSys Dir → Prop}
    (hkind : (s.inode i).kind = .regular) (hnlink : (s.inode i).nlink = 1)
    (hsmall : (s.inode i).content.length ≤ tombstoneLimit) (hno : ¬r.Matches (s.inode i).content)
    (h : ∀ e, E e s) : (checkTombstone r p i).Can (ClearStep env) Q E s := by
  refine can_bind.2 (can_fstat (can_bind.2 (can_readRegularFd hkind hsmall (can_bind.2 ?_))))
  by_cases hsha : sha256 (s.inode i).content = r.expectedSha256
  · refine can_require ?_ (can_bind.2 ?_)
    · cases hex : p.existing <;> simp [hkind, hnlink, hsha]
    rw [FileSys.stat_nlink, hnlink, if_neg (by decide)]
    refine can_bind.2 (can_loadsOr (can_bind.2 ?_) h)
    have hlegacy : isLegacy r (loads (s.inode i).content) = false := by
      by_contra hne
      exact hno (matches_iff.2 ⟨hsha, eq_true_of_ne_false hne⟩)
    rw [hlegacy]
    exact h _
  · rw [beq_eq_false_iff_ne.2 hsha, Bool.and_false]
    exact h _

/-- A unit directory with nothing but the tombstone. -/
structure Bare (i : ℕ) (b : Bytes) (s : FileSys Dir) : Prop where
  entry : ∀ {d n k}, s.entry d n = some k ↔ d = .unit ∧ n = pidFile ∧ k = i
  inode : s.inode i = ⟨.regular, euid, 0o644, 1, b⟩

/-- There are the tombstone, the lock and the empty audit directory. -/
structure Opening (i : ℕ) (b : Bytes) (s : FileSys Dir) : Prop where
  entry : ∀ {d n k}, s.entry d n = some k →
    d = .unit ∧ (n = pidFile ∨ n = lockFile ∨ n = auditDirName)
  pid : s.entry .unit pidFile = some i
  inode : s.inode i = ⟨.regular, euid, 0o644, 1, b⟩

variable {b : Bytes}

/-- The names of a new clearance are new. -/
theorem Opening.fresh (h : Opening i b s) (u : String) : FreshUuid s u := by
  have hnone : ∀ {d n}, (d = .unit → n ≠ pidFile ∧ n ≠ lockFile ∧ n ≠ auditDirName) →
      s.entry d n = none := by
    intro d n hn
    rcases hentry : s.entry d n with _ | k
    · rfl
    · obtain ⟨hd, hor⟩ := h.entry hentry
      have hne := hn hd
      tauto
  refine ⟨fun sha => ⟨hnone fun _ => ?_, ?_⟩, fun a => hnone fun h => nomatch h⟩
  · have hq := isQuarantine_quarantineName sha u
    exact ⟨hq.ne_pidFile, hq.ne_lockFile, hq.ne_auditDirName⟩
  · intro a n j d _ hj
    exact nomatch (h.entry hj).1

/-- The transaction gets to the tombstone. -/
theorem can_clearInNamespace {Q : Unit → FileSys Dir → Prop} (hb : Bound env ns s)
    (hs : Opening i b s) (hindex : ∃ text, dumpsSorted r.indexFields = .ok text)
    (hsmall : b.length ≤ tombstoneLimit) (hno : ¬r.Matches b) (h : ∀ e, E e s) :
    (clearInNamespace r ns).Can (ClearStep env) Q E s := by
  obtain ⟨text, htext⟩ := hindex
  have hnone : ∀ {a n}, s.entry (.sub a) n = none := by
    intro a n
    rcases hentry : s.entry (.sub a) n with _ | k
    · rfl
    · exact nomatch (hs.entry hentry).1
  have huuid : ClearEffect env .uuid s (.ok "00000000000000000000000000000000") s :=
    ⟨rfl, _, by decide, by decide, fun _ => hs.fresh _, rfl⟩
  refine can_bind.2 (can_bindClearanceNamespace hb (can_bind.2 ?_))
  rw [htext]
  refine can_bind.2 (can_clearOp huuid (can_bind.2 ?_))
  rw [safeQuarantine_quarantineName r.digest (by decide) (by decide)]
  refine can_bind.2 (can_bind.2
    (can_catching.2 (can_bind.2 (can_bind.2 (can_openFile_none hnone ?_)))))
  refine can_bind.2 (can_bind.2 (can_catching.2 (can_bind.2 (can_openFile_none hnone ?_))))
  refine can_bind.2 (can_bind.2 (can_catching.2 (can_openFile hs.pid (by rw [hs.inode]; rfl) ?_)))
  refine can_closing (can_bind.2 (can_checkTombstone ?_ ?_ ?_ ?_ h))
  · rw [hs.inode]
  · rw [hs.inode]
  · rwa [hs.inode]
  · rwa [hs.inode]

/-- What a call makes of a bare unit directory before its transaction. -/
theorem Bare.opening (h : Bare i b s) (hl : l ≠ i) (ha : a ≠ i) :
    Opening i b (withAudit (withLock s l) a) where
  entry := by
    intro d n k hn
    rw [withAudit_entry, withLock_entry] at hn
    split_ifs at hn with haudit hlock
    · exact ⟨haudit.1, .inr (.inr haudit.2)⟩
    · exact ⟨hlock.1, .inr (.inl hlock.2)⟩
    · obtain ⟨hd, hpid, -⟩ := h.entry.1 hn
      exact ⟨hd, .inl hpid⟩
  pid := by
    rw [withAudit_entry, withLock_entry, if_neg (by decide), if_neg (by decide)]
    exact h.entry.2 ⟨rfl, rfl, rfl⟩
  inode := by rw [withAudit, FileSys.create_inode_ne _ _ ha.symm,
    withLock_inode_ne s hl.symm, h.inode]

section
variable (hs : Bare i b s)
include hs

theorem Bare.none {d : Dir} {n : String} (hn : d = .unit → n ≠ pidFile) : s.entry d n = none := by
  rcases hentry : s.entry d n with _ | k
  · rfl
  · obtain ⟨hd, hpid, -⟩ := hs.entry.1 hentry
    exact absurd hpid (hn hd)

theorem Bare.unused (hl : l ≠ i) : s.Unused l := fun _ _ hn => hl (hs.entry.1 hn).2.2

theorem Bare.legacyUnit (r : ClearRequest) : LegacyUnit r i b s where
  unclaimed :=
    { pid := ⟨hs.entry.2 ⟨rfl, rfl, rfl⟩, fun h => by
        obtain ⟨hd, hn, -⟩ := hs.entry.1 h
        exact ⟨hd, hn⟩⟩
      nlink := by rw [hs.inode]
      content := by rw [hs.inode]
      records := fun _ _ a _ => ⟨hs.none (nomatch ·), hs.none (nomatch ·)⟩ }
  kind := by rw [hs.inode]
  uid := by rw [hs.inode]
  lock := fun h => absurd (hs.entry.1 h).2.1 (by decide)
  audit := fun h => absurd (hs.entry.1 h).2.1 (by decide)

/-- A call makes the lock and the audit directory, and gets to the tombstone. -/
theorem can_clearInDirectory {dir : Fd} {unitSt : Stat} {Q : Unit → FileSys Dir → Prop}
    (hpath : ∃ st, env.path.getLast? = some st ∧ unitSt.ino = st.ino)
    (hindex : ∃ text, dumpsSorted r.indexFields = .ok text)
    (hsmall : b.length ≤ tombstoneLimit) (hno : ¬r.Matches b) (h : ∀ e s', E e s') :
    (clearInDirectory r dir unitSt).Can (ClearStep env) Q E s := by
  obtain ⟨l, hl, a, ha, hal⟩ : ∃ l, l ≠ i ∧ ∃ a, a ≠ i ∧ a ≠ l :=
    ⟨i + 1, by omega, i + 2, by omega, by omega⟩
  have hopening := hs.opening hl ha
  have hlock : (withLock s l).entry .unit lockFile = some l := by
    rw [withLock_entry, if_pos ⟨rfl, rfl⟩]
  have haudit : (withLock s l).entry .unit auditDirName = none := by
    rw [withLock_entry, if_neg (by decide), hs.none fun _ => by decide]
  have hunused : (withLock s l).Unused a := by
    intro d n hn
    rw [withLock_entry] at hn
    split_ifs at hn
    · exact hal (Option.some.inj hn).symm
    · exact hs.unused ha d n hn
  have hempty : ∀ n, (withLock s l).entry (.sub a) n = none := by
    intro n
    rw [withLock_entry, if_neg fun h => nomatch h.1]
    exact hs.none fun h => nomatch h
  have hlock' : (withAudit (withLock s l) a).entry .unit lockFile = some l := by
    rw [withAudit_entry, if_neg (by decide), hlock]
  have haudit' : (withAudit (withLock s l) a).entry .unit auditDirName = some a := by
    rw [withAudit_entry, if_pos ⟨rfl, rfl⟩]
  have hdir : (withAudit (withLock s l) a).inode a = ⟨.directory, euid, 0o700, 2, []⟩ := by
    rw [withAudit, FileSys.create_inode_self]
  refine can_bind.2 (can_openUnitLock (hs.none fun _ => by decide) (hs.unused hl) (can_ensure.2 ?_))
  have hwithLock : (clearWithLock r dir unitSt l).Can (ClearStep env) (fun _ _ => False)
      (fun _ _ => True) (withLock s l) := by
    refine can_bind.2 (can_lockUnit hlock ?_
      (can_bind.2 (can_makeAuditDirectory haudit hunused hempty (can_bind.2
      (can_openPrivateNamed haudit' ?_ ?_
        (can_closing (can_clearInNamespace ⟨hpath, hlock', haudit', rfl⟩ hopening hindex
        hsmall hno fun _ => trivial)))))))
    · simp [isPrivate, withLock_inode]
    · rw [hdir]
      rfl
    · simp [isPrivate, hdir]
  exact hwithLock.mono (fun _ _ hno => hno.elim) fun e s' _ =>
    can_ensure.2 (can_quiet (can_quiet (h e s')))

end

/-- **A call that does not match raises**, from a bare unit directory. -/
theorem rejected_raises {path : List Stat} {directory : List String} {args : ClearArgs}
    (hargs : args.validate = .ok r) (htrusted : TrustedPath path directory.length)
    (hindex : ∃ text, dumpsSorted r.indexFields = .ok text) (hs : Bare i b s)
    (hsmall : b.length ≤ tombstoneLimit) (hno : ¬r.Matches b) :
    ∃ e s', Steps (ClearStep (calmHost path))
    (clearLegacyProcessTombstone directory args) s s' (.raise e) := by
  have hcall : (clearLegacyProcessTombstone directory args).Can (ClearStep (calmHost path))
      (fun _ _ => False) (fun _ _ => True) s := by
    refine can_handle.2 ?_
    rw [clearLocked, hargs]
    refine can_bind.2 (can_bind.2 ((can_walk htrusted).mono ?_ fun _ _ hf => hf.elim))
    rintro unitSt s' ⟨rfl, hlast⟩
    exact can_closing (can_bind.2
      (can_clearInDirectory hs ⟨unitSt, hlast, rfl⟩ hindex hsmall hno fun _ _ => trivial))
  obtain ⟨_, _, -, hf⟩ | ⟨e, s', hsteps, -⟩ := hcall.exists_steps
  · exact hf.elim
  · exact ⟨e, s', hsteps⟩

end DatasourceKit

/-
  What a retry needs of the files that earlier calls have left.

  * `PrivateFile`, `RecordFile`: the lock and the records, the latter with at most one
    further link, under a temporary name;
  * `Upkeep r i s₀ s`: the state of these files after calls for the request `r`,
    `Change.upkeep`: what such calls change keeps it;
  * `Recoverable`: the ledger of the request and the upkeep of its files.
-/
import DatasourceKit.Clearance.Ledger

namespace DatasourceKit

open Interleave Prog Files ClearanceHost

variable [ClearanceHost] {env : ClearEnv} {r : ClearRequest} {s s' s₀ : FileSys Dir}

/-! ## Links and permissions -/

/-- The file keeps its names and its link count. -/
def Untouched (s s' : FileSys Dir) (j : ℕ) : Prop :=
  (∀ d n, s'.entry d n = some j ↔ s.entry d n = some j) ∧ (s'.inode j).nlink = (s.inode j).nlink

omit [ClearanceHost] in
theorem Untouched.sole {d : Dir} {n : String} {j : ℕ} (h : Untouched s s' j)
    (hs : s.SoleName d n j) :
    s'.SoleName d n j where
  named := (h.1 d n).2 hs.named
  only hn := hs.only ((h.1 _ _).1 hn)

omit [ClearanceHost] in
theorem untouched_create {d : Dir} {n : String} {w j : ℕ} {v : Inode}
    (hnone : s.entry d n = none) (hw : j ≠ w) :
    Untouched s (s.create d n w v) j := by
  refine ⟨fun d' n' => ?_, by rw [s.create_inode_ne v hw]⟩
  rw [s.create_entry]
  split_ifs with heq
  · obtain ⟨rfl, rfl⟩ := heq
    simp [hnone, hw.symm]
  · exact Iff.rfl

omit [ClearanceHost] in
theorem untouched_link {d : Dir} {n : String} {w j : ℕ} (hnone : s.entry d n = none) (hw : j ≠ w) :
    Untouched s (s.link d n w) j := by
  refine ⟨fun d' n' => ?_, by rw [s.link_inode_ne hw]⟩
  rw [s.link_entry]
  split_ifs with heq
  · obtain ⟨rfl, rfl⟩ := heq
    simp [hnone, hw.symm]
  · exact Iff.rfl

omit [ClearanceHost] in
theorem untouched_unlink {d : Dir} {n : String} {w j : ℕ} (hn : s.entry d n = some w) (hw : j ≠ w) :
    Untouched s (s.unlink d n w) j := by
  refine ⟨fun d' n' => ?_, by rw [s.unlink_inode_ne hw]⟩
  rw [s.unlink_entry]
  split_ifs with heq
  · obtain ⟨rfl, rfl⟩ := heq
    simp [hn, hw.symm]
  · exact Iff.rfl

omit [ClearanceHost] in
theorem untouched_setInode {w j : ℕ} {v : Inode} (hv : v.nlink = (s.inode w).nlink) :
    Untouched s (s.setInode w v) j := by
  refine ⟨fun _ _ => Iff.rfl, ?_⟩
  by_cases hj : j = w
  · subst hj
    rw [s.setInode_self, hv]
  · rw [s.setInode_ne v hj]

/-- The links of a file that is not the tombstone stay, or it loses a temporary name. -/
theorem Change.links {d : Dir} {n : String} {j : ℕ} (h : Change env r s s')
    (hn : s.entry d n = some j) (ht : isTmp n = false) (hpid : s.entry .unit pidFile ≠ some j) :
    Untouched s s' j ∨ ∃ a t, isTmp t = true ∧ s.entry (.sub a) t = some j ∧
    s' = s.unlink (.sub a) t j := by
  have hstaged : ∀ {a tmp w raw}, Staged s a tmp w raw → j ≠ w := fun hst =>
    hst.sole.ne hn fun _ => by
    rintro rfl
    rw [isTmp_of_isTmpName hst.tmpName] at ht
    cases ht
  cases h with
  | idle => exact .inl ⟨fun _ _ => Iff.rfl, rfl⟩
  | lock hnone hw => exact .inl (untouched_create hnone (hw.ne hn))
  | auditDir hnone hw => exact .inl (untouched_create hnone (hw.ne hn))
  | tmp _ _ hnone hw => exact .inl (untouched_create hnone (hw.ne hn))
  | write => exact .inl (untouched_setInode rfl)
  | chmod => exact .inl (untouched_setInode rfl)
  | intent _ hnone hst => exact .inl (untouched_link hnone (hstaged hst))
  | completion _ hnone hst => exact .inl (untouched_link hnone (hstaged hst))
  | quarantine hp hnone =>
    refine .inl (untouched_link hnone ?_)
    rintro rfl
    exact hpid hp
  | retire hp =>
    refine .inl (untouched_unlink hp ?_)
    rintro rfl
    exact hpid hp
  | @dropTmp a t i htmp hi =>
    by_cases hj : j = i
    · subst hj
      exact .inr ⟨a, t, htmp, hi, rfl⟩
    · exact .inl (untouched_unlink hi hj)

/-- A file with a name that is not temporary keeps its permissions, or becomes private. -/
theorem Change.mode {d : Dir} {n : String} {j : ℕ} (h : Change env r s s')
    (hn : s.entry d n = some j) :
    (s'.inode j).mode = (s.inode j).mode ∨ (s'.inode j).mode = 0o600 := by
  cases h with
  | idle => exact .inl rfl
  | lock _ hw => exact .inl (by rw [s.create_inode_ne _ (hw.ne hn)])
  | auditDir _ hw => exact .inl (by rw [s.create_inode_ne _ (hw.ne hn)])
  | tmp _ _ _ hw => exact .inl (by rw [s.create_inode_ne _ (hw.ne hn)])
  | @write a m w b =>
    by_cases hj : j = w
    · subst hj
      rw [s.append_self]
      exact .inl rfl
    · rw [s.append_ne b hj]
      exact .inl rfl
  | @chmod i =>
    by_cases hj : j = i
    · subst hj
      rw [s.chmod_self]
      exact .inr rfl
    · rw [s.chmod_ne _ hj]
      exact .inl rfl
  | intent | quarantine | completion => exact .inl (s.mode_link _ _ _ _)
  | retire | dropTmp => exact .inl (s.mode_unlink _ _ _ _)

/-- A file of the caller that nobody else may use. -/
structure PrivateFile (s : FileSys Dir) (j : ℕ) (kind : Kind) : Prop where
  kind : (s.inode j).kind = kind
  uid : (s.inode j).uid = euid
  mode : (s.inode j).mode &&& 0o077 = 0

theorem Change.privateFile {d : Dir} {n : String} {j : ℕ} {kind : Kind} (h : Change env r s s')
    (hn : s.entry d n = some j) (ht : isTmp n = false) (hp : PrivateFile s j kind) :
    PrivateFile s' j kind where
  kind := (h.same hn ht).kind.trans hp.kind
  uid := (h.same hn ht).uid.trans hp.uid
  mode := by
    rcases h.mode hn with hm | hm
    · rw [hm, hp.mode]
    · rw [hm]
      rfl

/-- A published record: one link, or a second one under a temporary name. -/
structure RecordFile (s : FileSys Dir) (a : ℕ) (name : String) (j : ℕ) : Prop where
  privateFile : PrivateFile s j .regular
  links : ((s.inode j).nlink = 1 ∧ s.SoleName (.sub a) name j) ∨
    (s.inode j).nlink = 2 ∧ ∃ t, isTmpName t = true ∧ s.entry (.sub a) t = some j ∧
      ∀ d n, s.entry d n = some j → d = .sub a ∧ (n = name ∨ n = t)

theorem RecordFile.unit {a j : ℕ} {name n : String} (h : RecordFile s a name j) :
    s.entry .unit n ≠ some j := by
  intro hn
  rcases h.links with ⟨-, hsole⟩ | ⟨-, t, -, -, honly⟩
  · exact nomatch (hsole.only hn).1
  · exact nomatch (honly _ _ hn).1

theorem Change.recordFile {a j : ℕ} {name : String} (h : Change env r s s')
    (hn : s.entry (.sub a) name = some j) (ht : isTmp name = false) (hr : RecordFile s a name j) :
    RecordFile s' a name j where
  privateFile := h.privateFile hn ht hr.privateFile
  links := by
    rcases h.links hn ht hr.unit with huntouched | ⟨a', t', htmp, hentry, rfl⟩
    · rcases hr.links with ⟨hl, hsole⟩ | ⟨hl, t, htn, htj, honly⟩
      · exact .inl ⟨huntouched.2.trans hl, huntouched.sole hsole⟩
      · exact .inr ⟨huntouched.2.trans hl, t, htn, (huntouched.1 _ _).2 htj,
          fun d n hdn => honly d n ((huntouched.1 d n).1 hdn)⟩
    · have hne : t' ≠ name := by
        rintro rfl
        rw [htmp] at ht
        cases ht
      rcases hr.links with ⟨-, hsole⟩ | ⟨hl, t, htn, htj, honly⟩
      · exact absurd (hsole.only hentry).2 hne
      -- the temporary name of the record is gone
      obtain ⟨hd, hname⟩ := honly _ _ hentry
      obtain rfl : a' = a := by simpa using hd
      obtain rfl := hname.resolve_left hne
      refine .inl ⟨by rw [s.unlink_inode_self, hl], ?_, ?_⟩
      · rw [s.unlink_entry_ne fun _ => hne.symm]
        exact hn
      · intro d n hdn
        rw [s.unlink_entry] at hdn
        split_ifs at hdn with heq
        obtain ⟨rfl, hor⟩ := honly d n hdn
        exact ⟨rfl, hor.resolve_right fun h => heq ⟨rfl, h⟩⟩

/-! ## New names -/

/-- The name of a file in the unit directory that a change makes is that of the lock, of
    the audit directory, or of the quarantine of the tombstone. -/
theorem Change.new_unit {n : String} {j : ℕ} (h : Change env r s s')
    (hn : s'.entry .unit n = some j) :
    s.entry .unit n = some j ∨
    (n = lockFile ∧ s.Unused j ∧ ∃ mode, mode &&& 0o600 = mode ∧
        s' = s.create .unit lockFile j ⟨.regular, euid, mode, 1, []⟩) ∨
    (n = auditDirName ∧ ∃ mode, mode &&& 0o700 = mode ∧ (∀ m, s'.entry (.sub j) m = none) ∧
      s' = s.create .unit auditDirName j ⟨.directory, euid, mode, 2, []⟩) ∨
    (s.entry .unit pidFile = some j ∧ QuarantineReady r n j s) := by
  have hcreate : ∀ {m w v}, (s.create .unit m w v).entry .unit n = some j →
      s.entry .unit n = some j ∨ n = m ∧ j = w := by
    intro m w v hn
    rw [s.create_entry] at hn
    split_ifs at hn with heq
    · exact .inr ⟨heq.2, (Option.some.inj hn).symm⟩
    · exact .inl hn
  have hunlink : ∀ {d m w}, (s.unlink d m w).entry .unit n = some j → s.entry .unit n = some j := by
    intro d m w hn
    rw [s.unlink_entry] at hn
    split_ifs at hn
    exact hn
  cases h with
  | idle => exact .inl hn
  | @lock w mode hnone hw hmode =>
    rcases hcreate hn with hold | ⟨rfl, rfl⟩
    · exact .inl hold
    · exact .inr (.inl ⟨rfl, hw, mode, hmode, rfl⟩)
  | @auditDir w mode hnone hw hempty hmode =>
    rcases hcreate hn with hold | ⟨rfl, rfl⟩
    · exact .inl hold
    · refine .inr (.inr (.inl ⟨rfl, mode, hmode, fun m => ?_, rfl⟩))
      rw [create_unit_sub]
      exact hempty m
  | tmp => exact .inl (by rwa [create_sub_unit] at hn)
  | write | chmod => exact .inl hn
  | intent | completion => exact .inl (by rwa [link_sub_unit] at hn)
  | @quarantine q i hp hnone hready =>
    rw [s.link_entry] at hn
    split_ifs at hn with heq
    · obtain rfl := heq.2
      obtain rfl := Option.some.inj hn
      exact .inr (.inr (.inr ⟨hp, hready⟩))
    · exact .inl hn
  | retire | dropTmp => exact .inl (hunlink hn)

/-- The name of a file in the audit directory that a change makes is temporary, or that of
    a complete temporary file. -/
theorem Change.new_sub {a j : ℕ} {n : String} (h : Change env r s s')
    (hn : s'.entry (.sub a) n = some j) :
    s.entry (.sub a) n = some j ∨ isTmp n = true ∨
    ∃ tmp raw, Staged s a tmp j raw ∧ s' = s.link (.sub a) n j ∧ s.entry (.sub a) n = none ∧
      (n = intentName r.opId ∧ (∃ q, IntentReady env r raw q s) ∨ n = completeName r.opId) := by
  have hlink : ∀ {a' m w}, (s.link (.sub a') m w).entry (.sub a) n = some j →
      s.entry (.sub a) n = some j ∨ a = a' ∧ n = m ∧ j = w := by
    intro a' m w hn
    rw [s.link_entry] at hn
    split_ifs at hn with heq
    · exact .inr ⟨by simpa using heq.1, heq.2, (Option.some.inj hn).symm⟩
    · exact .inl hn
  have hunlink : ∀ {d m w}, (s.unlink d m w).entry (.sub a) n = some j →
      s.entry (.sub a) n = some j := by
    intro d m w hn
    rw [s.unlink_entry] at hn
    split_ifs at hn
    exact hn
  cases h with
  | idle => exact .inl hn
  | lock | auditDir => exact .inl (by rwa [create_unit_sub] at hn)
  | tmp _ ht =>
    rw [s.create_entry] at hn
    split_ifs at hn with heq
    · rw [heq.2]
      exact .inr (.inl ht)
    · exact .inl hn
  | write | chmod => exact .inl hn
  | intent _ hnone hst hready =>
    rcases hlink hn with hold | ⟨rfl, rfl, rfl⟩
    · exact .inl hold
    · exact .inr (.inr ⟨_, _, hst, rfl, hnone, .inl ⟨rfl, _, hready⟩⟩)
  | completion _ hnone hst =>
    rcases hlink hn with hold | ⟨rfl, rfl, rfl⟩
    · exact .inl hold
    · exact .inr (.inr ⟨_, _, hst, rfl, hnone, .inr rfl⟩)
  | quarantine =>
    rw [link_unit_sub] at hn
    exact .inl hn
  | retire | dropTmp => exact .inl (hunlink hn)

/-! ## The upkeep -/

/-- The files of the clearance for the request `r` of the tombstone `i`, which began in the
    state `s₀`. -/
structure Upkeep (r : ClearRequest) (i : ℕ) (s₀ s : FileSys Dir) : Prop where
  lock : ∀ {l}, s.entry .unit lockFile = some l →
    PrivateFile s l .regular ∧ (s.inode l).nlink = 1 ∧ s.SoleName .unit lockFile l
  audit : ∀ {a}, s.entry .unit auditDirName = some a → PrivateFile s a .directory
  kind : (s.inode i).kind = .regular
  uid : (s.inode i).uid = euid
  quarantined : ∀ {q}, IsQuarantine q → s.entry .unit q = some i → (s.inode i).mode &&& 0o077 = 0
  records : ∀ {a j n}, s.entry .unit auditDirName = some a → s.entry (.sub a) n = some j →
    n = intentName r.opId ∨ n = completeName r.opId → RecordFile s a n j
  own : ∀ {q}, Intends s r q → r.OwnQuarantine q
  /-- No quarantine but that of the tombstone is new. -/
  frame : ∀ {n}, IsQuarantine n → s.entry .unit n = s₀.entry .unit n ∨ s.entry .unit n = some i

/-- What a call for the request has left can be completed. -/
structure Recoverable (r : ClearRequest) (i : ℕ) (b : Bytes) (s₀ s : FileSys Dir) : Prop where
  ledger : Ledger {r} i b s
  upkeep : Upkeep r i s₀ s

variable {i : ℕ} {b : Bytes}

omit [ClearanceHost] in
/-- Permissions within those of the owner are private. -/
theorem mode_private {m k : ℕ} (hm : m &&& k = m) (hk : k &&& 0o077 = 0) : m &&& 0o077 = 0 := by
  rw [← hm, Nat.and_assoc, hk, Nat.and_zero]

/-- The tombstone has a name in the unit directory that is not temporary. -/
theorem Ledger.named {R : Set ClearRequest} (h : Ledger R i b s) :
    ∃ n, s.entry .unit n = some i ∧ isTmp n = false := by
  obtain ⟨st, h⟩ := h
  exact h.named

theorem Ledger.pid {R : Set ClearRequest} {j : ℕ} (h : Ledger R i b s)
    (hp : s.entry .unit pidFile = some j) :
    j = i := by
  obtain ⟨st, h⟩ := h
  exact h.pid hp

theorem Upkeep.step_lock {l : ℕ} (h : Upkeep r i s₀ s) (hc : Change env r s s')
    (hl : s'.entry .unit lockFile = some l) :
    PrivateFile s' l .regular ∧ (s'.inode l).nlink = 1 ∧ s'.SoleName .unit lockFile l := by
  rcases hc.new_unit hl with hold | ⟨-, hw, mode, hmode, rfl⟩ | ⟨hname, -⟩ | ⟨-, intent, hpub, -⟩
  · obtain ⟨hp, hn, hsole⟩ := h.lock hold
    have hlt : isTmp lockFile = false := by decide
    rcases hc.links hold hlt fun hp =>
      absurd (hsole.only hp).2 (by decide) with hu | ⟨a, t, -, ht, -⟩
    · exact ⟨hc.privateFile hold hlt hp, hu.2.trans hn, hu.sole hsole⟩
    · exact nomatch (hsole.only ht).1
  · rw [s.create_inode_self]
    refine ⟨⟨?_, ?_, ?_⟩, rfl, hl, ?_⟩
    · rw [s.create_inode_self]
    · rw [s.create_inode_self]
    · rw [s.create_inode_self]
      exact mode_private hmode (by decide)
    · intro d n hn
      rw [s.create_entry] at hn
      split_ifs at hn with heq
      · exact heq
      · exact absurd hn (hw d n)
  · exact absurd hname (by decide)
  · exact absurd hpub.name (by unfold IsQuarantine; decide)

theorem Upkeep.step_audit {a : ℕ} (h : Upkeep r i s₀ s) (hc : Change env r s s')
    (ha : s'.entry .unit auditDirName = some a) : PrivateFile s' a .directory := by
  rcases hc.new_unit ha with hold | ⟨hname, -⟩ | ⟨-, mode, hmode, -, rfl⟩ | ⟨-, intent, hpub, -⟩
  · exact hc.privateFile hold (by decide) (h.audit hold)
  · exact absurd hname (by decide)
  · refine ⟨?_, ?_, ?_⟩
    · rw [s.create_inode_self]
    · rw [s.create_inode_self]
    · rw [s.create_inode_self]
      exact mode_private hmode (by decide)
  · exact absurd hpub.name (by unfold IsQuarantine; decide)

/-- The published temporary file. -/
theorem Staged.recordFile {a w : ℕ} {tmp n : String} {raw : Bytes} (h : Staged s a tmp w raw)
    (hn : s.entry (.sub a) n = none) : RecordFile (s.link (.sub a) n w) a n w := by
  have hne : tmp ≠ n := by
    rintro rfl
    exact nomatch hn.symm.trans h.sole.named
  refine ⟨⟨?_, ?_, ?_⟩, .inr ⟨?_, tmp, h.tmpName, ?_, ?_⟩⟩
  · rw [s.link_inode_self, h.inode]
  · rw [s.link_inode_self, h.inode]
  · rw [s.link_inode_self, h.inode]
    show 0o600 &&& 0o077 = 0
    decide
  · rw [s.link_inode_self, h.inode]
  · rw [s.link_entry_ne fun _ => hne]
    exact h.sole.named
  · intro d m hm
    rw [s.link_entry] at hm
    split_ifs at hm with heq
    · exact ⟨heq.1, .inl heq.2⟩
    · obtain ⟨hd, hm'⟩ := h.sole.only hm
      exact ⟨hd, .inr hm'⟩

theorem Upkeep.step_records {a j : ℕ} {n : String} (h : Upkeep r i s₀ s) (hc : Change env r s s')
    (ha : s'.entry .unit auditDirName = some a) (hj : s'.entry (.sub a) n = some j)
    (hn : n = intentName r.opId ∨ n = completeName r.opId) : RecordFile s' a n j := by
  have ht : isTmp n = false := by rcases hn with rfl | rfl <;> simp
  rcases hc.new_sub hj with hold | htmp | ⟨tmp, raw, hst, rfl, hnone, -⟩
  · have haudit : s.entry .unit auditDirName = some a := by
      rcases hc.new_unit ha with hold' | ⟨hname, -⟩ | ⟨-, -, -, hempty, -⟩ | ⟨-, intent, hpub, -⟩
      · exact hold'
      · exact absurd hname (by decide)
      · rw [hempty n] at hj
        cases hj
      · exact absurd hpub.name (by unfold IsQuarantine; decide)
    exact hc.recordFile hold ht (h.records haudit hold hn)
  · rw [ht] at htmp
    cases htmp
  · exact hst.recordFile hnone

theorem Upkeep.step_own {q : String} (h : Upkeep r i s₀ s) (hc : Change env r s s')
    (hi : Intends s' r q) :
    r.OwnQuarantine q := by
  obtain ⟨a, j, ha, hj, hrec⟩ := hi
  rcases hc.new_sub hj with hold | htmp | ⟨tmp, raw, hst, rfl, hnone, hready | hname⟩
  · have haudit : s.entry .unit auditDirName = some a := by
      rcases hc.new_unit ha with hold' | ⟨hname, -⟩ | ⟨-, -, -, hempty, -⟩ | ⟨-, intent, hpub, -⟩
      · exact hold'
      · exact absurd hname (by decide)
      · rw [hempty] at hj
        cases hj
      · exact absurd hpub.name (by unfold IsQuarantine; decide)
    rw [(hc.same hold (isTmp_intentName _)).content] at hrec
    exact h.own ⟨a, j, haudit, hold, hrec⟩
  · rw [isTmp_intentName] at htmp
    cases htmp
  · obtain ⟨-, q', hown, hrec', -⟩ := hready
    rw [s.link_inode_self, hst.inode] at hrec
    obtain ⟨e, he, -⟩ := hrec'.loads (intentRecord_plain r q')
    rw [Json.str.inj ((hrec.quarantine he).2.symm.trans (hrec'.quarantine he).2)]
    exact hown
  · exact absurd hname (intentName_ne_completeName _ _)

/-- **What a call for the request changes keeps its files in order.** -/
theorem Change.upkeep (hc : Change env r s s') (hl : Ledger {r} i b s) (h : Upkeep r i s₀ s) :
    Upkeep r i s₀ s' := by
  obtain ⟨m, hm, hmt⟩ := hl.named
  have hsame := hc.same hm hmt
  refine { lock := h.step_lock hc, audit := h.step_audit hc, kind := hsame.kind.trans h.kind,
           uid := hsame.uid.trans h.uid, quarantined := ?_, records := h.step_records hc, own :=
           h.step_own hc, frame := ?_ }
  · intro q hq hqi
    rcases hc.mode hm with hmode | hmode
    · rw [hmode]
      rcases hc.new_unit hqi with hold | ⟨hname, -⟩ | ⟨hname, -⟩ | ⟨-, intent, -, -, hprivate, -⟩
      · exact h.quarantined hq hold
      · exact absurd hname hq.ne_lockFile
      · exact absurd hname hq.ne_auditDirName
      · exact hprivate
    · rw [hmode]
      rfl
  · intro n hn
    rcases hs' : s'.entry .unit n with _ | j
    · rcases hs : s.entry .unit n with _ | j
      · rcases h.frame hn with hf | hf
        · exact .inl (by rw [← hf, hs])
        · rw [hs] at hf
          cases hf
      · rw [hc.entry hs hn.isTmp fun _ => hn.ne_pidFile] at hs'
        cases hs'
    · rcases hc.new_unit hs' with hold | ⟨hname, -⟩ | ⟨hname, -⟩ | ⟨hp, -⟩
      · rcases h.frame hn with hf | hf
        · exact .inl (by rw [← hf, hold])
        · exact .inr (by rw [← hf, hold])
      · exact absurd hname hn.ne_lockFile
      · exact absurd hname hn.ne_auditDirName
      · exact .inr (by rw [hl.pid hp])

theorem Change.recoverable (hc : Change env r s s') (hunique : env.unique)
    (h : Recoverable r i b s₀ s) :
    Recoverable r i b s₀ s' where
  ledger := hc.ledger (Set.injOn_singleton _ _) hunique rfl h.ledger
  upkeep := hc.upkeep h.ledger h.upkeep

end DatasourceKit

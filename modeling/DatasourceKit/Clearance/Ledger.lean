/-
  Competing requests for one legacy tombstone.

  * `NameStage`: where the tombstone's inode has its names: as `pid.json`, as `pid.json` and a
    quarantine, or as a quarantine only;
  * `Ledger R i b`: the stage of the tombstone `i`, and the records that requests of `R`
    have in the audit directory, `Change.ledger`: what calls for them keep it;
  * `Ledger.exclusive`, `Ledger.truthful`: what follows for the completions.
-/
import DatasourceKit.Clearance.Change

namespace DatasourceKit

open Interleave Prog Files ClearanceHost

/-! ## The names of the tombstone -/

/-- What names the tombstone has. -/
inductive NameStage where
  | held
  | linked (q : String)
  | retired (q : String)

namespace NameStage

/-- The inode `i` has the names of the stage, and no others. -/
def Of (i : ℕ) : NameStage → FileSys Dir → Prop
  | held, s => s.SoleName .unit pidFile i ∧ (s.inode i).nlink = 1
  | linked q, s => s.entry .unit pidFile = some i ∧ s.entry .unit q = some i ∧
    (s.inode i).nlink = 2 ∧ ∀ d n, s.entry d n = some i → d = .unit ∧ (n = pidFile ∨ n = q)
  | retired q, s => s.entry .unit pidFile = none ∧ s.SoleName .unit q i ∧ (s.inode i).nlink = 1

/-- The quarantine of the tombstone. -/
def quarantine : NameStage → Option String
  | held => none
  | linked q | retired q => some q

variable {i : ℕ} {st : NameStage} {s s' : FileSys Dir}

theorem Of.unit (h : st.Of i s) {d : Dir} {n : String} (hn : s.entry d n = some i) : d = .unit := by
  cases st with
  | held => exact (h.1.only hn).1
  | linked q => exact (h.2.2.2 d n hn).1
  | retired q => exact (h.2.1.only hn).1

theorem Of.named (h : st.Of i s) : ∃ n, s.entry .unit n = some i ∧
    (n = pidFile ∨ st.quarantine = some n) := by
  cases st with
  | held => exact ⟨_, h.1.named, .inl rfl⟩
  | linked q => exact ⟨_, h.1, .inl rfl⟩
  | retired q => exact ⟨_, h.2.1.named, .inr rfl⟩

theorem Of.quarantine (h : st.Of i s) {q : String} (hq : st.quarantine = some q) :
    s.entry .unit q = some i := by
  cases st with
  | held => cases hq
  | linked q' => obtain rfl : q' = q := Option.some.inj hq; exact h.2.1
  | retired q' => obtain rfl : q' = q := Option.some.inj hq; exact h.2.1.named

/-- Where the names and the link count of the inode stay, its stage does. -/
theorem Of.mono (h : st.Of i s) (hentry : ∀ d n, s'.entry d n = some i ↔ s.entry d n = some i)
    (hnlink : (s'.inode i).nlink = (s.inode i).nlink)
    (hpid : s.entry .unit pidFile = none → s'.entry .unit pidFile = none) : st.Of i s' := by
  have hsole : ∀ {d n}, s.SoleName d n i → s'.SoleName d n i := fun hs =>
    ⟨(hentry _ _).2 hs.named, fun hn => hs.only ((hentry _ _).1 hn)⟩
  cases st with
  | held => exact ⟨hsole h.1, hnlink.trans h.2⟩
  | linked q =>
    obtain ⟨hp, hq, hl, honly⟩ := h
    exact ⟨(hentry _ _).2 hp, (hentry _ _).2 hq, hnlink.trans hl, fun d n hn =>
      honly d n ((hentry d n).1 hn)⟩
  | retired q => exact ⟨hpid h.1, hsole h.2.1, hnlink.trans h.2.2⟩

end NameStage

/-! ## Records -/

variable [ClearanceHost]

/-- The audit directory has the intent of the request with the quarantine `q`. -/
def Intends (s : FileSys Dir) (r : ClearRequest) (q : String) : Prop :=
  ∃ a j, s.entry .unit auditDirName = some a ∧ s.entry (.sub a) (intentName r.opId) = some j ∧
    IsRecord (s.inode j).content (r.intentRecord (.str q))

/-- The audit directory has a completion of the request, in the file `j`. -/
def CompletedBy (s : FileSys Dir) (r : ClearRequest) (j : ℕ) : Prop :=
  ∃ a, s.entry .unit auditDirName = some a ∧ s.entry (.sub a) (completeName r.opId) = some j

omit [ClearanceHost] in
theorem indexFields_plain (r : ClearRequest) : ∀ x ∈ r.indexFields.entries, x.2.Plain := by
  refine Dict.forall_update (fun x hx => nomatch hx) ?_
  simp [Json.Plain]

theorem intentRecord_plain (r : ClearRequest) (q : String) :
    ∀ x ∈ (r.intentRecord (.str q)).entries, x.2.Plain := by
  refine Dict.forall_update (indexFields_plain r) ?_
  simp [Json.Plain]

omit [ClearanceHost] in
theorem completionRecord_plain {d : Dict} (h : ∀ x ∈ d.entries, x.2.Plain) :
    ∀ x ∈ (completionRecord d).entries, x.2.Plain :=
  Dict.forall_update (l := [("event", .str "legacy_tombstone_clearance_complete")]) h
    (by simp [Json.Plain])

/-- What is read of a record. -/
theorem IsRecord.loads {raw : Bytes} {d : Dict} (h : IsRecord raw d)
    (hd : ∀ x ∈ d.entries, x.2.Plain) :
    ∃ e, loads raw = .doc e ∧ e.entries.Perm d.entries := by
  obtain ⟨text, htext, rfl⟩ := h
  exact loads_dumps hd htext

@[simp] theorem intentRecord_quarantine (r : ClearRequest) (v : Json) :
    (r.intentRecord v).get "quarantine" = v :=
  Dict.get_set_self _ _ _

/-- The content of an intent determines its quarantine. -/
theorem IsRecord.quarantine {raw : Bytes} {r : ClearRequest} {q : String} {e : Dict}
    (h : IsRecord raw (r.intentRecord (.str q))) (he : ClearanceHost.loads raw = .doc e) :
    e.entries.Perm (r.intentRecord (.str q)).entries ∧ e.get "quarantine" = .str q := by
  obtain ⟨e', he', hperm⟩ := h.loads (intentRecord_plain r q)
  obtain rfl : e = e' := Content.doc.inj (he.symm.trans he')
  exact ⟨hperm, by rw [Dict.get_perm hperm, intentRecord_quarantine]⟩

variable {env : ClearEnv} {r r' : ClearRequest} {s s' : FileSys Dir} {q q' : String}

theorem Intends.unique (h : Intends s r q) (h' : Intends s r q') : q = q' := by
  obtain ⟨a, j, ha, hj, hrec⟩ := h
  obtain ⟨a', j', ha', hj', hrec'⟩ := h'
  obtain rfl : a = a' := Option.some.inj (ha.symm.trans ha')
  obtain rfl : j = j' := Option.some.inj (hj.symm.trans hj')
  obtain ⟨e, he, -⟩ := hrec.loads (intentRecord_plain r q)
  exact Json.str.inj ((hrec.quarantine he).2.symm.trans (hrec'.quarantine he).2)

/-- A published intent that was written as such has the quarantine it says. -/
theorem Intends.published {intent : Dict} (h : Intends s r q) (hp : Published s r intent q') :
    q = q' ∧ intent.entries.Perm (r.intentRecord (.str q)).entries := by
  obtain ⟨a, j, ha, hj, hrec⟩ := h
  obtain ⟨a', j', e, ha', hj', he, hperm⟩ := hp.file
  obtain rfl : a = a' := Option.some.inj (ha.symm.trans ha')
  obtain rfl : j = j' := Option.some.inj (hj.symm.trans hj')
  obtain ⟨hrecord, hquarantine⟩ := hrec.quarantine he
  refine ⟨Json.str.inj ?_, hperm.symm.trans hrecord⟩
  rw [← hquarantine, Dict.get_perm hperm, hp.quarantine]

theorem Change.intends (h : Change env r' s s') (hi : Intends s r q) : Intends s' r q := by
  obtain ⟨a, j, ha, hj, hrec⟩ := hi
  refine ⟨a, j, h.entry ha isTmp_auditDirName fun _ => by
      decide, h.entry hj (isTmp_intentName _) (fun hd => nomatch hd),
    ?_⟩
  rw [(h.same hj (isTmp_intentName _)).content]
  exact hrec

theorem Change.completedBy {j : ℕ} (h : Change env r' s s') (hc : CompletedBy s r j) :
    CompletedBy s' r j := by
  obtain ⟨a, ha, hj⟩ := hc
  exact ⟨a, h.entry ha isTmp_auditDirName
    fun _ => by decide, h.entry hj (isTmp_completeName _) fun hd => nomatch hd⟩

/-! ## The ledger -/

/-- The records of the requests of `R`, for the tombstone `i` with the bytes `b` and the
    stage `st`. -/
structure LedgerAt (R : Set ClearRequest) (i : ℕ) (b : Bytes) (st : NameStage)
    (s : FileSys Dir) : Prop where
  stage : st.Of i s
  content : (s.inode i).content = b
  /-- The quarantine of the tombstone is that of an intent. -/
  owner : ∀ q, st.quarantine = some q → ∃ r ∈ R, Intends s r q
  /-- Every intent has a quarantine of its own, which is not taken by another file. -/
  intents : ∀ r ∈ R, ∀ a j, s.entry .unit auditDirName = some a →
    s.entry (.sub a) (intentName r.opId) = some j →
    ∃ q, IsQuarantine q ∧ Intends s r q ∧ (s.entry .unit q = none ∨ s.entry .unit q = some i)
  distinct : ∀ r ∈ R, ∀ r' ∈ R, ∀ q, Intends s r q → Intends s r' q → r = r'
  /-- A completion is that of an intent whose quarantine is all that is left. -/
  completions : ∀ r ∈ R, ∀ j, CompletedBy s r j → ∃ q, st = .retired q ∧ Intends s r q ∧
    IsRecord (s.inode j).content (completionRecord (r.intentRecord (.str q))) ∧
      sha256 b = r.expectedSha256

/-- The ledger of the requests of `R`, at some stage. -/
def Ledger (R : Set ClearRequest) (i : ℕ) (b : Bytes) (s : FileSys Dir) : Prop :=
  ∃ st, LedgerAt R i b st s

variable {R : Set ClearRequest} {i : ℕ} {b : Bytes} {st : NameStage}

/-! ## Changes that are about no request -/

/-- The names of the lock, of the audit directory and of temporary files. -/
def Housekeeping (n : String) : Prop := n = lockFile ∨ n = auditDirName ∨ isTmp n = true

omit [ClearanceHost] in
theorem Housekeeping.ne {n m : String} (h : Housekeeping n) (hl : m ≠ lockFile)
    (ha : m ≠ auditDirName) (ht : isTmp m = false) : n ≠ m := by
  rintro rfl
  rcases h with h | h | h
  · exact hl h
  · exact ha h
  · rw [h] at ht
    cases ht

/-- New names are for housekeeping and lead to new files, and only temporary names go. -/
structure Aside (s s' : FileSys Dir) : Prop where
  new : ∀ {d n j}, s'.entry d n = some j → s.entry d n = some j ∨
    (Housekeeping n ∧ s.Unused j ∧ (n = auditDirName → ∀ m, s'.entry (.sub j) m = none))
  kept : ∀ {d n j}, s.entry d n = some j → isTmp n = false → s'.entry d n = some j
  nlink : ∀ {d n j}, s.entry d n = some j → (∀ d m, s.entry d m = some j → isTmp m = false) →
    (s'.inode j).nlink = (s.inode j).nlink

omit [ClearanceHost] in
theorem aside_create {d : Dir} {n : String} {w : ℕ} {v : Inode} (hnone : s.entry d n = none)
    (hw : s.Unused w) (hn : Housekeeping n)
    (haudit : n = auditDirName → d = .unit ∧ ∀ m, s.entry (.sub w) m = none) :
    Aside s (s.create d n w v) where
  new {d' n' j} hj := by
    by_cases heq : d' = d ∧ n' = n
    · obtain ⟨rfl, rfl⟩ := heq
      rw [s.create_entry_self] at hj
      obtain rfl := Option.some.inj hj
      refine .inr ⟨hn, hw, fun h m => ?_⟩
      obtain ⟨rfl, hempty⟩ := haudit h
      rw [create_unit_sub]
      exact hempty m
    · rw [s.create_entry_ne _ fun hd hn => heq ⟨hd, hn⟩] at hj
      exact .inl hj
  kept {d' n' j} hj _ := by
    rw [s.create_entry_ne _ ?_, hj]
    rintro rfl rfl
    rw [hnone] at hj
    cases hj
  nlink hj _ := by rw [s.create_inode_ne _ (hw.ne hj)]

omit [ClearanceHost] in
theorem aside_dropTmp {a w : ℕ} {n : String} (ht : isTmp n = true)
    (hw : s.entry (.sub a) n = some w) :
    Aside s (s.unlink (.sub a) n w) where
  new {d' n' j} hj := by
    rw [s.unlink_entry] at hj
    split_ifs at hj
    exact .inl hj
  kept {d' n' j} hj hnt := by
    rw [s.unlink_entry_ne fun _ => ?_, hj]
    rintro rfl
    rw [ht] at hnt
    cases hnt
  nlink {d' n' j} _ hnt := by
    rw [s.unlink_inode_ne]
    rintro rfl
    rw [hnt _ n hw] at ht
    cases ht

omit [ClearanceHost] in
/-- A change of an inode that keeps its links. -/
theorem aside_setInode {w : ℕ} {v : Inode} (hv : v.nlink = (s.inode w).nlink) :
    Aside s (s.setInode w v) where
  new hj := .inl hj
  kept hj _ := hj
  nlink {_ _ j} _ _ := by
    by_cases hj : j = w
    · subst hj
      rw [s.setInode_self, hv]
    · rw [s.setInode_ne v hj]

/-- A change that is not one of the four of the transaction is aside. -/
theorem Change.aside_or (h : Change env r s s') : Aside s s' ∨
    (∃ a tmp w raw q, s.entry .unit auditDirName = some a ∧
      s.entry (.sub a) (intentName r.opId) = none ∧ Staged s a tmp w raw ∧
      IntentReady env r raw q s ∧ s' = s.link (.sub a) (intentName r.opId) w) ∨
    (∃ q i, s.entry .unit pidFile = some i ∧ s.entry .unit q = none ∧ QuarantineReady r q i s ∧
      s' = s.link .unit q i) ∨
    (∃ i, s.entry .unit pidFile = some i ∧ Retirable r s ∧ s' = s.unlink .unit pidFile i) ∨
    ∃ a tmp w raw q, s.entry .unit auditDirName = some a ∧
    s.entry (.sub a) (completeName r.opId) = none ∧ Staged s a tmp w raw ∧
    CompletionReady r raw q s ∧ s' = s.link (.sub a) (completeName r.opId) w := by
  cases h with
  | idle => exact .inl ⟨fun hj => .inl hj, fun hj _ => hj, fun _ _ => rfl⟩
  | lock hnone hw => exact .inl (aside_create hnone hw (.inl rfl) fun h => absurd h (by decide))
  | auditDir hnone hw hempty =>
    exact .inl (aside_create hnone hw (.inr (.inl rfl)) fun _ => ⟨rfl, hempty⟩)
  | tmp _ ht hnone hw =>
    refine .inl (aside_create hnone hw (.inr (.inr ht)) ?_)
    rintro rfl
    exact absurd ht (by decide)
  | write => exact .inl (aside_setInode rfl)
  | chmod => exact .inl (aside_setInode rfl)
  | dropTmp ht hw => exact .inl (aside_dropTmp ht hw)
  | intent ha hnone hst hready => exact .inr (.inl ⟨_, _, _, _, _, ha, hnone, hst, hready, rfl⟩)
  | quarantine hp hnone hready => exact .inr (.inr (.inl ⟨_, _, hp, hnone, hready, rfl⟩))
  | retire hp hready => exact .inr (.inr (.inr (.inl ⟨_, hp, hready, rfl⟩)))
  | completion ha hnone hst hready =>
    exact .inr (.inr (.inr (.inr ⟨_, _, _, _, _, ha, hnone, hst, hready, rfl⟩)))

/-! ## Records that stay as they are -/

/-- The change adds no record of the requests of `R`. -/
structure SameRecords (R : Set ClearRequest) (s s' : FileSys Dir) : Prop where
  audit : ∀ {a n j}, s'.entry .unit auditDirName = some a → s'.entry (.sub a) n = some j →
    s.entry .unit auditDirName = some a
  intents : ∀ {r}, r ∈ R → ∀ {a j}, s'.entry (.sub a) (intentName r.opId) = some j →
    s.entry (.sub a) (intentName r.opId) = some j
  completions : ∀ {r}, r ∈ R → ∀ {a j}, s'.entry (.sub a) (completeName r.opId) = some j →
    s.entry (.sub a) (completeName r.opId) = some j

omit [ClearanceHost] in
theorem Aside.old {d : Dir} {n : String} {j : ℕ} (h : Aside s s') (hj : s'.entry d n = some j)
    (hn : ¬Housekeeping n) : s.entry d n = some j := by
  rcases h.new hj with hold | ⟨hhouse, -⟩
  · exact hold
  · exact absurd hhouse hn

omit [ClearanceHost] in
theorem not_housekeeping_intentName (op : String) : ¬Housekeeping (intentName op) := fun h =>
  h.ne (intentName_ne op (by decide)) (intentName_ne op (by decide)) (isTmp_intentName op) rfl

omit [ClearanceHost] in
theorem not_housekeeping_completeName (op : String) : ¬Housekeeping (completeName op) := fun h =>
  h.ne (completeName_ne op (by decide)) (completeName_ne op (by decide)) (isTmp_completeName op) rfl

omit [ClearanceHost] in
theorem not_housekeeping_pidFile : ¬Housekeeping pidFile := fun h =>
  h.ne (by decide) (by decide) isTmp_pidFile rfl

omit [ClearanceHost] in
theorem IsQuarantine.not_housekeeping (h : IsQuarantine q) : ¬Housekeeping q := fun hh =>
  hh.ne h.ne_lockFile h.ne_auditDirName h.isTmp rfl

theorem Aside.records (h : Aside s s') : SameRecords R s s' where
  audit {a n j} ha hj := by
    rcases h.new ha with hold | ⟨-, -, hempty⟩
    · exact hold
    · rw [hempty rfl n] at hj
      cases hj
  intents {_} _ {_ _} hj := h.old hj (not_housekeeping_intentName _)
  completions {_} _ {_ _} hj := h.old hj (not_housekeeping_completeName _)

namespace SameRecords

theorem intends (h : SameRecords R s s') (hc : Change env r' s s') (hr : r ∈ R)
    (hi : Intends s' r q) :
    Intends s r q := by
  obtain ⟨a, j, ha, hj, hrec⟩ := hi
  have hold := h.intents hr hj
  refine ⟨a, j, h.audit ha hj, hold, ?_⟩
  rw [← (hc.same hold (isTmp_intentName _)).content]
  exact hrec

theorem completedBy {j : ℕ} (h : SameRecords R s s') (hr : r ∈ R) (hc : CompletedBy s' r j) :
    CompletedBy s r j := by
  obtain ⟨a, ha, hj⟩ := hc
  exact ⟨a, h.audit ha hj, h.completions hr hj⟩

/-- With the same records, what is left to show is what the tombstone has become. -/
theorem ledger {st' : NameStage} (h : SameRecords R s s') (hc : Change env r' s s')
    (hl : LedgerAt R i b st s) (hstage : st'.Of i s') (hcontent : (s'.inode i).content = b)
    (howner : ∀ q, st'.quarantine = some q → ∃ r ∈ R, Intends s r q)
    (hunit : ∀ {q}, IsQuarantine q → s.entry .unit q = none ∨ s.entry .unit q = some i →
      s'.entry .unit q = none ∨ s'.entry .unit q = some i)
    (hretired : ∀ q, st = .retired q → st' = .retired q) : LedgerAt R i b st' s' where
  stage := hstage
  content := hcontent
  owner q hq := by
    obtain ⟨r, hr, hi⟩ := howner q hq
    exact ⟨r, hr, hc.intends hi⟩
  intents r hr a j ha hj := by
    obtain ⟨q, hq, hi, hentry⟩ := hl.intents r hr a j (h.audit ha hj) (h.intents hr hj)
    exact ⟨q, hq, hc.intends hi, hunit hq hentry⟩
  distinct r hr r' hr' q hi hi' :=
    hl.distinct r hr r' hr' q (h.intends hc hr hi) (h.intends hc hr' hi')
  completions r hr j hj := by
    have hold := h.completedBy hr hj
    obtain ⟨q, hst, hi, hrec, hsha⟩ := hl.completions r hr j hold
    refine ⟨q, hretired q hst, hc.intends hi, ?_, hsha⟩
    obtain ⟨a, -, hentry⟩ := hold
    rw [(hc.same hentry (isTmp_completeName _)).content]
    exact hrec

end SameRecords

/-! ## The steps of the transaction -/

theorem LedgerAt.isQuarantine (h : LedgerAt R i b st s) (hq : st.quarantine = some q) :
    IsQuarantine q := by
  obtain ⟨r, hr, hi⟩ := h.owner q hq
  obtain ⟨a, j, ha, hj, -⟩ := id hi
  obtain ⟨q', hq', hi', -⟩ := h.intents r hr a j ha hj
  rw [hi.unique hi']
  exact hq'

/-- The tombstone has a name, and none that is temporary. -/
theorem LedgerAt.named (h : LedgerAt R i b st s) :
    ∃ n, s.entry .unit n = some i ∧ isTmp n = false := by
  obtain ⟨n, hn, rfl | hq⟩ := h.stage.named
  · exact ⟨_, hn, isTmp_pidFile⟩
  · exact ⟨n, hn, (h.isQuarantine hq).isTmp⟩

theorem LedgerAt.same (h : LedgerAt R i b st s) (hc : Change env r s s') :
    SameFile (s.inode i) (s'.inode i) := by
  obtain ⟨n, hn, ht⟩ := h.named
  exact hc.same hn ht

theorem LedgerAt.aside (h : LedgerAt R i b st s) (hc : Change env r s s') (ha : Aside s s') :
    LedgerAt R i b st s' := by
  obtain ⟨n, hn, hnt⟩ := h.named
  have htmp : ∀ {d m}, s.entry d m = some i → isTmp m = false := by
    intro d m hm
    obtain rfl := h.stage.unit hm
    cases st with
    | held => obtain ⟨-, rfl⟩ := h.stage.1.only hm; exact isTmp_pidFile
    | linked q =>
      rcases (h.stage.2.2.2 _ _ hm).2 with rfl | rfl
      · exact isTmp_pidFile
      · exact (h.isQuarantine rfl).isTmp
    | retired q => obtain ⟨-, rfl⟩ := h.stage.2.1.only hm; exact (h.isQuarantine rfl).isTmp
  have hentry : ∀ d m, s'.entry d m = some i ↔ s.entry d m = some i := by
    intro d m
    constructor
    · intro hm
      rcases ha.new hm with hold | ⟨-, hunused, -⟩
      · exact hold
      · exact absurd hn (hunused _ _)
    · intro hm
      exact ha.kept hm (htmp hm)
  have hnone : ∀ {m}, ¬Housekeeping m → s.entry .unit m = none → s'.entry .unit m = none := by
    intro m hm hmnone
    rcases hj : s'.entry .unit m with _ | j
    · rfl
    · rw [ha.old hj hm] at hmnone
      cases hmnone
  refine ha.records.ledger hc h
    (h.stage.mono hentry (ha.nlink hn fun _ _ => htmp) (hnone not_housekeeping_pidFile))
    ((h.same hc).content.trans h.content) h.owner ?_ fun _ hq => hq
  rintro q hq (hq' | hq')
  · exact .inl (hnone hq.not_housekeeping hq')
  · exact .inr ((hentry _ _).2 hq')

/-- The intent of the request `r` is published. -/
theorem LedgerAt.intent {a w : ℕ} {tmp : String} {raw : Bytes} (h : LedgerAt R i b st s)
    (hinj : Set.InjOn ClearRequest.opId R) (hunique : env.unique) (hr : r ∈ R)
    (ha : s.entry .unit auditDirName = some a) (hnone : s.entry (.sub a) (intentName r.opId) = none)
    (hst : Staged s a tmp w raw) (hready : IntentReady env r raw q s) :
    LedgerAt R i b st (s.link (.sub a) (intentName r.opId) w) := by
  have hc : Change env r s (s.link (.sub a) (intentName r.opId) w) := .intent ha hnone hst hready
  obtain ⟨hown, hrec, hfresh⟩ := hready
  have hq : IsQuarantine q := hown.isQuarantine
  obtain ⟨hqnone, hqfresh⟩ := hfresh hunique
  obtain ⟨n, hn, hnt⟩ := h.named
  have hwi : i ≠ w := hst.sole.ne hn fun hd => nomatch hd
  have hunit : ∀ m, (s.link (.sub a) (intentName r.opId) w).entry .unit m =
      s.entry .unit m := fun _ =>
    link_sub_unit s
  have hentry : ∀ d m, (s.link (.sub a) (intentName r.opId) w).entry d m = some i ↔
      s.entry d m = some i := by
    intro d m
    rw [s.link_entry]
    split_ifs with heq
    · obtain ⟨rfl, rfl⟩ := heq
      simp [hnone, hwi.symm]
    · exact Iff.rfl
  have hnew : Intends (s.link (.sub a) (intentName r.opId) w) r q := by
    refine ⟨a, w, by rw [hunit, ha], s.link_entry_self _ _ _, ?_⟩
    rw [s.link_inode_self, hst.inode]
    exact hrec
  -- the other intents were there before
  have hold : ∀ {r'}, r' ∈ R → r' ≠ r → ∀ {a' j},
      (s.link (.sub a) (intentName r.opId) w).entry (.sub a') (intentName r'.opId) = some j →
      s.entry (.sub a') (intentName r'.opId) = some j := by
    intro r' hr' hne a' j hj
    rwa [s.link_entry_ne fun _ heq => hne (hinj hr' hr (intentName_inj.1 heq))] at hj
  have hback : ∀ {r' q'}, r' ∈ R → r' ≠ r → Intends (s.link (.sub a) (intentName r.opId) w) r' q' →
      Intends s r' q' := by
    rintro r' q' hr' hne ⟨a', j, ha', hj, hrec'⟩
    have hj' := hold hr' hne hj
    rw [hunit] at ha'
    rw [(hc.same hj' (isTmp_intentName _)).content] at hrec'
    exact ⟨a', j, ha', hj', hrec'⟩
  have hother : ∀ {r'}, r' ∈ R → r' ≠ r → ¬Intends s r' q := by
    rintro r' hr' hne ⟨a', j, ha', hj, hrec'⟩
    obtain ⟨e, he, -⟩ := hrec'.loads (intentRecord_plain r' q)
    exact hqfresh a' _ j e (startsWith_intentName _) hj he (hrec'.quarantine he).2
  refine { stage := ?_, content := (h.same hc).content.trans h.content, owner := ?_, intents := ?_,
           distinct := ?_, completions := ?_ }
  · exact h.stage.mono hentry (by rw [s.link_inode_ne hwi]) fun hp => by rw [hunit, hp]
  · intro q' hq'
    obtain ⟨r', hr', hi⟩ := h.owner q' hq'
    exact ⟨r', hr', hc.intends hi⟩
  · intro r' hr' a' j ha' hj
    rw [hunit] at ha'
    by_cases hne : r' = r
    · subst hne
      exact ⟨q, hq, hnew, .inl (by rw [hunit, hqnone])⟩
    · obtain ⟨q', hq', hi, hentry'⟩ := h.intents r' hr' a' j ha' (hold hr' hne hj)
      exact ⟨q', hq', hc.intends hi, by rwa [hunit]⟩
  · intro r₁ hr₁ r₂ hr₂ q' hi₁ hi₂
    by_cases h₁ : r₁ = r <;> by_cases h₂ : r₂ = r
    · rw [h₁, h₂]
    · subst h₁
      rw [hi₁.unique hnew] at hi₂
      exact absurd (hback hr₂ h₂ hi₂) (hother hr₂ h₂)
    · subst h₂
      rw [hi₂.unique hnew] at hi₁
      exact absurd (hback hr₁ h₁ hi₁) (hother hr₁ h₁)
    · exact h.distinct r₁ hr₁ r₂ hr₂ q' (hback hr₁ h₁ hi₁) (hback hr₂ h₂ hi₂)
  · rintro r' hr' j ⟨a', ha', hj⟩
    rw [hunit] at ha'
    rw [s.link_entry_ne fun _ heq => intentName_ne_completeName _ _ heq.symm] at hj
    obtain ⟨q', hst', hi, hrec', hsha⟩ := h.completions r' hr' j ⟨a', ha', hj⟩
    refine ⟨q', hst', hc.intends hi, ?_, hsha⟩
    rw [(hc.same hj (isTmp_completeName _)).content]
    exact hrec'

/-- The published intent of a request of `R` was written with its quarantine. -/
theorem LedgerAt.intends {intent : Dict} (h : LedgerAt R i b st s) (hr : r ∈ R)
    (hp : Published s r intent q) :
    Intends s r q ∧ intent.entries.Perm (r.intentRecord (.str q)).entries ∧
      (s.entry .unit q = none ∨ s.entry .unit q = some i) := by
  obtain ⟨a, j, -, ha, hj, -⟩ := hp.file
  obtain ⟨q', -, hi, hentry⟩ := h.intents r hr a j ha hj
  obtain ⟨rfl, hperm⟩ := hi.published hp
  exact ⟨hi, hperm, hentry⟩

/-- The file `pid.json` is the tombstone. -/
theorem LedgerAt.pid {j : ℕ} (h : LedgerAt R i b st s)
    (hp : s.entry .unit pidFile = some j) : j = i := by
  cases st with
  | held => exact Option.some.inj (hp.symm.trans h.stage.1.named)
  | linked q => exact Option.some.inj (hp.symm.trans h.stage.1)
  | retired q => exact nomatch hp.symm.trans h.stage.1

/-- The tombstone is linked to the quarantine of the request `r`. -/
theorem LedgerAt.link {j : ℕ} (h : LedgerAt R i b st s) (hc : Change env r s (s.link .unit q j))
    (hr : r ∈ R) (hp : s.entry .unit pidFile = some j)
    (hnone : s.entry .unit q = none) (hready : QuarantineReady r q j s) :
    LedgerAt R i b (.linked q) (s.link .unit q j) := by
  obtain rfl := h.pid hp
  obtain ⟨intent, hpub, -, -, hlinks⟩ := hready
  obtain ⟨hi, -, -⟩ := h.intends hr hpub
  have hnlink : (s.inode j).nlink = 1 := hlinks.resolve_right (by simp [hnone])
  have hheld : st = .held := by
    cases st with
    | held => rfl
    | linked q' => exact absurd (hnlink.symm.trans h.stage.2.2.1) (by decide)
    | retired q' => exact nomatch hp.symm.trans h.stage.1
  subst hheld
  have hsub : ∀ {a n}, (s.link .unit q j).entry (.sub a) n = s.entry (.sub a) n := link_unit_sub s
  have hother : ∀ {n}, n ≠ q → (s.link .unit q j).entry .unit n = s.entry .unit n := fun hn =>
    s.link_entry_ne fun _ => hn
  have hrecords : SameRecords R s (s.link .unit q j) :=
    { audit := fun ha _ => by rwa [hother hpub.name.ne_auditDirName.symm] at ha
      intents := by
        intro r' _ a' j' hj'
        rwa [hsub] at hj'
      completions := by
        intro r' _ a' j' hj'
        rwa [hsub] at hj' }
  refine hrecords.ledger hc h ?_ ((h.same hc).content.trans h.content) ?_ ?_ fun _ hq => nomatch hq
  · refine ⟨(hother hpub.name.ne_pidFile.symm).trans hp, s.link_entry_self _ _ _, ?_, ?_⟩
    · rw [s.link_inode_self]
      show (s.inode j).nlink + 1 = 2
      omega
    · intro d n hn
      rw [s.link_entry] at hn
      split_ifs at hn with heq
      · exact ⟨heq.1, .inr heq.2⟩
      · obtain ⟨hd, hn'⟩ := h.stage.1.only hn
        exact ⟨hd, .inl hn'⟩
  · intro q' hq'
    obtain rfl : q = q' := Option.some.inj hq'
    exact ⟨r, hr, hi⟩
  · intro q' _ hq'
    by_cases heq : q' = q
    · subst heq
      exact .inr (s.link_entry_self _ _ _)
    · rwa [hother heq]

/-- The tombstone is retired. -/
theorem LedgerAt.retire {j : ℕ} (h : LedgerAt R i b st s)
    (hc : Change env r s (s.unlink .unit pidFile j)) (hp : s.entry .unit pidFile = some j)
    (hready : Retirable r s) : ∃ q, LedgerAt R i b (.retired q) (s.unlink .unit pidFile j) := by
  obtain rfl := h.pid hp
  obtain ⟨j', intent, q, hp', -, -, hpub, hq⟩ := hready
  obtain rfl : j = j' := Option.some.inj (hp.symm.trans hp')
  have hlinked : st = .linked q := by
    cases st with
    | held => exact absurd (h.stage.1.only hq).2 hpub.name.ne_pidFile
    | linked q' =>
      have hname := (h.stage.2.2.2 _ _ hq).2.resolve_left hpub.name.ne_pidFile
      rw [hname]
    | retired q' => exact nomatch hp.symm.trans h.stage.1
  subst hlinked
  have hsub : ∀ {a n}, (s.unlink .unit pidFile j).entry (.sub a) n = s.entry (.sub a) n :=
    unlink_unit_sub s
  have hother : ∀ {n}, n ≠ pidFile →
      (s.unlink .unit pidFile j).entry .unit n = s.entry .unit n := fun hn =>
    s.unlink_entry_ne fun _ => hn
  have hrecords : SameRecords R s (s.unlink .unit pidFile j) :=
    { audit := fun ha _ => by rwa [hother (by decide)] at ha
      intents := by
        intro r' _ a' j' hj'
        rwa [hsub] at hj'
      completions := by
        intro r' _ a' j' hj'
        rwa [hsub] at hj' }
  refine ⟨q, hrecords.ledger hc h ?_ ((h.same hc).content.trans h.content) h.owner ?_
    fun _ hq => nomatch hq⟩
  · refine ⟨s.unlink_entry_self _ _ _, ⟨(hother hpub.name.ne_pidFile).trans hq, ?_⟩, ?_⟩
    · intro d n hn
      rw [s.unlink_entry] at hn
      split_ifs at hn with heq
      obtain ⟨rfl, hname⟩ := h.stage.2.2.2 d n hn
      exact ⟨rfl, hname.resolve_left fun hpid => heq ⟨rfl, hpid⟩⟩
    · rw [s.unlink_inode_self]
      show (s.inode j).nlink - 1 = 1
      rw [h.stage.2.2.1]
  · intro q' hq' hentry
    rwa [hother hq'.ne_pidFile]

/-- The completion of the request `r` is published. -/
theorem LedgerAt.completion {a w : ℕ} {tmp : String} {raw : Bytes} (h : LedgerAt R i b st s)
    (hc : Change env r s (s.link (.sub a) (completeName r.opId) w))
    (hinj : Set.InjOn ClearRequest.opId R) (hr : r ∈ R) (ha : s.entry .unit auditDirName = some a)
    (hnone : s.entry (.sub a) (completeName r.opId) = none) (hst : Staged s a tmp w raw)
    (hready : CompletionReady r raw q s) :
    LedgerAt R i b st (s.link (.sub a) (completeName r.opId) w) := by
  obtain ⟨intent, j, hpub, hrec, hpid, hqj, -, hsha⟩ := hready
  obtain ⟨hi, hperm, hqi⟩ := h.intends hr hpub
  obtain rfl : j = i := Option.some.inj (hqj.symm.trans (hqi.resolve_left (by simp [hqj])))
  have hretired : st = .retired q := by
    cases st with
    | held => exact nomatch hpid.symm.trans h.stage.1.named
    | linked q' => exact nomatch hpid.symm.trans h.stage.1
    | retired q' => rw [(h.stage.2.1.only hqj).2]
  obtain ⟨n, hn, hnt⟩ := h.named
  have hwi : j ≠ w := hst.sole.ne hn fun hd => nomatch hd
  have hunit : ∀ m, (s.link (.sub a) (completeName r.opId) w).entry .unit m =
      s.entry .unit m := fun _ =>
    link_sub_unit s
  have hentry : ∀ d m, (s.link (.sub a) (completeName r.opId) w).entry d m = some j ↔
      s.entry d m = some j := by
    intro d m
    rw [s.link_entry]
    split_ifs with heq
    · obtain ⟨rfl, rfl⟩ := heq
      simp [hnone, hwi.symm]
    · exact Iff.rfl
  have hintent : ∀ {r' : ClearRequest} {a' j'},
      (s.link (.sub a) (completeName r.opId) w).entry (.sub a') (intentName r'.opId) = some j' →
      s.entry (.sub a') (intentName r'.opId) = some j' := by
    intro r' a' j' hj'
    rwa [s.link_entry_ne fun _ heq => intentName_ne_completeName _ _ heq] at hj'
  have hback : ∀ {r' q'}, Intends (s.link (.sub a) (completeName r.opId) w) r' q' →
      Intends s r' q' := by
    rintro r' q' ⟨a', j', ha', hj', hrec'⟩
    rw [hunit] at ha'
    rw [(hc.same (hintent hj') (isTmp_intentName _)).content] at hrec'
    exact ⟨a', j', ha', hintent hj', hrec'⟩
  refine { stage := ?_, content := (h.same hc).content.trans h.content, owner := ?_, intents := ?_,
           distinct := ?_, completions := ?_ }
  · exact h.stage.mono hentry (by rw [s.link_inode_ne hwi]) fun hp => by rw [hunit, hp]
  · intro q' hq'
    obtain ⟨r', hr', hi'⟩ := h.owner q' hq'
    exact ⟨r', hr', hc.intends hi'⟩
  · intro r' hr' a' j' ha' hj'
    rw [hunit] at ha'
    obtain ⟨q', hq', hi', hentry'⟩ := h.intents r' hr' a' j' ha' (hintent hj')
    exact ⟨q', hq', hc.intends hi', by rwa [hunit]⟩
  · exact fun r₁ hr₁ r₂ hr₂ q' hi₁ hi₂ => h.distinct r₁ hr₁ r₂ hr₂ q' (hback hi₁) (hback hi₂)
  · rintro r' hr' j' ⟨a', ha', hj'⟩
    rw [hunit] at ha'
    obtain rfl : a = a' := Option.some.inj (ha.symm.trans ha')
    by_cases hne : r' = r
    · subst hne
      rw [s.link_entry_self] at hj'
      obtain rfl := Option.some.inj hj'
      refine ⟨q, hretired, hc.intends hi, ?_, ?_⟩
      · rw [s.link_inode_self, hst.inode]
        obtain ⟨text, htext, rfl⟩ := hrec
        exact ⟨text, dumpsSorted_perm (AList.perm_insert hperm) htext, rfl⟩
      · rw [← h.content, hsha]
    · rw [s.link_entry_ne fun _ heq => hne (hinj hr' hr (completeName_inj.1 heq))] at hj'
      obtain ⟨q', hst', hi', hrec', hsha'⟩ := h.completions r' hr' j' ⟨a, ha', hj'⟩
      refine ⟨q', hst', hc.intends hi', ?_, hsha'⟩
      rw [(hc.same hj' (isTmp_completeName _)).content]
      exact hrec'

/-- **What a call changes keeps the ledger.** -/
theorem Change.ledger (hc : Change env r s s') (hinj : Set.InjOn ClearRequest.opId R)
    (hunique : env.unique) (hr : r ∈ R) (h : Ledger R i b s) : Ledger R i b s' := by
  obtain ⟨st, h⟩ := h
  rcases hc.aside_or with ha | ⟨a, tmp, w, raw, q, ha, hnone, hst, hready, rfl⟩ |
    ⟨q, j, hp, hnone, hready, rfl⟩ | ⟨j, hp, hready, rfl⟩ |
    ⟨a, tmp, w, raw, q, ha, hnone, hst, hready, rfl⟩
  · exact ⟨st, h.aside hc ha⟩
  · exact ⟨st, h.intent hinj hunique hr ha hnone hst hready⟩
  · exact ⟨_, h.link hc hr hp hnone hready⟩
  · obtain ⟨q, h⟩ := h.retire hc hp hready
    exact ⟨_, h⟩
  · exact ⟨st, h.completion hc hinj hr ha hnone hst hready⟩

end DatasourceKit

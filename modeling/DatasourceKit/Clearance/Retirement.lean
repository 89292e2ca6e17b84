/-
  A call of `clear_legacy_process_tombstone`: the retirement and the completion record.

  * `always_publish`: a record is published at once, and what was recoverable still is;
  * `Opened`, `QuarantineLinked`: the tombstone before and after the link to its quarantine;
    `Retired`: where the retirement has got to;
  * `always_retireTombstone`, `always_retireOrResume`, `always_publishCompletion`: the parts.
-/
import DatasourceKit.Clearance.Transaction

namespace DatasourceKit

open Interleave Prog Files ClearanceHost

variable [ClearanceHost] {env : ClearEnv} {r : ClearRequest} {C : Prop} {i depth : ℕ} {b : Bytes}
  {s₀ s s' : FileSys Dir} {ns : Namespace}

/-! ## A new file in the audit directory -/

section
variable {a w : ℕ} {n q : String} {v : Inode} {raw : Bytes}

theorem staged_create (hn : isTmpName n = true) (hw : s.Unused w) :
    Staged (s.create (.sub a) n w ⟨.regular, euid, 0o600, 1, raw⟩) a n w raw :=
  ⟨hn, s.create_soleName _ hw, s.create_inode_self _⟩

theorem Published.create {intent : Dict} (h : Published s r intent q) (hw : s.Unused w)
    (hnone : s.entry (.sub a) n = none) : Published (s.create (.sub a) n w v) r intent q := by
  obtain ⟨a', j, e, ha, hj, he, hperm⟩ := h.file
  refine { h with file := ⟨a', j, e, ?_, ?_, ?_, hperm⟩ }
  · rw [create_sub_unit, ha]
  · rw [s.create_entry_ne, hj]
    rintro hd rfl
    rw [hd, hnone] at hj
    cases hj
  · rw [s.create_inode_ne _ (hw.ne hj)]
    exact he

theorem FreshQuarantine.create (h : FreshQuarantine s q) (hw : s.Unused w)
    (hn : startsWith n "intent-" = false) :
    FreshQuarantine (s.create (.sub a) n w v) q := by
  refine ⟨by rw [create_sub_unit, h.1], fun a' m j d hm hj hd => ?_⟩
  rw [s.create_entry_ne] at hj
  swap
  · rintro - rfl
    rw [hm] at hn
    cases hn
  rw [s.create_inode_ne _ (hw.ne hj)] at hd
  exact h.2 a' m j d hm hj hd

theorem CompletionReady.create (h : CompletionReady r raw q s) (hw : s.Unused w)
    (hnone : s.entry (.sub a) n = none) :
    CompletionReady r raw q (s.create (.sub a) n w v) := by
  obtain ⟨intent, j, hpub, hrec, hpid, hq, hone, hsha⟩ := h
  have hj : (s.create (.sub a) n w v).inode j = s.inode j := s.create_inode_ne _ (hw.ne hq)
  refine ⟨intent, j, hpub.create hw hnone, hrec, ?_, ?_, ?_, ?_⟩
  · rw [create_sub_unit, hpid]
  · rw [create_sub_unit, hq]
  · rw [hj, hone]
  · rw [hj, hsha]

end

/-- The limit is that of the text, whatever the order of the members. -/
theorem FitsRecord.perm {d e : Dict} (h : d.entries.Perm e.entries) (hd : FitsRecord d) :
    FitsRecord e := by
  obtain ⟨text, htext, hlen⟩ := hd
  exact ⟨text, dumpsSorted_perm h htext, hlen⟩

/-- A record of the request that has one link keeps it. -/
theorem Change.lone {a j : ℕ} {n : String} (h : Change env r s s') (hrec : Recoverable r i b s₀ s)
    (hn : n = intentName r.opId ∨ n = completeName r.opId)
    (ha : s.entry .unit auditDirName = some a) (hj : s.entry (.sub a) n = some j)
    (hone : Lone s n) : Lone s' n := by
  intro a' j' ha' hj'
  have ht : isTmp n = false := by rcases hn with rfl | rfl <;> simp
  have ha'' := h.entry ha (by decide) fun _ => by decide
  obtain rfl := Option.some.inj (ha''.symm.trans ha')
  obtain rfl := Option.some.inj ((h.entry hj ht fun hd => nomatch hd).symm.trans hj')
  have hfile := hrec.upkeep.records ha hj hn
  rcases h.links hj ht hfile.unit with hu | ⟨a', t, htmp, hentry, -⟩
  · exact hu.2.trans (hone a j ha hj)
  · rcases hfile.links with ⟨-, hsole⟩ | ⟨htwo, -⟩
    · obtain rfl := (hsole.only hentry).2
      rw [ht] at htmp
      cases htmp
    · rw [hone a j ha hj] at htwo
      cases htwo

section
variable (hC : C → Unhindered env r depth)
include hC

/-- **The publication of a record**: the record is the only change. -/
theorem always_publish {final : String} {d : Dict} {Q : Unit → FileSys Dir → Prop}
    (hat : CallAt env r C i b s₀ ns s) (hfinal : isTmp final = false)
    (hready : ∀ w n text, isTmpName n = true → s.entry (.sub ns.audit) n = none → s.Unused w →
      dumpsSorted d = .ok text → ∀ v,
      (final = intentName r.opId ∧ ∃ q,
        IntentReady env r (text ++ [0x0A]) q (s.create (.sub ns.audit) n w v)) ∨
      (final = completeName r.opId ∧ ∃ q,
        CompletionReady r (text ++ [0x0A]) q (s.create (.sub ns.audit) n w v)))
    (hnew : C → s.entry (.sub ns.audit) final = none) (hfits : C → FitsRecord d)
    (h : ∀ w text, s.Unused w → s.entry (.sub ns.audit) final = none → dumpsSorted d = .ok text →
      CallAt env r C i b s₀ ns
      (s.create (.sub ns.audit) final w ⟨.regular, euid, 0o600, 1, text ++ [0x0A]⟩) →
      Q () (s.create (.sub ns.audit) final w ⟨.regular, euid, 0o600, 1, text ++ [0x0A]⟩)) :
    (atomicPrivateJson ns.audit final d).Always (ClearStep env) (Guard env r) Q
    (Rejection C r b) s := by
  have hwalk : (atomicPrivateJson ns.audit final d).Always (ClearStep env) (Guard env r)
      (fun _ s' => ∃ w text, s.Unused w ∧ s.entry (.sub ns.audit) final = none ∧
        dumpsSorted d = .ok text ∧
        s' = s.create (.sub ns.audit) final w ⟨.regular, euid, 0o600, 1, text ++ [0x0A]⟩)
        (Rejection C r b) s := by
    refine always_atomicPrivateJson guard_reads (fails hC) hfinal ?_ ?_ (fun _ _ => rfl) ?_ ?_ ?_ ?_
    · exact fun n hn => .inr ⟨ns.audit, rfl, hat.bound.audit, hn⟩
    · exact fun s' w n c hn hs => ⟨ns.audit, n, hn, hs⟩
    · intro w n text hn hnone hw htext
      exact .inr ⟨ns.audit, w, _,
        rfl, by rw [create_sub_unit,
          hat.bound.audit], staged_create hn hw, hready w n text hn hnone hw htext _⟩
    · exact fun n s' hn => .inr ⟨ns.audit, rfl, hn⟩
    · exact fun w text hw hnone htext => ⟨w, text, hw, hnone, htext, rfl⟩
    · rintro (hfaulty | hunique | hsome | hlarge) _ _ hc
      · exact absurd hfaulty (hC hc).sound
      · exact absurd (hC hc).unique hunique
      · exact absurd (hnew hc) hsome
      · exact absurd (hfits hc) hlarge
  have hkeep := hwalk.keeping (J := CallAt env r C i b s₀ ns)
    (fun _ _ _ _ hat hg hstep => (change_of_guard hg hstep).at hC hat) hat
  refine hkeep.mono (fun _ _ hg => hg.2) (fun _ s' hq => ?_) fun _ _ he => he.2
  obtain ⟨hat', w, text, hw, hnone, htext, rfl⟩ := hq
  exact h w text hw hnone htext hat'

end

/-! ## The tombstone -/

/-- The content is that of the request's tombstone. -/
theorem matches_iff {raw : Bytes} :
    r.Matches raw ↔ sha256 raw = r.expectedSha256 ∧ isLegacy r (loads raw) = true := by
  refine and_congr_right fun _ => ?_
  constructor
  · rintro ⟨d, hd, htoken, hunit, hgen⟩
    simp [isLegacy, hd, htoken, hunit, hgen]
  · intro h
    rcases hc : loads raw with d | v | _ | _ | _ <;> rw [hc] at h
    · simp only [isLegacy, Bool.and_eq_true, decide_eq_true_eq] at h
      obtain ⟨⟨htoken, hunit⟩, hgen⟩ := h
      refine ⟨d, rfl, htoken, ?_, ?_⟩
      · split at hunit
        · next u hu => rw [hu, beq_iff_eq.1 hunit]
        · cases hunit
      · split at hgen
        · next g hg => rw [hg, beq_iff_eq.1 hgen]
        · cases hgen
    all_goals cases h

/-- A document that is not the request's is refused. -/
theorem rejects_document {msg : String} (h : isLegacy r (loads b) = false)
    (hlong : loads b ≠ .overlong) :
    Rejects r b (.tombstone msg) := by
  refine .refused (fun hc => ?_) fun ho => hlong ho.2.2
  rw [(matches_iff.1 hc.2).2] at h
  cases h

/-- The opened tombstone of the request, whose second link can only be `q`. -/
structure Opened (s : FileSys Dir) (r : ClearRequest) (q : String) (j : ℕ) : Prop where
  named : s.entry .unit pidFile = some j
  kind : (s.inode j).kind = .regular
  legacy : r.Matches (s.inode j).content
  small : (s.inode j).content.length ≤ tombstoneLimit
  links : (s.inode j).nlink = 1 ∨ s.entry .unit q = some j

namespace Opened
variable {q : String} {j : ℕ}

theorem chmod (h : Opened s r q j) {mode : ℕ} : Opened (s.chmod j mode) r q j where
  named := h.named
  kind := by rw [(s.sameFile_chmod j mode j).kind, h.kind]
  legacy := by rw [(s.sameFile_chmod j mode j).content]; exact h.legacy
  small := by rw [(s.sameFile_chmod j mode j).content]; exact h.small
  links := by
    rw [s.chmod_self]
    exact h.links

theorem create (h : Opened s r q j) {a w : ℕ} {n : String} {v : Inode} (hw : s.Unused w) :
    Opened (s.create (.sub a) n w v) r q j := by
  have hj : (s.create (.sub a) n w v).inode j = s.inode j := s.create_inode_ne _ (hw.ne h.named)
  refine ⟨?_, ?_, ?_, ?_, ?_⟩
  · rw [create_sub_unit, h.named]
  · rw [hj, h.kind]
  · rw [hj]
    exact h.legacy
  · rw [hj]
    exact h.small
  · rw [hj, create_sub_unit]
    exact h.links

end Opened

/-- What the tombstone of a recoverable state is linked to, the plan knows. -/
theorem Recoverable.tombstone {a : ℕ} {p : Plan} (h : Recoverable r i b s₀ s)
    (ha : s.entry .unit auditDirName = some a) (hplan : PlanFor env C r a s p)
    (hp : s.entry .unit pidFile = some i) :
    (s.inode i).nlink = 1 ∨
    ((s.inode i).nlink = 2 ∧ p.existing = true ∧ s.entry .unit p.quarantine = some i) := by
  obtain ⟨st, hl⟩ := h.ledger
  cases st with
  | held => exact .inl hl.stage.2
  | linked q =>
    obtain ⟨r', rfl, hi⟩ := hl.owner q rfl
    obtain ⟨hex, rfl, -⟩ := hplan.intends h ha hi
    exact .inr ⟨hl.stage.2.2.1, hex, hl.stage.2.1⟩
  | retired q => exact nomatch hp.symm.trans hl.stage.1

section
variable (hC : C → Unhindered env r depth)
include hC

/-- The check of the opened tombstone. -/
theorem always_checkTombstone {j : ℕ} {p : Plan} {Q : Stat → FileSys Dir → Prop}
    (hat : CallAt env r C i b s₀ ns s) (hplan : PlanFor env C r ns.audit s p)
    (hj : s.entry .unit pidFile = some j) (h : Opened s r p.quarantine j → Q (s.stat j) s) :
    (checkTombstone r p j).Always (ClearStep env) (Guard env r) Q (Rejection C r b) s := by
  have hf := fails (b := b) hC
  have hji : C → j = i := fun hc => (hat.recoverable hc).ledger.pid hj
  have hcontent : C → (s.inode j).content = b :=
    fun hc => by rw [hji hc, (hat.recoverable hc).content]
  have hkind : C → (s.inode j).kind = .regular :=
    fun hc => by rw [hji hc, (hat.recoverable hc).upkeep.kind]
  have hlinks : C → (s.inode j).nlink = 1 ∨
      ((s.inode j).nlink = 2 ∧ p.existing = true ∧ s.entry .unit p.quarantine = some j) := by
    intro hc
    obtain rfl := hji hc
    exact (hat.recoverable hc).tombstone hat.bound.audit hplan hj
  refine always_bind.2 (always_fstat guard_reads hf
    (always_bind.2 (always_readTombstone hC hcontent hkind
    fun raw hsmall hraw => always_bind.2 (always_require (fun hok => ?_) fun hbad hc =>
      rejects_digest fun hsha => ?_))))
  swap
  · rw [hraw (hkind hc), hcontent hc, hsha] at hbad
    rcases hlinks hc with hone | ⟨htwo, hex, -⟩
    · cases hex : p.existing <;> simp [hkind hc, hone, hex] at hbad
    · simp [hkind hc, htwo, hex] at hbad
  simp only [Bool.and_eq_true, beq_iff_eq, FileSys.stat_kind, FileSys.stat_nlink] at hok
  obtain ⟨⟨hk, hnlink⟩, hsha⟩ := hok
  obtain rfl := hraw hk
  have hone : (s.inode j).nlink ≠ 2 → (s.inode j).nlink = 1 := by
    intro hne
    cases hex : p.existing with
    | false => simpa [hex] using hnlink
    | true => simpa [hex, hne] using hnlink
  have hrest : ((s.inode j).nlink = 1 ∨ s.entry .unit p.quarantine = some j) →
      ((loadsOr "legacy tombstone is malformed" (s.inode j).content).bind fun data =>
        (require (isLegacy r data) "tombstone is not tokenless exact legacy metadata").bind fun _ =>
        (Os.stat (.entry .unit pidFile)).bind fun pathst =>
        (require (sameInode pathst (s.stat j)) "tombstone pathname identity changed").bind fun _ =>
        .ret (s.stat j)).Always (ClearStep env) (Guard env r) Q (Rejection C r b) s := by
    intro hlink
    refine always_bind.2 (always_loadsOr
      (fun hlong => always_bind.2 (always_require (fun hlegacy => ?_) fun hno hc => ?_))
      (fun hno hc => ?_) fun hlong m hc => .overlong ?_)
    · refine always_bind.2 (always_stat_entry guard_reads hf (fun k hk' => ?_) fun hnone => ?_)
      · obtain rfl := Option.some.inj (hj.symm.trans hk')
        refine always_bind.2 (always_require (fun _ => ?_) fun hno => ?_)
        · exact h ⟨hj, hk, matches_iff.2 ⟨hsha, hlegacy⟩, hsmall, hlink⟩
        · simp [sameInode] at hno
      · rw [hj] at hnone
        cases hnone
    · rw [hcontent hc] at hno hlong
      exact rejects_document hno hlong
    · rw [hcontent hc] at hno
      rcases hno with hno | hno <;> exact rejects_document (by rw [hno]; rfl) (by simp [hno])
    · rw [hcontent hc] at hsmall hsha hlong
      exact ⟨hsmall, hsha, hlong⟩
  refine always_bind.2 ?_
  split_ifs with htwo
  · refine always_bindNamed guard_reads hf (fun st hst hino => hrest (.inr ?_))
      fun _ hno hc => absurd ?_ hno
    · obtain ⟨k, hk', rfl⟩ := Option.map_eq_some_iff.1 hst
      rw [hk']
      exact congrArg some hino.symm
    · have htwo' : (s.inode j).nlink = 2 := htwo
      rcases hlinks hc with hone' | ⟨-, -, hq⟩
      · rw [htwo'] at hone'
        cases hone'
      · exact ⟨s.stat j, by simp [statNamed, hq], rfl⟩
  · exact hrest (.inl (hone htwo))

/-- The tombstone has its quarantine as a second name. -/
structure QuarantineLinked (s : FileSys Dir) (r : ClearRequest) (q : String) (j : ℕ) : Prop where
  named : s.entry .unit pidFile = some j
  kind : (s.inode j).kind = .regular
  legacy : r.Matches (s.inode j).content
  small : (s.inode j).content.length ≤ tombstoneLimit
  quarantine : s.entry .unit q = some j

omit hC in
theorem Opened.link {q : String} {j : ℕ} (h : Opened s r q j) (hq : q ≠ pidFile) :
    QuarantineLinked (s.link .unit q j) r q j where
  named := by rw [s.link_entry_ne fun _ => hq.symm, h.named]
  kind := by rw [(s.sameFile_link _ _ _ _).kind, h.kind]
  legacy := by rw [(s.sameFile_link _ _ _ _).content]; exact h.legacy
  small := by rw [(s.sameFile_link _ _ _ _).content]; exact h.small
  quarantine := s.link_entry_self _ _ _

/-- The link, which an earlier call may have made. -/
theorem always_linkQuarantine {j : ℕ} {q : String} {intent : Dict} {st : Stat}
    {Q : Unit → FileSys Dir → Prop} (hat : CallAt env r C i b s₀ ns s) (hst : st.ino = j)
    (hpub : Published s r intent q) (ho : Opened s r q j)
    (hprivate : (s.inode j).mode &&& 0o077 = 0) (hold : s.entry .unit q = some j → Q () s)
    (hnew : Change env r s (s.link .unit q j) → Q () (s.link .unit q j)) :
    (linkQuarantine ns q st).Always (ClearStep env) (Guard env r) Q (Rejection C r b) s := by
  have hready : QuarantineReady r q j s := ⟨intent, hpub, ho.legacy, hprivate, ho.links⟩
  refine always_handle.2 (always_bind.2
    (always_link ?_ ?_ (fun k hk hnone => ?_) (fun hnone => ?_) fun hexists => ?_))
  · exact fun f s' hfaulty => fails hC f s' hfaulty
  · refine .inl ⟨rfl, rfl, fun k hk => ?_⟩
    obtain rfl := Option.some.inj (ho.named.symm.trans hk)
    exact hready
  · obtain rfl := Option.some.inj (ho.named.symm.trans hk)
    refine always_quietOp guard_reads (fun f s' hfaulty => ?_) (hnew (.quarantine hk hnone hready))
    exact fails hC f s' hfaulty
  · rw [ho.named] at hnone
    cases hnone
  · refine always_bind.2 (always_stat_entry guard_reads (fails hC) (fun k hk => ?_) fun hnone =>
      absurd hnone hexists)
    refine always_require (fun hsame => hold ?_) fun hne hc => ?_
    · have hkj : k = j := by simpa [sameInode, hst] using hsame
      rw [hk, hkj]
    · have hl := (hat.recoverable hc).ledger
      obtain ⟨st, hl⟩ := hl
      obtain ⟨-, -, hqi⟩ := hl.intends rfl hpub
      have hki : k = i := Option.some.inj (hk.symm.trans (hqi.resolve_left hexists))
      rw [hki, ← hl.pid ho.named] at hne
      simp [sameInode, hst] at hne

omit hC in
/-- A tombstone with both names is in its quarantine. -/
theorem Recoverable.linked {q : String} {j : ℕ} (h : Recoverable r i b s₀ s) (hq : IsQuarantine q)
    (hl : QuarantineLinked s r q j) : HeldAs s i q [1, 2] := by
  obtain ⟨st, hledger⟩ := h.ledger
  obtain rfl := hledger.pid hl.named
  have htwo : (s.inode j).nlink = 2 := by
    cases st with
    | held => exact absurd (hledger.stage.1.only hl.quarantine).2 hq.ne_pidFile
    | linked q' => exact hledger.stage.2.2.1
    | retired q' => exact nomatch hl.named.symm.trans hledger.stage.1
  exact ⟨hl.quarantine, ⟨h.upkeep.kind, h.upkeep.uid,
    h.upkeep.quarantined hq hl.quarantine⟩, by simp [htwo]⟩

theorem always_verifyLink {j : ℕ} {q : String} {st : Stat} {Q : Unit → FileSys Dir → Prop}
    (hat : CallAt env r C i b s₀ ns s) (hq : IsQuarantine q) (hl : QuarantineLinked s r q j)
    (hst : st.ino = j) (h : Q () s) :
    (verifyLink q st).Always (ClearStep env) (Guard env r) Q (Rejection C r b) s := by
  refine always_bind.2 (always_openQuarantine hC (fun hc => (hat.recoverable hc).linked hq hl)
    fun k hk _ _ => ?_)
  obtain rfl := Option.some.inj (hl.quarantine.symm.trans hk)
  refine always_closing guard_reads (fails hC)
    (always_bind.2 (always_require (fun _ => ?_) fun hne => ?_))
  · exact always_quietOp guard_reads (fails hC) h
  · simp [sameInode, hst] at hne

/-! ## The retirement -/

/-- The tombstone of the plan is retired, and the completion is not there yet. -/
structure Retired (env : ClearEnv) (r : ClearRequest) (C : Prop) (i : ℕ) (b : Bytes)
    (s₀ : FileSys Dir) (ns : Namespace) (p : Plan) (s : FileSys Dir) : Prop where
  call : CallAt env r C i b s₀ ns s
  absent : s.entry .unit pidFile = none
  published : Published s r p.intent p.quarantine
  fresh : s.entry (.sub ns.audit) (completeName r.opId) = none
  settled : C → Lone s (intentName r.opId)

omit hC in
/-- A published intent is in a file of the audit directory. -/
theorem Published.entry {a : ℕ} {intent : Dict} {q : String} (h : Published s r intent q)
    (ha : s.entry .unit auditDirName = some a) :
    ∃ j, s.entry (.sub a) (intentName r.opId) = some j := by
  obtain ⟨a', j, -, ha', hj, -⟩ := h.file
  obtain rfl := Option.some.inj (ha.symm.trans ha')
  exact ⟨j, hj⟩

omit hC in
/-- Without `pid.json` the tombstone is in the quarantine of the plan. -/
theorem Retired.held {p : Plan} (h : Retired env r C i b s₀ ns p s) (hc : C) :
    HeldAs s i p.quarantine [1] := by
  have hrec := h.call.recoverable hc
  obtain ⟨q, hi, -, hheld⟩ := hrec.absent h.absent
  obtain ⟨st, hl⟩ := hrec.ledger
  rwa [(hl.intends rfl h.published).1.unique hi]

/-- The tombstone, linked to its quarantine, is retired. -/
theorem always_linkAndRetire {j : ℕ} {p : Plan} {Q : Unit → FileSys Dir → Prop}
    (hat : CallAt env r C i b s₀ ns s) (hpub : Published s r p.intent p.quarantine)
    (ho : Opened s r p.quarantine j) (hprivate : (s.inode j).mode &&& 0o077 = 0)
    (hfresh : s.entry (.sub ns.audit) (completeName r.opId) = none)
    (hlone : C → Lone s (intentName r.opId)) {st : Stat} (hst : st.ino = j)
    (h : ∀ s', Retired env r C i b s₀ ns p s' → Q () s') :
    ((linkQuarantine ns p.quarantine st).bind fun _ => (verifyLink p.quarantine st).bind fun _ =>
      (bindClearanceNamespace ns).bind fun _ => (Os.stat (.entry .unit pidFile)).bind fun current =>
      (require (sameInode st current) "tombstone pathname identity changed").bind fun _ =>
      (Os.unlink .unit pidFile).bind fun _ => fsync ns.dir).Always (ClearStep env) (Guard env r) Q
      (Rejection C r b) s := by
  have hf := fails (b := b) hC
  -- what is left to do once both names are there
  have hrest : ∀ s', CallAt env r C i b s₀ ns s' → Published s' r p.intent p.quarantine →
      QuarantineLinked s' r p.quarantine j → s'.entry (.sub ns.audit) (completeName r.opId) = none →
      (C → Lone s' (intentName r.opId)) → ((verifyLink p.quarantine st).bind fun _ =>
        (bindClearanceNamespace ns).bind fun _ =>
        (Os.stat (.entry .unit pidFile)).bind fun current =>
        (require (sameInode st current) "tombstone pathname identity changed").bind fun _ =>
        (Os.unlink .unit pidFile).bind fun _ => fsync ns.dir).Always (ClearStep env) (Guard env r) Q
        (Rejection C r b) s' := by
    intro s' hat' hpub' hl hfresh' hlone'
    refine always_bind.2 (always_verifyLink hC hat' hpub'.name hl hst (always_bind.2
      (always_bindClearanceNamespace guard_reads hf hat'.bound (always_bind.2
      (always_stat_entry guard_reads hf (fun k hk => ?_) fun hnone => ?_)))))
    swap
    · rw [hl.named] at hnone
      cases hnone
    obtain rfl := Option.some.inj (hl.named.symm.trans hk)
    refine always_bind.2 (always_require (fun _ => ?_) fun hne => ?_)
    swap
    · simp [sameInode, hst] at hne
    have hretirable : Retirable r s' :=
      ⟨j, p.intent, p.quarantine, hk, hl.kind, hl.legacy, hpub', hl.quarantine⟩
    have hsmall : ∀ k, s'.entry .unit pidFile = some k →
        (s'.inode k).content.length ≤ tombstoneLimit := by
      intro k hk'
      obtain rfl := Option.some.inj (hl.named.symm.trans hk')
      exact hl.small
    refine always_bind.2 (always_unlink hf (.inl ⟨rfl, rfl, hretirable, hsmall⟩) (fun k hk' => ?_)
      fun hnone => ?_)
    swap
    · rw [hk] at hnone
      cases hnone
    have hchange : Change env r s' (s'.unlink .unit pidFile k) :=
      .retire hk' hretirable (hsmall k hk')
    refine always_quietOp guard_reads hf
      (h _ ⟨hchange.at hC hat', s'.unlink_entry_self _ _ _, hchange.published hpub',
      ?_, fun hc => ?_⟩)
    · rw [unlink_unit_sub, hfresh']
    · obtain ⟨j', hj'⟩ := hpub'.entry hat'.bound.audit
      exact hchange.lone (hat'.recoverable hc) (.inl rfl) hat'.bound.audit hj' (hlone' hc)
  refine always_bind.2 (always_linkQuarantine hC hat hst hpub ho hprivate (fun hq => ?_)
    fun hchange => ?_)
  · exact hrest s hat hpub ⟨ho.named, ho.kind, ho.legacy, ho.small, hq⟩ hfresh hlone
  · refine hrest _ (hchange.at hC hat) (hchange.published hpub) (ho.link hpub.name.ne_pidFile) ?_
      fun hc => ?_
    · rw [link_unit_sub, hfresh]
    · obtain ⟨j', hj'⟩ := hpub.entry hat.bound.audit
      exact hchange.lone (hat.recoverable hc) (.inl rfl) hat.bound.audit hj' (hlone hc)

omit hC in
/-- The published new intent. -/
theorem published_create {a w : ℕ} {q : String} {text : Bytes} {v : Inode}
    (ha : s.entry .unit auditDirName = some a) (hq : IsQuarantine q)
    (htext : dumpsSorted (r.intentRecord (.str q)) = .ok text) (hv : v.content = text ++ [0x0A]) :
    Published (s.create (.sub a) (intentName r.opId) w v) r (r.intentRecord (.str q)) q := by
  have hrec : IsRecord (text ++ [0x0A]) (r.intentRecord (.str q)) := ⟨text, htext, rfl⟩
  obtain ⟨e, he, hperm⟩ := hrec.loads (intentRecord_plain r q)
  refine ⟨intentRecord_quarantine r _, hq, Dict.pyEq_perm (.refl _) (intentRecord_plain r q), a,
    w, e, ?_, ?_, ?_, hperm⟩
  · rw [create_sub_unit, ha]
  · exact s.create_entry_self ..
  · rw [s.create_inode_self, hv]
    exact he

omit [ClearanceHost] hC in
/-- A published record is alone. -/
theorem lone_create {a w : ℕ} {n : String} {v : Inode}
    (ha : s.entry .unit auditDirName = some a) (hv : v.nlink = 1) :
    Lone (s.create (.sub a) n w v) n := by
  intro a' j ha' hj
  rw [create_sub_unit, ha] at ha'
  obtain rfl := Option.some.inj ha'
  rw [s.create_entry_self] at hj
  obtain rfl := Option.some.inj hj
  rw [s.create_inode_self, hv]

omit hC in
theorem FreshQuarantine.chmod {q : String} {j mode : ℕ} (h : FreshQuarantine s q) :
    FreshQuarantine (s.chmod j mode) q :=
  ⟨h.1, fun a n k d hn hk hd =>
    h.2 a n k d hn hk (by rwa [(s.sameFile_chmod j mode k).content] at hd)⟩

/-- The intent of the plan is published, now or before. -/
theorem always_pledge {j : ℕ} {p : Plan} {Q : Unit → FileSys Dir → Prop}
    (hat : CallAt env r C i b s₀ ns s) (hplan : PlanFor env C r ns.audit s p)
    (ho : Opened s r p.quarantine j) (hprivate : (s.inode j).mode &&& 0o077 = 0)
    (hfresh : s.entry (.sub ns.audit) (completeName r.opId) = none)
    (h : ∀ s', CallAt env r C i b s₀ ns s' → Published s' r p.intent p.quarantine →
      Opened s' r p.quarantine j → (s'.inode j).mode &&& 0o077 = 0 →
      s'.entry (.sub ns.audit) (completeName r.opId) = none →
      (C → Lone s' (intentName r.opId)) → Q () s') :
    (if p.existing then .ret () else atomicPrivateJson ns.audit (intentName r.opId) p.intent :
      ClearProg Unit).Always
      (ClearStep env) (Guard env r) Q (Rejection C r b) s := by
  split_ifs with hex
  · exact h s hat (hplan.existing hex) ho hprivate hfresh hplan.settled
  obtain ⟨hnone, hown, hintent, hunique⟩ := hplan.new (by simpa using hex)
  rw [hintent]
  refine always_publish hC hat (isTmp_intentName _) (fun w n text hn hnone' hw htext v => ?_)
    (fun _ => hnone) (fun hc => ((hC hc).fits _ hown).1) fun w text hw _ htext hat' => ?_
  · refine .inl ⟨rfl, p.quarantine, hown, ⟨text, htext, rfl⟩, fun hu => (hunique hu).create hw ?_⟩
    exact not_startsWith (isTmp_of_isTmpName hn) (by decide)
  · have hj := s.create_inode_ne (d := .sub ns.audit) (n := intentName r.opId)
      ⟨.regular, euid, 0o600, 1, text ++ [0x0A]⟩ (hw.ne ho.named)
    refine h _ hat' ?_ (ho.create hw) (by rw [hj, hprivate]) ?_ fun _ =>
      lone_create hat.bound.audit rfl
    · rw [hintent]
      exact published_create hat.bound.audit hown.isQuarantine htext rfl
    · rw [s.create_entry_ne _ fun _ h => intentName_ne_completeName _ _ h.symm, hfresh]

theorem always_retireTombstone {j : ℕ} {p : Plan} {Q : Unit → FileSys Dir → Prop}
    (hat : CallAt env r C i b s₀ ns s) (hplan : PlanFor env C r ns.audit s p)
    (hj : s.entry .unit pidFile = some j)
    (hfresh : s.entry (.sub ns.audit) (completeName r.opId) = none)
    (h : ∀ s', Retired env r C i b s₀ ns p s' → Q () s') :
    (retireTombstone r ns p j).Always (ClearStep env) (Guard env r) Q (Rejection C r b) s := by
  refine always_bind.2 (always_checkTombstone hC hat hplan hj fun ho => ?_)
  have hchange : Change env r s (s.chmod j 0o600) := .chmod
  have hplan' : PlanFor env C r ns.audit (s.chmod j 0o600) p := by
    refine ⟨fun hex => hchange.published (hplan.existing hex), fun hex => ?_, fun hc => ?_⟩
    · obtain ⟨hnone, hown, hintent, hunique⟩ := hplan.new hex
      exact ⟨hnone, hown, hintent, fun hu => (hunique hu).chmod⟩
    · intro a k ha hk
      have hone := hplan.settled hc a k ha hk
      by_cases hkj : k = j
      · subst hkj
        rw [s.chmod_self]
        exact hone
      · rw [s.chmod_ne _ hkj, hone]
  refine always_bind.2 (always_fchmod (fails hC) rfl
    (always_bind.2 (always_quietOp guard_reads (fails hC)
    (always_bind.2 (always_pledge hC (hchange.at hC hat) hplan' ho.chmod ?_ hfresh ?_)))))
  · rw [s.chmod_self]
    show 0o600 &&& 0o077 = 0
    decide
  · exact fun s' hat' hpub ho' hprivate hfresh' hlone =>
      always_linkAndRetire hC hat' hpub ho' hprivate hfresh' hlone rfl h

/-- The tombstone is retired, now or by an earlier call. -/
theorem always_retireOrResume {p : Plan} {Q : Unit → FileSys Dir → Prop}
    (hat : CallAt env r C i b s₀ ns s) (hplan : PlanFor env C r ns.audit s p)
    (hfresh : s.entry (.sub ns.audit) (completeName r.opId) = none)
    (h : ∀ s', Retired env r C i b s₀ ns p s' → Q () s') :
    (retireOrResume r ns p).Always (ClearStep env) (Guard env r) Q (Rejection C r b) s := by
  refine always_bind.2 (always_catching.2
    (always_openFile guard_reads ?_ (fun j hj _ => ?_) (fun hnone => ?_)
    fun j e hj he => ?_))
  · exact fun f s' hfaulty => fails hC f s' hfaulty
  · exact always_closing guard_reads (fails hC) (always_retireTombstone hC hat hplan hj hfresh h)
  · have habsent : C → ∃ q, Intends s r q ∧ HeldAs s i q [1] := fun hc => by
      obtain ⟨q, hi, -, hheld⟩ := (hat.recoverable hc).absent hnone
      exact ⟨q, hi, hheld⟩
    refine always_bind.2 (always_require (fun hex => ?_) fun hex hc => ?_)
    · refine always_checkQuarantine hC hat.recoverable (fun hc => ?_)
        (h s ⟨hat, hnone, hplan.existing hex, hfresh, hplan.settled⟩)
      obtain ⟨q, hi, hheld⟩ := habsent hc
      rwa [(hplan.intends (hat.recoverable hc) hat.bound.audit hi).2.1]
    · obtain ⟨q, hi, -⟩ := habsent hc
      rw [(hplan.intends (hat.recoverable hc) hat.bound.audit hi).1] at hex
      cases hex
  · have hnc : ¬C := fun hc => by
      have hk : (s.inode j).kind = .regular := by
        rw [(hat.recoverable hc).ledger.pid hj]
        exact (hat.recoverable hc).upkeep.kind
      rw [hk] at he
      cases he
    cases e <;> first | exact fun hc => absurd hc hnc |
      exact absurd rfl (isPrivate_of_refused (d := false) [] he).2

/-! ## The completion -/

/-- What a call that has returned leaves. -/
structure Done (r : ClearRequest) (i : ℕ) (b : Bytes) (s₀ s : FileSys Dir) : Prop where
  recoverable : Recoverable r i b s₀ s
  completed : ∃ j, CompletedBy s r j
  intentLone : Lone s (intentName r.opId)
  completionLone : Lone s (completeName r.opId)

theorem always_publishCompletion {p : Plan} {Q : Unit → FileSys Dir → Prop}
    (hr : Retired env r C i b s₀ ns p s) (h : ∀ s', (C → Done r i b s₀ s') → Q () s') :
    (publishCompletion r ns p).Always (ClearStep env) (Guard env r) Q (Rejection C r b) s := by
  have hf := fails (b := b) hC
  have hat := hr.call
  have hperm : C → ∃ q, r.OwnQuarantine q ∧
      p.intent.entries.Perm (r.intentRecord (.str q)).entries := fun hc => by
    obtain ⟨st, hl⟩ := (hat.recoverable hc).ledger
    obtain ⟨hi, hperm, -⟩ := hl.intends rfl hr.published
    exact ⟨_, (hat.recoverable hc).upkeep.own hi, hperm⟩
  refine always_bind.2 (always_verifyRetired hC hat.recoverable hr.held fun j hj hone hsha => ?_)
  refine always_bind.2 (always_publish hC hat (isTmp_completeName _)
    (fun w n text _ hnone hw htext v => ?_) (fun _ => hr.fresh) (fun hc => ?_)
    fun w text hw _ _ hat' => ?_)
  · refine .inr ⟨rfl, p.quarantine, CompletionReady.create ?_ hw hnone⟩
    exact ⟨p.intent, j, hr.published, ⟨text, htext, rfl⟩, hr.absent, hj, hone, hsha⟩
  · obtain ⟨q, hown, hperm⟩ := hperm hc
    exact ((hC hc).fits q hown).2.perm (AList.perm_insert hperm.symm)
  generalize hs' : s.create (.sub ns.audit) (completeName r.opId) w _ = s' at hat'
  have hcomplete : s'.entry (.sub ns.audit) (completeName r.opId) = some w := by
    rw [← hs']
    exact s.create_entry_self ..
  have hlone : Lone s' (completeName r.opId) := by
    rw [← hs']
    exact lone_create hat.bound.audit rfl
  have hfile : PrivateFile s' w .regular := by
    rw [← hs']
    refine ⟨?_, ?_, ?_⟩ <;> rw [s.create_inode_self]
    exact (by decide : 0o600 &&& 0o077 = 0)
  refine always_bind.2 (always_requireRetired guard_reads hf (fun _ => ?_) fun k _ hk => ?_)
  swap
  · rw [← hs', create_sub_unit, hr.absent] at hk
    cases hk
  refine always_bind.2 (always_bindClearanceNamespace guard_reads hf hat'.bound (always_bind.2
    (always_openPrivateNamed guard_reads hf (fun k hk _ => ?_) (fun hnone => ?_)
      fun k hk hbad => ?_)))
  · refine always_closing guard_reads hf
      (always_bindReturned hC hat'.bound.audit hk (h s' fun hc => ?_))
    refine ⟨hat'.recoverable hc, ⟨k, ns.audit, hat'.bound.audit, hk⟩, ?_, hlone⟩
    intro a m ha hm
    obtain rfl := Option.some.inj (hat'.bound.audit.symm.trans ha)
    rw [← hs', s.create_entry_ne _ fun _ h => intentName_ne_completeName _ _ h] at hm
    have hmw : m ≠ w := hw.ne hm
    rw [← hs', s.create_inode_ne _ hmw]
    exact hr.settled hc _ m hat.bound.audit hm
  · rw [hcomplete] at hnone
    cases hnone
  · obtain rfl := Option.some.inj (hcomplete.symm.trans hk)
    rw [isPrivate_iff.2 ⟨hfile, by simp [hlone _ _ hat'.bound.audit hk]⟩] at hbad
    cases hbad

end

end DatasourceKit

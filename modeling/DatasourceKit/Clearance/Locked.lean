/-
  A call of `clear_legacy_process_tombstone`: the namespace, and the whole call.

  * `always_openTrustedUnitDirectory`, `always_openUnitLock`, `always_makeAuditDirectory`: the
    namespace is opened, where an earlier call has left it or anew;
  * `always_clearInNamespace`: the transaction; `Done`: what it leaves;
  * `always_clearLegacyProcessTombstone`: the whole call.
-/
import DatasourceKit.Clearance.Retirement

namespace DatasourceKit

open Interleave Prog Files ClearanceHost

variable [ClearanceHost] {env : ClearEnv} {r : ClearRequest} {C : Prop} {i depth : ℕ} {b : Bytes}
  {s₀ s s' : FileSys Dir} {ns : Namespace}

/-! ## The transaction -/

/-- Where the intent can be written, its index can. -/
theorem dumpsSorted_indexFields {v : Json} {text : Bytes}
    (h : dumpsSorted (r.intentRecord v) = .ok text) :
    ∃ text', dumpsSorted r.indexFields = .ok text' := by
  have hgeneration : (r.intentRecord v).lookup "generation" = some (.int r.generation) := by
    rw [ClearRequest.intentRecord, Dict.lookup_update_of_notMem _ (by simp),
      ClearRequest.indexFields]
    exact Dict.lookup_update_of_mem _ (by simp) (by simp)
  have hdigits := dumps_iff.1 (dumpsSorted_ok h).1 _ (AList.mem_lookup_iff.1 hgeneration)
  have hdumps : dumps r.indexFields = .ok r.indexFields := by
    refine dumps_iff.2 (Dict.forall_update (P := fun v => v.digitsOk = true)
      (fun x hx => nomatch hx) ?_)
    have hversion : (Json.int 2).digitsOk = true := by decide
    have hstr : ∀ s, (Json.str s).digitsOk = true := fun _ => by simp [Json.digitsOk]
    have hasserted : (Json.bool true).digitsOk = true := by simp [Json.digitsOk]
    simp [hversion, hdigits, hstr, hasserted]
  exact ⟨_, by rw [dumpsSorted, hdumps]; rfl⟩

section
variable (hC : C → Unhindered env r depth)
include hC

/-- **The transaction**: the request is completed, now or before. -/
theorem always_clearInNamespace {Q : Unit → FileSys Dir → Prop} (hat : CallAt env r C i b s₀ ns s)
    (h : ∀ s', (C → Done r i b s₀ s') → Q () s') :
    (clearInNamespace r ns).Always (ClearStep env) (Guard env r) Q (Rejection C r b) s := by
  have hf := fails (b := b) hC
  refine always_bind.2 (always_bindClearanceNamespace guard_reads hf hat.bound (always_bind.2 ?_))
  rcases hindex : dumpsSorted r.indexFields with e | canonical
  · intro hc
    have hown : r.OwnQuarantine
        (quarantineName r.expectedSha256 "00000000000000000000000000000000") :=
      ⟨_, by decide, by decide, rfl⟩
    obtain ⟨text, htext, -⟩ := ((hC hc).fits _ hown).1
    obtain ⟨text', htext'⟩ := dumpsSorted_indexFields htext
    rw [hindex] at htext'
    cases htext'
  refine always_bind.2 (always_uuid guard_reads hf fun u hlen hu hfresh => always_bind.2 ?_)
  rw [safeQuarantine_quarantineName r.digest hlen hu]
  -- the transaction with its plan
  have hplanned : ∀ s' p, CallAt env r C i b s₀ ns s' → PlanFor env C r ns.audit s' p →
      ((readExactAudit ns.audit (completeName r.opId) (completionRecord p.intent)).bind fun completed =>
        if completed then confirmCompleted r ns p.quarantine
        else (retireOrResume r ns p).bind fun _ =>
        publishCompletion r ns p).Always (ClearStep env) (Guard env r) Q
        (Rejection C r b) s' := by
    intro s' p hat' hplan
    refine always_bind.2 (always_readExactAudit hC hat'.recoverable hat'.bound.audit hplan
      (fun hnone => ?_) fun s'' j htidy hj hlone => ?_)
    · exact always_bind.2 (always_retireOrResume hC hat' hplan hnone fun s'' hretired =>
        always_publishCompletion hC hretired h)
    · have hchange : Change env r s' s'' := htidy.change
      have hat'' := hchange.at hC hat'
      refine always_confirmCompleted hC hat'' hj (fun hc q hi => ?_) (h s'' fun hc => ?_)
      · exact (hplan.intends (hat'.recoverable hc) hat'.bound.audit (hi.old htidy)).2.1
      · refine ⟨hat''.recoverable hc, ⟨j, ns.audit, hat''.bound.audit, hj⟩, ?_, hlone hc⟩
        obtain ⟨q, -, hi, -⟩ := (hat''.recoverable hc).completion hat''.bound.audit hj
        obtain ⟨a, k, ha, hk, -⟩ := hi.old htidy
        exact hchange.lone (hat'.recoverable hc) (.inl rfl) ha hk (hplan.settled hc)
  refine always_bind.2 (always_readIntent hC hat.recoverable hat.bound.audit (fun hnone => ?_)
    fun s' e q htidy hpub hlone => ?_)
  · refine hplanned s _ hat ⟨(nomatch ·), fun _ =>
      ⟨hnone, ⟨u, hlen, hu, rfl⟩, rfl, fun hunique => ?_⟩, fun _ => ?_⟩
    · exact (hfresh hunique).1 _
    · intro a j ha hj
      obtain rfl := Option.some.inj (hat.bound.audit.symm.trans ha)
      rw [hnone] at hj
      cases hj
  · exact hplanned s' _ (htidy.change.at hC hat) ⟨fun _ => hpub, (nomatch ·), hlone⟩

/-! ## The namespace -/

/-- The path to the unit directory is walked down, every component being trusted. -/
theorem always_openTrustedUnitDirectory {n : ℕ} {Q : Stat → FileSys Dir → Prop} (hn : C → n = depth)
    (h : ∀ st, (∃ st', env.path.getLast? = some st' ∧ st.ino = st'.ino) → Q st s) :
    (openTrustedUnitDirectory n).Always (ClearStep env) (Guard env r) Q (Rejection C r b) s := by
  have hf := fails (b := b) hC
  have hpart : C → ∀ k, k < n → ∃ st, env.path[k]? = some st ∧ st.kind = .directory ∧
      validateTrustedDirectory st (decide (0 < k ∧ k + 1 = n)) = .ok () := by
    intro hc k hk
    obtain ⟨hlength, -, hvalid⟩ := (hC hc).trusted
    obtain rfl := hn hc
    have hst : env.path[k]? = some env.path[k] := List.getElem?_eq_getElem (by omega)
    refine ⟨_, hst, ?_, hvalid k _ hst⟩
    have hv := hvalid k _ hst
    unfold validateTrustedDirectory at hv
    split_ifs at hv with hdir
    all_goals exact not_not.1 hdir
  have hpos : C → 0 < n := fun hc => by rw [hn hc]; exact (hC hc).trusted.pos
  have hvalidate : ∀ {k unit} {Q : Unit → FileSys Dir → Prop}, Q () s →
      (C → k < n ∧ unit = decide (0 < k ∧ k + 1 = n)) →
      (validatePart k unit).Always (ClearStep env) (Guard env r) Q (Rejection C r b) s := by
    intro k unit Q hq hk
    refine always_orClose guard_reads hf
      (always_bind.2 (always_fstatPart guard_reads hf (fun st hst => ?_)
      fun hnone _ hc => ?_))
    · rcases hv : validateTrustedDirectory st unit with e | u
      · intro hc
        obtain ⟨st', hst', -, hv'⟩ := hpart hc k (hk hc).1
        obtain rfl := Option.some.inj (hst.symm.trans hst')
        rw [(hk hc).2, hv'] at hv
        cases hv
      · exact hq
    · obtain ⟨st', hst', -⟩ := hpart hc k (hk hc).1
      cases hnone.symm.trans hst'
  have hopen : ∀ {k} {Q : Unit → FileSys Dir → Prop}, Q () s → (C → k < n) →
      (Os.openPart k).Always (ClearStep env) (Guard env r) Q (Rejection C r b) s := by
    intro k Q hq hk
    refine always_openPart guard_reads hf hq fun hbad _ hc => ?_
    obtain ⟨st, hst, hdir, -⟩ := hpart hc k (hk hc)
    exact absurd hdir (hbad st hst)
  have hwalk : ∀ m k {Q : Unit → FileSys Dir → Prop}, Q () s → (C → k + m < n) →
      (walkParts n k m).Always (ClearStep env) (Guard env r) Q (Rejection C r b) s := by
    intro m
    induction m with
    | zero => exact fun k Q hq _ => hq
    | succ m ih =>
      intro k Q hq hk
      refine always_bind.2 (always_orClose guard_reads hf (always_bind.2 (hopen ?_ fun hc => ?_)))
      · refine always_quietOp guard_reads hf
          (always_bind.2 (hvalidate (ih (k + 1) hq fun hc => ?_) fun hc => ?_))
        · have := hk hc
          omega
        · have := hk hc
          refine ⟨by omega, ?_⟩
          rw [Bool.eq_iff_iff, beq_iff_eq, decide_eq_true_eq]
          omega
      · have := hk hc
        omega
  refine always_bind.2 (hopen
    (always_bind.2 (hvalidate (always_bind.2 (hwalk _ 0 ?_ fun hc => ?_)) fun hc => ?_)) hpos)
  · refine always_orClose guard_reads hf
      (always_bind.2 (always_fstatPart guard_reads hf (fun st hst => ?_)
      fun hnone _ hc => ?_))
    · have hlast : C → env.path.getLast? = some st := fun hc => by
        rw [List.getLast?_eq_getElem?, ← hst, (hC hc).trusted.length, hn hc]
      refine always_bind.2 (always_stat guard_reads hf (fun st' hst' => ?_) fun hnone hc => ?_)
      · refine always_bind.2 (always_require
          (fun hsame => h st ⟨st', hst', by simpa [sameInode] using hsame⟩) fun hne hc => ?_)
        obtain rfl := Option.some.inj ((hlast hc).symm.trans hst')
        simp [sameInode] at hne
      · cases (hlast hc).symm.trans hnone
    · obtain ⟨st, hst, -⟩ := hpart hc (n - 1) (by have := hpos hc; omega)
      cases hnone.symm.trans hst
  · have := hpos hc
    omega
  · exact ⟨hpos hc, by simp⟩

/-- The lock of the unit is opened, or made. -/
theorem always_openUnitLock {dir : Fd} {Q : ℕ → FileSys Dir → Prop}
    (hrec : C → Recoverable r i b s₀ s)
    (h : ∀ s' l, (C → Recoverable r i b s₀ s') → s'.entry .unit lockFile = some l → Q l s') :
    (openUnitLock dir).Always (ClearStep env) (Guard env r) Q (Rejection C r b) s := by
  have hf := fails (b := b) hC
  have hnc : env.faulty → ¬C := fun hfaulty hc => (hC hc).sound hfaulty
  have hraise : ∀ {e s'} {m : String} {fd : Fd}, ¬C → (if e.isOSError then (close fd).bind fun _ =>
      .raise (.tombstone m) else .raise e :
      ClearProg ℕ).Always (ClearStep env) (Guard env r) Q (Rejection C r b) s' := by
    intro e s' m fd hnc
    split_ifs
    · exact always_bind.2 (always_quietOp guard_reads hf fun hc => absurd hc hnc)
    · exact fun hc => absurd hc hnc
  refine always_bind.2 (always_catching.2
    (always_create ?_ (.inl ⟨rfl, rfl⟩) (fun w mode hnone hw hmode => ?_)
    fun hexists => ?_))
  · exact fun f s' hfaulty hc => absurd hc (hnc hfaulty)
  · have hcreate : Change env r s (s.create .unit lockFile w ⟨.regular, euid, mode, 1, []⟩) :=
      .lock hnone hw hmode
    have hrec' : C → Recoverable r i b s₀
        ((s.create .unit lockFile w ⟨.regular, euid, mode, 1, []⟩).chmod w 0o600) :=
      fun hc => Change.chmod.recoverable (hC hc).unique
        (hcreate.recoverable (hC hc).unique (hrec hc))
    have hf' : ∀ (f : Fault) (s' : FileSys Dir), env.faulty → _ := fun f s' hfaulty =>
      @hraise (.fault f) s' "unit lock could not be durably published" (.file w) (hnc hfaulty)
    refine always_handle.2 (always_bind.2
      (always_fchmod hf' rfl (always_bind.2 (always_quietOp guard_reads hf'
      (always_bind.2 (always_quietOp guard_reads hf' (h _ w hrec' ?_)))))))
    rw [FileSys.chmod_entry, s.create_entry_self]
  · rcases hentry : s.entry .unit lockFile with _ | l
    · exact absurd hentry hexists
    refine always_handle.2 (always_openFile guard_reads (fun f s' hfaulty => ?_)
      (fun j hj _ => h s j hrec hj) (fun hnone => absurd hnone hexists) fun j e hj he hc => ?_)
    · exact fun hc => absurd hc (hnc hfaulty)
    · rw [((hrec hc).upkeep.lock hj).1.kind] at he
      cases he

theorem always_lockUnit {l : ℕ} {Q : Stat → FileSys Dir → Prop} (hrec : C → Recoverable r i b s₀ s)
    (hl : s.entry .unit lockFile = some l) (h : Q (s.stat l) s) :
    (lockUnit l).Always (ClearStep env) (Guard env r) Q (Rejection C r b) s := by
  have hf := fails (b := b) hC
  refine always_bind.2 (always_fstat guard_reads hf
    (always_bind.2 (always_stat_entry guard_reads hf (fun k hk => ?_)
    fun hnone => ?_)))
  · obtain rfl := Option.some.inj (hl.symm.trans hk)
    refine always_bind.2 (always_require (fun _ => always_bind.2 (always_quietOp guard_reads hf h))
      fun hbad hc => ?_)
    obtain ⟨hfile, hone, -⟩ := (hrec hc).upkeep.lock hl
    rw [isPrivate_iff.2 ⟨hfile, by simp [hone]⟩] at hbad
    simp [sameInode] at hbad
  · rw [hl] at hnone
    cases hnone

/-- The audit directory is there, or is made. -/
theorem always_makeAuditDirectory {dir : Fd} {Q : Unit → FileSys Dir → Prop}
    (h : ∀ s', Change env r s s' → s'.entry .unit auditDirName ≠ none → Q () s') :
    (makeAuditDirectory dir).Always (ClearStep env) (Guard env r) Q (Rejection C r b) s := by
  have hf := fails (b := b) hC
  refine always_handle.2 (always_bind.2
    (always_mkdir ?_ rfl (fun w mode hnone hw hempty hmode => ?_)
    fun hexists => h s .idle hexists))
  · exact hf
  · refine always_quietOp guard_reads (fun f s' hfaulty => ?_)
      (h _ (.auditDir hnone hw hempty hmode) ?_)
    · exact hf f s' hfaulty
    · rw [s.create_entry_self]
      simp

/-! ## The whole call -/

theorem always_clearWithLock {dir : Fd} {unitSt : Stat} {l : ℕ} {Q : Unit → FileSys Dir → Prop}
    (hrec : C → Recoverable r i b s₀ s)
    (hpath : ∃ st, env.path.getLast? = some st ∧ unitSt.ino = st.ino)
    (hl : s.entry .unit lockFile = some l) (h : ∀ s', (C → Done r i b s₀ s') → Q () s') :
    (clearWithLock r dir unitSt l).Always (ClearStep env) (Guard env r) Q (Rejection C r b) s := by
  have hf := fails (b := b) hC
  refine always_bind.2 (always_lockUnit hC hrec hl
      (always_bind.2 (always_makeAuditDirectory hC fun s' hchange hsome =>
    always_bind.2 (always_openPrivateNamed guard_reads hf (fun a ha _ => ?_) (fun hnone => ?_)
      fun a ha hbad => ?_))))
  · have hrec' : C → Recoverable r i b s₀ s' := fun hc =>
      hchange.recoverable (hC hc).unique (hrec hc)
    have hl' := hchange.entry hl (by decide) fun _ => by decide
    exact always_closing guard_reads hf
      (always_clearInNamespace hC ⟨⟨hpath, hl', ha, rfl⟩, hrec'⟩ h)
  · exact absurd hnone hsome
  · intro e _ hc
    have hfile := (hchange.recoverable (hC hc).unique (hrec hc)).upkeep.audit ha
    simp [isPrivate, hfile.kind, hfile.uid, hfile.mode] at hbad

theorem always_clearInDirectory {dir : Fd} {unitSt : Stat} {Q : Unit → FileSys Dir → Prop}
    (hrec : C → Recoverable r i b s₀ s)
    (hpath : ∃ st, env.path.getLast? = some st ∧ unitSt.ino = st.ino)
    (h : ∀ s', (C → Done r i b s₀ s') → Q () s') :
    (clearInDirectory r dir unitSt).Always (ClearStep env) (Guard env r) Q (Rejection C r b) s := by
  have hf := fails (b := b) hC
  have hfinally : ∀ {l s'} {Q : FileSys Dir → Prop}, Q s' →
      ((Os.quiet .unlock (.file l)).ensure (close (.file l))).Always (ClearStep env) (Guard env r)
        (fun _ s => Q s) (Rejection C r b) s' := by
    intro l s' Q hq
    refine always_ensure.2 (always_quietOp guard_reads (fun f s'' hfaulty => ?_)
      (always_quietOp guard_reads hf hq))
    exact always_quietOp guard_reads hf (hf f s'' hfaulty)
  refine always_bind.2 (always_openUnitLock hC hrec fun s' l hrec' hl => always_ensure.2 ?_)
  exact (always_clearWithLock hC hrec' hpath hl fun s'' hdone => hfinally (h s'' hdone)).mono
    (fun _ _ hg => hg) (fun _ _ hq => hq) fun e _ hnc => hfinally hnc

/-- **A call**: it performs only what its guards allow; and where earlier calls for the
    request have left a recoverable state, a call that meets no failure completes it, or rejects
    what it finds. -/
theorem always_clearLegacyProcessTombstone {directory : List String} {args : ClearArgs}
    (hargs : args.validate = .ok r) (hdepth : C → directory.length = depth)
    (hrec : C → Recoverable r i b s₀ s) :
    (clearLegacyProcessTombstone directory args).Always (ClearStep env) (Guard env r)
      (fun path s' => C → path = directory ++ completionPath r ∧ Done r i b s₀ s')
      (Rejection C r b) s := by
  have hf := fails (b := b) hC
  have hlocked : (clearLocked directory args).Always (ClearStep env) (Guard env r)
      (fun path s' => C → path = directory ++ completionPath r ∧ Done r i b s₀ s')
          (Rejection C r b) s := by
    rw [clearLocked, hargs]
    refine always_bind.2 (always_bind.2
      (always_openTrustedUnitDirectory hC hdepth fun st hst => ?_))
    exact always_closing guard_reads hf
        (always_bind.2 (always_clearInDirectory hC hrec hst fun s' hdone hc =>
      ⟨rfl, hdone hc⟩))
  refine always_handle.2 (hlocked.mono (fun _ _ hg => hg) (fun _ _ hq => hq) fun e _ he => ?_)
  split_ifs with hos
  · exact fun hc => absurd hos (by simp [(he hc).isOSError])
  · exact he

end

end DatasourceKit

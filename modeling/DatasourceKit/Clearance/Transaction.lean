/-
  A call of `clear_legacy_process_tombstone`, step by step.

  Every part of the transaction has one specification, which serves two ends: with `C` false
  it says that a call performs nothing but what its guards allow, from any state; with `C`
  true, that a call which meets no failure gets through where earlier calls for the request
  have left a recoverable state, unless it rejects the tombstone.

  * `Unhindered`: the assumptions of the second use; `Rejects`: what is raised for which tombstone;
    `Smooth`: the assumptions under which nothing is;
  * `Bound`: the namespace of the call is still the one it opened;
  * `CallAt`: where a call is, and what it leaves recoverable;
  * `always_readIntent`, `always_readExactAudit`, `always_openQuarantine`, …: the parts.
-/
import DatasourceKit.Clearance.Upkeep
import DatasourceKit.Clearance.Calls

namespace DatasourceKit

open Interleave Prog Files ClearanceHost

variable [ClearanceHost]

/-- Both records of the request are within the limit. -/
def ClearRequest.Fits (r : ClearRequest) : Prop :=
  ∀ q, r.OwnQuarantine q → FitsRecord (r.intentRecord (.str q)) ∧
    FitsRecord (completionRecord (r.intentRecord (.str q)))

/-- The path to the unit directory passes the checks. -/
structure TrustedPath (path : List Stat) (depth : ℕ) : Prop where
  length : path.length = depth
  pos : 0 < depth
  valid : ∀ k st, path[k]? = some st →
    validateTrustedDirectory st (decide (0 < k ∧ k + 1 = depth)) = .ok ()

/-- A call for the request `r` meets no failure on its way to the tombstone and from it. -/
structure Unhindered (env : ClearEnv) (r : ClearRequest) (depth : ℕ) : Prop where
  sound : ¬env.faulty
  unique : env.unique
  trusted : TrustedPath env.path depth
  fits : r.Fits

/-- The content of the tombstone is what the request is about. -/
def ClearRequest.Clears (r : ClearRequest) (b : Bytes) : Prop :=
  b.length ≤ tombstoneLimit ∧ r.Matches b

/-- The content has the digest, but an integer of it is too long for `int`. -/
def ClearRequest.Overlong (r : ClearRequest) (b : Bytes) : Prop :=
  b.length ≤ tombstoneLimit ∧ sha256 b = r.expectedSha256 ∧ loads b = .overlong

/-- What a call raises for a tombstone with the content `b`. -/
inductive Rejects (r : ClearRequest) (b : Bytes) : Exc → Prop
  | refused {msg} (h : ¬r.Clears b) (hshort : ¬r.Overlong b) : Rejects r b (.tombstone msg)
  | overlong {msg} (h : r.Overlong b) : Rejects r b (.valueError msg)

theorem rejects_large {r : ClearRequest} {b : Bytes} {msg : String}
    (h : tombstoneLimit < b.length) :
    Rejects r b (.tombstone msg) :=
  .refused (fun hc => absurd hc.1 (not_le.2 h)) fun ho => absurd ho.1 (not_le.2 h)

theorem rejects_digest {r : ClearRequest} {b : Bytes} {msg : String}
    (h : sha256 b ≠ r.expectedSha256) :
    Rejects r b (.tombstone msg) :=
  .refused (fun hc => h hc.2.1) fun ho => h ho.2.1

theorem Rejects.isOSError {r : ClearRequest} {b : Bytes} {e : Exc} (h : Rejects r b e) :
    e.isOSError = false := by
  cases h <;> rfl

theorem Rejects.not_clears {r : ClearRequest} {b : Bytes} {e : Exc} (h : Rejects r b e) :
    ¬r.Clears b := by
  rcases h with ⟨h, -⟩ | ⟨-, -, hlong⟩
  · exact h
  · rintro ⟨-, -, d, hd, -⟩
    cases hlong.symm.trans hd

/-- A call that meets no failure fails only on its tombstone. -/
abbrev Rejection (C : Prop) (r : ClearRequest) (b : Bytes) :
    Exc → FileSys Dir → Prop := fun e _ => C → Rejects r b e

/-- A call for the request `r` of the tombstone `b` may be expected to succeed. -/
structure Smooth (env : ClearEnv) (r : ClearRequest) (b : Bytes) (depth : ℕ) : Prop where
  sound : ¬env.faulty
  unique : env.unique
  trusted : TrustedPath env.path depth
  fits : r.Fits
  legacy : r.Matches b
  small : b.length ≤ tombstoneLimit

theorem Smooth.unhindered {env : ClearEnv} {r : ClearRequest} {b : Bytes} {depth : ℕ}
    (h : Smooth env r b depth) :
    Unhindered env r depth :=
  ⟨h.sound, h.unique, h.trusted, h.fits⟩

theorem Smooth.clears {env : ClearEnv} {r : ClearRequest} {b : Bytes} {depth : ℕ}
    (h : Smooth env r b depth) :
    r.Clears b :=
  ⟨h.small, h.legacy⟩

/-- The names of the opened namespace lead to what was opened. -/
structure Bound (env : ClearEnv) (ns : Namespace) (s : FileSys Dir) : Prop where
  path : ∃ st, env.path.getLast? = some st ∧ ns.unitSt.ino = st.ino
  lock : s.entry .unit lockFile = some ns.lockSt.ino
  audit : s.entry .unit auditDirName = some ns.audit
  auditSt : ns.auditSt.ino = ns.audit

/-- A call is in the state `s`, which is recoverable if `C`. -/
structure CallAt (env : ClearEnv) (r : ClearRequest) (C : Prop) (i : ℕ) (b : Bytes)
    (s₀ : FileSys Dir) (ns : Namespace) (s : FileSys Dir) : Prop where
  bound : Bound env ns s
  recoverable : C → Recoverable r i b s₀ s

section
variable {env : ClearEnv} {r : ClearRequest} {C : Prop} {i depth : ℕ} {b : Bytes}
  {s₀ s s' : FileSys Dir} {ns : Namespace}

theorem guard_reads : ∀ o s, ClearOp.reads o = true → Guard env r o s := by
  intro o s h
  cases o with
  | create | mkdir | link | unlink | write | fchmod => cases h
  | _ => trivial

theorem Change.bound (h : Change env r s s') (hb : Bound env ns s) : Bound env ns s' where
  path := hb.path
  lock := h.entry hb.lock (by decide) fun _ => by decide
  audit := h.entry hb.audit (by decide) fun _ => by decide
  auditSt := hb.auditSt

theorem Change.at (h : Change env r s s') (hC : C → Unhindered env r depth)
    (ha : CallAt env r C i b s₀ ns s) :
    CallAt env r C i b s₀ ns s' where
  bound := h.bound ha.bound
  recoverable hc := h.recoverable (hC hc).unique (ha.recoverable hc)

/-- The record has one link. -/
def Lone (s : FileSys Dir) (n : String) : Prop :=
  ∀ a j, s.entry .unit auditDirName = some a → s.entry (.sub a) n = some j → (s.inode j).nlink = 1

/-! ## The namespace -/

section
variable {G : ClearOp → FileSys Dir → Prop} {E : Exc → FileSys Dir → Prop}
  {Q : Unit → FileSys Dir → Prop} (hG : ∀ o s, o.reads = true → G o s)
  (hf : ∀ f s', env.faulty → E (.fault f) s')
include hG hf

theorem always_bindNamed {opened : Stat} {n : Named} {message : String}
    (hok : ∀ st, statNamed env.path s n = some st → opened.ino = st.ino → Q () s)
    (hbad : ∀ e, ((∃ st, statNamed env.path s n = some st ∧ opened.ino = st.ino) → False) → E e s) :
    (bindNamed opened n message).Always (ClearStep env) G Q E s := by
  refine always_bind.2 (always_catching.2 (always_stat hG ?_ (fun st hst => ?_) fun hnone => ?_))
  · exact hf
  · refine always_require (fun h => hok st hst (by simpa [sameInode] using h)) fun h => hbad _ ?_
    rintro ⟨st', hst', heq⟩
    obtain rfl := Option.some.inj (hst.symm.trans hst')
    simp [sameInode, heq] at h
  · refine hbad _ ?_
    rintro ⟨st', hst', -⟩
    cases hnone.symm.trans hst'

/-- The names still lead to what was opened. -/
theorem always_bindBound {opened : Stat} {n : Named} {message : String}
    (h : ∃ st, statNamed env.path s n = some st ∧ opened.ino = st.ino) (hq : Q () s) :
    (bindNamed opened n message).Always (ClearStep env) G Q E s :=
  always_bindNamed hG hf (fun _ _ _ => hq) fun _ hno => absurd h hno

theorem always_bindClearanceNamespace (hb : Bound env ns s) (hq : Q () s) :
    (bindClearanceNamespace ns).Always (ClearStep env) G Q E s := by
  refine always_bind.2 (always_bindBound hG hf hb.path (always_bind.2 (always_bindBound hG hf ?_
    (always_bind.2 (always_bindBound hG hf ?_ (always_bind.2 (always_fstat hG hf ?_)))))))
  · exact ⟨s.stat ns.lockSt.ino, by simp [statNamed, hb.lock], rfl⟩
  · exact ⟨s.stat ns.audit, by simp [statNamed, hb.audit], hb.auditSt⟩
  · refine always_require (fun _ => hq) fun h => ?_
    simp [sameInode, hb.auditSt] at h

theorem always_requireRetired {msg : String} (hnone : s.entry .unit pidFile = none → Q () s)
    (hsome : ∀ j e, s.entry .unit pidFile = some j → E e s) :
    (requireRetired msg).Always (ClearStep env) G Q E s := by
  refine always_bind.2 (always_catching.2
    (always_stat_entry hG ?_ (fun j hj => hsome j _ hj) hnone))
  exact hf

end

/-- At most a temporary name has gone. -/
def Tidied (s s' : FileSys Dir) : Prop :=
  s' = s ∨ ∃ a m j, isTmp m = true ∧ s.entry (.sub a) m = some j ∧ s' = s.unlink (.sub a) m j

theorem Tidied.change (h : Tidied s s') : Change env r s s' := by
  rcases h with rfl | ⟨a, m, j, hm, hj, rfl⟩
  · exact .idle
  · exact .dropTmp hm hj

omit [ClearanceHost] in
theorem Tidied.old {d : Dir} {n : String} {j : ℕ} (h : Tidied s s') (hj : s'.entry d n = some j) :
    s.entry d n = some j := by
  rcases h with rfl | ⟨a, m, k, -, -, rfl⟩
  · exact hj
  · rw [s.unlink_entry] at hj
    split_ifs at hj
    exact hj

/-! ## What is recoverable -/

/-- A private file with an allowed number of links. -/
theorem isPrivate_iff {j : ℕ} {allowed : List ℕ} :
    isPrivate (s.stat j) false allowed = true ↔
    PrivateFile s j .regular ∧ (s.inode j).nlink ∈ allowed := by
  simp only [isPrivate, Bool.and_eq_true, beq_iff_eq, Bool.false_eq_true, if_false,
    List.contains_iff_mem, FileSys.stat_kind, FileSys.stat_uid,
    FileSys.stat_mode, FileSys.stat_nlink]
  constructor
  · rintro ⟨⟨⟨hk, hl⟩, hu⟩, hm⟩
    exact ⟨⟨hk, hu, hm⟩, hl⟩
  · rintro ⟨⟨hk, hu, hm⟩, hl⟩
    exact ⟨⟨⟨hk, hl⟩, hu⟩, hm⟩

namespace Recoverable
variable {a j : ℕ} {n : String}

theorem isPrivate (h : Recoverable r i b s₀ s) (ha : s.entry .unit auditDirName = some a)
    (hj : s.entry (.sub a) n = some j) (hn : n = intentName r.opId ∨ n = completeName r.opId) :
    isPrivate (s.stat j) false [1, 2] = true := by
  have hrec := h.upkeep.records ha hj hn
  have hnlink : (s.inode j).nlink = 1 ∨ (s.inode j).nlink = 2 := hrec.links.imp And.left And.left
  exact isPrivate_iff.2 ⟨hrec.privateFile, by simpa using hnlink⟩

/-- A record with two links has exactly one temporary name. -/
theorem link (h : Recoverable r i b s₀ s) (ha : s.entry .unit auditDirName = some a)
    (hj : s.entry (.sub a) n = some j) (hn : n = intentName r.opId ∨ n = completeName r.opId)
    (htwo : (s.inode j).nlink = 2) : ∃ t, IsLink s a j t ∧ ∀ m, IsLink s a j m → m = t := by
  rcases (h.upkeep.records ha hj hn).links with ⟨hone, -⟩ | ⟨-, t, ht, hentry, honly⟩
  · rw [htwo] at hone
    cases hone
  refine ⟨t, ⟨ht, hentry⟩, fun m hm => (honly _ _ hm.2).2.resolve_left ?_⟩
  rintro rfl
  have htmp := isTmp_of_isTmpName hm.1
  rcases hn with rfl | rfl <;> simp at htmp

theorem nlink (h : Recoverable r i b s₀ s) (ha : s.entry .unit auditDirName = some a)
    (hj : s.entry (.sub a) n = some j) (hn : n = intentName r.opId ∨ n = completeName r.opId)
    (hne : (s.inode j).nlink ≠ 2) : (s.inode j).nlink = 1 :=
  ((h.upkeep.records ha hj hn).links.imp And.left And.left).resolve_right hne

/-- The intent of the request. -/
theorem intent (h : Recoverable r i b s₀ s) (ha : s.entry .unit auditDirName = some a)
    (hj : s.entry (.sub a) (intentName r.opId) = some j) :
    ∃ q, r.OwnQuarantine q ∧ Intends s r q ∧
    IsRecord (s.inode j).content (r.intentRecord (.str q)) := by
  obtain ⟨st, hl⟩ := h.ledger
  obtain ⟨q, -, hi, -⟩ := hl.intents r rfl a j ha hj
  obtain ⟨a', j', ha', hj', hrec⟩ := id hi
  obtain rfl := Option.some.inj (ha.symm.trans ha')
  obtain rfl := Option.some.inj (hj.symm.trans hj')
  exact ⟨q, h.upkeep.own hi, hi, hrec⟩

/-- The completion of the request: its tombstone is retired. -/
theorem completion (h : Recoverable r i b s₀ s) (ha : s.entry .unit auditDirName = some a)
    (hj : s.entry (.sub a) (completeName r.opId) = some j) :
    ∃ q, r.OwnQuarantine q ∧ Intends s r q ∧ (NameStage.retired q).Of i s ∧
      IsRecord (s.inode j).content (completionRecord (r.intentRecord (.str q))) := by
  obtain ⟨st, hl⟩ := h.ledger
  obtain ⟨q, rfl, hi, hrec, -⟩ := hl.completions r rfl j ⟨a, ha, hj⟩
  exact ⟨q, h.upkeep.own hi, hi, hl.stage, hrec⟩

theorem content (h : Recoverable r i b s₀ s) : (s.inode i).content = b := by
  obtain ⟨st, hl⟩ := h.ledger
  exact hl.content

end Recoverable

/-- A record within the limit is read. -/
theorem IsRecord.length {raw : Bytes} {d : Dict} (h : IsRecord raw d) (hfit : FitsRecord d) :
    raw.length ≤ recordLimit := by
  obtain ⟨text, htext, rfl⟩ := h
  obtain ⟨text', htext', hlen⟩ := hfit
  obtain rfl : text = text' := Except.ok.inj (htext.symm.trans htext')
  simpa using hlen

section
variable (hC : C → Unhindered env r depth)
include hC

/-- No operation fails. -/
theorem fails : ∀ f s', env.faulty → Rejection C r b (.fault f) s' := fun _ _ h hc =>
    absurd h (hC hc).sound

/-- A record that an earlier call has left with a temporary name loses that name. -/
theorem always_recoverRecord {a j : ℕ} {n : String} {E : Exc → FileSys Dir → Prop}
    {Q : Unit → FileSys Dir → Prop} (hrec : C → Recoverable r i b s₀ s)
    (ha : s.entry .unit auditDirName = some a) (hj : s.entry (.sub a) n = some j)
    (hn : n = intentName r.opId ∨ n = completeName r.opId)
    (hE : ∀ e s', e ≠ .notFound → ¬C → E e s')
    (h : ∀ s', Tidied s s' → (C → (s'.inode j).nlink = 1) → Q () s') :
    (recoverAuditLink j (s.stat j) a).Always (ClearStep env) (Guard env r) Q E s := by
  refine always_recoverAuditLink guard_reads
    (fun f s' hfaulty => hE _ _ (by simp) fun hc => (hC hc).sound hfaulty)
    (fun m hm => .inr ⟨a, rfl, isTmp_of_isTmpName hm⟩) (fun hne => ?_) (fun m hm htwo => ?_)
    fun htwo hno e hne => ?_
  · exact h s (.inl rfl) fun hc => (hrec hc).nlink ha hj hn hne
  · refine h _ (.inr ⟨a, m, j, isTmp_of_isTmpName hm.1, hm.2, rfl⟩) fun _ => ?_
    rw [s.unlink_inode_self]
    show (s.inode j).nlink - 1 = 1
    rw [htwo]
  · exact hE e s hne fun hc => hno ((hrec hc).link ha hj hn htwo)

/-! ## The intent -/

/-- The intent that is read is the one that was written. -/
theorem always_readOpenIntent {a j : ℕ} {Q : Content → FileSys Dir → Prop}
    (hrec : C → Recoverable r i b s₀ s) (ha : s.entry .unit auditDirName = some a)
    (hj : s.entry (.sub a) (intentName r.opId) = some j) (hk : (s.inode j).kind = .regular)
    (h : Q (loads (s.inode j).content) s) :
    (readOpenIntent a (intentName r.opId) j).Always (ClearStep env) (Guard env r) Q
    (Rejection C r b) s := by
  have hf := fails (b := b) hC
  have hread : C → (s.inode j).content.length ≤ recordLimit ∧
      ∃ e, loads (s.inode j).content = .doc e := by
    intro hc
    obtain ⟨q, hown, -, hrecord⟩ := (hrec hc).intent ha hj
    obtain ⟨e, he, -⟩ := hrecord.loads (intentRecord_plain r q)
    exact ⟨hrecord.length ((hC hc).fits q hown).1, e, he⟩
  refine always_bind.2 (always_readRegularFd guard_reads hf (fun raw _ hraw => ?_)
    (fun hno => absurd hk hno) fun _ hlarge hc => ?_)
  swap
  · have := (hread hc).1
    omega
  obtain rfl := hraw hk
  refine always_bind.2 (always_loadsOr (fun _ => ?_) (fun hno hc => ?_) fun hno _ hc => ?_)
  rotate_left
  · obtain ⟨-, e, he⟩ := hread hc
    rcases hno with hno | hno <;> cases he.symm.trans hno
  · obtain ⟨-, e, he⟩ := hread hc
    cases he.symm.trans hno
  refine always_bind.2 (always_fstat guard_reads hf (always_bind.2 (always_stat_entry guard_reads hf
    (fun k hk' => ?_) fun hnone => ?_)))
  · obtain rfl := Option.some.inj (hj.symm.trans hk')
    refine always_bind.2 (always_require (fun _ => h) fun hno => ?_)
    simp [sameInode] at hno
  · rw [hj] at hnone
    cases hnone

omit hC in
/-- An intent that is the request's becomes its plan. -/
theorem always_adoptIntent {c : Content} {Q : Plan → FileSys Dir → Prop}
    (hread : C → ∃ q e, r.OwnQuarantine q ∧ c = .doc e ∧
      e.entries.Perm (r.intentRecord (.str q)).entries)
    (h : ∀ e q, c = .doc e → e.get "quarantine" = .str q → IsQuarantine q →
      e.pyEq (r.intentRecord (.str q)) = true → Q ⟨e, true, q⟩ s) :
    (adoptIntent r c).Always (ClearStep env) (Guard env r) Q (Rejection C r b) s := by
  rcases c with e | v | _ | _ | _
  rotate_left
  · exact fun hc => by obtain ⟨q, e, -, he, -⟩ := hread hc; cases he
  · exact fun hc => by obtain ⟨q, e, -, he, -⟩ := hread hc; cases he
  · exact fun hc => by obtain ⟨q, e, -, he, -⟩ := hread hc; cases he
  · exact fun hc => by obtain ⟨q, e, -, he, -⟩ := hread hc; cases he
  have hown : C → ∃ q, r.OwnQuarantine q ∧ e.get "quarantine" = .str q ∧
      e.pyEq (r.intentRecord (.str q)) = true := by
    intro hc
    obtain ⟨q, e', hq, he, hperm⟩ := hread hc
    obtain rfl := Content.doc.inj he
    refine ⟨q, hq, ?_, Dict.pyEq_perm hperm fun x hx => intentRecord_plain r q x (hperm.subset hx)⟩
    rw [Dict.get_perm hperm, intentRecord_quarantine]
  refine always_bind.2 (always_require (fun hpy => ?_) fun hpy hc => ?_)
  swap
  · obtain ⟨q, -, hget, hpy'⟩ := hown hc
    rw [hget, hpy'] at hpy
    cases hpy
  rcases hsafe : safeQuarantine (e.get "quarantine") with err | q
  · intro hc
    obtain ⟨q, ⟨u, hlen, hu, rfl⟩, hget, -⟩ := hown hc
    rw [hget, safeQuarantine_quarantineName r.digest hlen hu] at hsafe
    cases hsafe
  · obtain ⟨hget, hq⟩ := safeQuarantine_eq_ok hsafe
    rw [hget] at hpy
    exact h e q rfl hget hq hpy

/-- The plan is that of the published intent if there is one, and else a new one. -/
theorem always_readIntent {a : ℕ} {q : String} {Q : Plan → FileSys Dir → Prop}
    (hrec : C → Recoverable r i b s₀ s) (ha : s.entry .unit auditDirName = some a)
    (hnew : s.entry (.sub a) (intentName r.opId) = none → Q ⟨r.intentRecord (.str q), false, q⟩ s)
    (hold : ∀ s' e q', Tidied s s' → Published s' r e q' → (C → Lone s' (intentName r.opId)) →
      Q ⟨e, true, q'⟩ s') :
    (readIntent r a q).Always (ClearStep env) (Guard env r) Q (Rejection C r b) s := by
  refine always_bind.2 (always_catching.2
    (always_bind.2 (always_openPrivateNamed guard_reads ?_ ?_ hnew ?_)))
  · exact fails hC
  · intro j hj hprivate
    have hk : (s.inode j).kind = .regular := (isPrivate_iff.1 hprivate).1.kind
    refine always_bind.2 (always_recoverRecord hC hrec ha hj (.inl rfl) ?_ fun s' htidy hone => ?_)
    · intro e s' hne hnc
      cases e <;> first | exact fun hc => absurd hc hnc | exact absurd rfl hne
    have hchange : Change env r s s' := htidy.change
    have hrec' : C → Recoverable r i b s₀ s' := fun hc =>
      hchange.recoverable (hC hc).unique (hrec hc)
    have ha' := hchange.entry ha (by decide) fun _ => by decide
    have hj' := hchange.entry hj (isTmp_intentName _) fun hd => nomatch hd
    refine always_bind.2 (always_closing guard_reads (fails hC)
      (always_readOpenIntent hC hrec' ha' hj'
      ((hchange.same hj (isTmp_intentName _)).kind.trans hk) ?_))
    refine always_adoptIntent (fun hc => ?_) fun e q' he hget hq' hpy => ?_
    · obtain ⟨q', hown, -, hrecord⟩ := (hrec' hc).intent ha' hj'
      obtain ⟨e, he, hperm⟩ := hrecord.loads (intentRecord_plain r q')
      exact ⟨q', e, hown, he, hperm⟩
    · refine hold s' e q' htidy ⟨hget, hq', hpy, a, j, e, ha', hj', he, .refl _⟩
        fun hc a'' j'' ha'' hj'' => ?_
      obtain rfl := Option.some.inj (ha'.symm.trans ha'')
      obtain rfl := Option.some.inj (hj'.symm.trans hj'')
      exact hone hc
  · intro j hj hprivate e hne
    have hnc : ¬C := fun hc => by
      rw [(hrec hc).isPrivate ha hj (.inl rfl)] at hprivate
      cases hprivate
    cases e <;> first | exact fun hc => absurd hc hnc | exact absurd rfl hne

/-! ## The completion -/

/-- The plan is about the intent that is there, or about one that is not there yet. -/
structure PlanFor (env : ClearEnv) (C : Prop) (r : ClearRequest) (a : ℕ) (s : FileSys Dir)
    (p : Plan) : Prop where
  existing : p.existing = true → Published s r p.intent p.quarantine
  new : p.existing = false → s.entry (.sub a) (intentName r.opId) = none ∧
    r.OwnQuarantine p.quarantine ∧ p.intent = r.intentRecord (.str p.quarantine) ∧
    (env.unique → FreshQuarantine s p.quarantine)
  settled : C → Lone s (intentName r.opId)

omit hC in
theorem PlanFor.intends {a : ℕ} {p : Plan} {q : String} (h : PlanFor env C r a s p)
    (hrec : Recoverable r i b s₀ s) (ha : s.entry .unit auditDirName = some a)
    (hi : Intends s r q) :
    p.existing = true ∧ p.quarantine = q ∧
    p.intent.entries.Perm (r.intentRecord (.str q)).entries := by
  rcases hex : p.existing with _ | _
  · obtain ⟨a', j, ha', hj, -⟩ := hi
    obtain rfl := Option.some.inj (ha.symm.trans ha')
    exact nomatch (h.new hex).1.symm.trans hj
  · obtain ⟨st, hl⟩ := hrec.ledger
    obtain ⟨hi', hperm, -⟩ := hl.intends rfl (h.existing hex)
    obtain rfl := hi.unique hi'
    exact ⟨rfl, rfl, hperm⟩

omit hC in
theorem Intends.old {q : String} (h : Intends s' r q) (ht : Tidied s s') : Intends s r q := by
  obtain ⟨a, j, ha, hj, hrecord⟩ := h
  refine ⟨a, j, ht.old ha, ht.old hj, ?_⟩
  have hchange : Change ⟨[], False, False⟩ r s s' := ht.change
  rw [← (hchange.same (ht.old hj) (isTmp_intentName _)).content]
  exact hrecord

/-- The completion that is read is the one that was written. -/
theorem always_readExactAudit {a : ℕ} {p : Plan} {Q : Bool → FileSys Dir → Prop}
    (hrec : C → Recoverable r i b s₀ s) (ha : s.entry .unit auditDirName = some a)
    (hplan : PlanFor env C r a s p)
    (hno : s.entry (.sub a) (completeName r.opId) = none → Q false s)
    (hyes : ∀ s' j, Tidied s s' → s'.entry (.sub a) (completeName r.opId) = some j →
      (C → Lone s' (completeName r.opId)) → Q true s') :
    (readExactAudit a (completeName r.opId) (completionRecord p.intent)).Always (ClearStep env)
    (Guard env r) Q (Rejection C r b) s := by
  have hf := fails (b := b) hC
  refine always_bind.2 (always_catching.2 (always_openPrivateNamed guard_reads ?_ ?_ hno ?_))
  · exact hf
  swap
  · intro j hj hprivate e hne
    have hnc : ¬C := fun hc => by
      rw [(hrec hc).isPrivate ha hj (.inr rfl)] at hprivate
      cases hprivate
    cases e <;> first | exact fun hc => absurd hc hnc | exact absurd rfl hne
  intro j hj hprivate
  have hk : (s.inode j).kind = .regular := (isPrivate_iff.1 hprivate).1.kind
  refine always_closing guard_reads hf (always_bind.2 (always_recoverRecord hC hrec ha hj (.inr rfl)
    (fun e s' _ hnc hc => absurd hc hnc) fun s' htidy hone => ?_))
  have hchange : Change env r s s' := htidy.change
  have hj' := hchange.entry hj (isTmp_completeName _) fun hd => nomatch hd
  have hsame := hchange.same hj (isTmp_completeName _)
  have hread : C → (s.inode j).content.length ≤ recordLimit ∧
      ∃ e, loads (s.inode j).content = .doc e ∧ e.pyEq (completionRecord p.intent) = true := by
    intro hc
    obtain ⟨q, hown, hi, -, hrecord⟩ := (hrec hc).completion ha hj
    have hplain := completionRecord_plain (intentRecord_plain r q)
    obtain ⟨e, he, hperm⟩ := hrecord.loads hplain
    refine ⟨hrecord.length ((hC hc).fits q hown).2, e, he, ?_⟩
    refine Dict.pyEq_perm (hperm.trans (AList.perm_insert (hplan.intends (hrec hc) ha hi).2.2.symm))
      fun x hx => ?_
    exact hplain x (hperm.subset hx)
  refine always_bind.2 (always_readRegularFd guard_reads hf (fun raw _ hraw => ?_)
    (fun hnk => absurd (hsame.kind.trans hk) hnk) fun _ hlarge hc => ?_)
  swap
  · rw [hsame.content] at hlarge
    have := (hread hc).1
    omega
  obtain rfl := hraw (hsame.kind.trans hk)
  rw [hsame.content]
  refine always_bind.2 (always_loadsOr (fun _ => ?_) (fun hno hc => ?_) fun hno _ hc => ?_)
  rotate_left
  · obtain ⟨-, e, he, -⟩ := hread hc
    rcases hno with hno | hno <;> cases he.symm.trans hno
  · obtain ⟨-, e, he, -⟩ := hread hc
    cases he.symm.trans hno
  refine always_bind.2 (always_require (fun _ => ?_) fun hne hc => ?_)
  swap
  · obtain ⟨-, e, he, hpy⟩ := hread hc
    rw [he, contentEq, hpy] at hne
    cases hne
  refine always_bind.2 (always_stat_entry guard_reads hf
    (fun k hk' => always_bind.2 (always_fstat guard_reads hf ?_)) fun hnone => ?_)
  · obtain rfl := Option.some.inj (hj'.symm.trans hk')
    refine always_bind.2 (always_require (fun _ => hyes s' j htidy hj' fun hc a' j' ha' hj'' => ?_)
      fun hno => ?_)
    · have ha'' := hchange.entry ha (by decide) fun _ => by decide
      obtain rfl := Option.some.inj (ha''.symm.trans ha')
      obtain rfl := Option.some.inj (hj'.symm.trans hj'')
      exact hone hc
    · simp [sameInode] at hno
  · rw [hj'] at hnone
    cases hnone

/-! ## The quarantine -/

/-- The tombstone is private and has the name `q`. -/
def HeldAs (s : FileSys Dir) (i : ℕ) (q : String) (allowed : List ℕ) : Prop :=
  s.entry .unit q = some i ∧ PrivateFile s i .regular ∧ (s.inode i).nlink ∈ allowed

omit hC in
theorem Recoverable.retired {q : String} (h : Recoverable r i b s₀ s)
    (hst : (NameStage.retired q).Of i s) (hq : IsQuarantine q) : HeldAs s i q [1] :=
  ⟨hst.2.1.named, ⟨h.upkeep.kind, h.upkeep.uid,
    h.upkeep.quarantined hq hst.2.1.named⟩, by simp [hst.2.2]⟩

omit hC in
/-- Without `pid.json` the tombstone is in the quarantine of its intent. -/
theorem Recoverable.absent (h : Recoverable r i b s₀ s) (hp : s.entry .unit pidFile = none) :
    ∃ q, Intends s r q ∧ (NameStage.retired q).Of i s ∧ HeldAs s i q [1] := by
  obtain ⟨st, hl⟩ := h.ledger
  cases st with
  | held => exact nomatch hp.symm.trans hl.stage.1.named
  | linked q => exact nomatch hp.symm.trans hl.stage.1
  | retired q =>
    obtain ⟨r', rfl, hi⟩ := hl.owner q rfl
    exact ⟨q, hi, hl.stage, h.retired hl.stage (hl.isQuarantine rfl)⟩

theorem always_openQuarantine {q : String} {allowed : List ℕ} {Q : ℕ × Stat → FileSys Dir → Prop}
    (hq : C → HeldAs s i q allowed)
    (h : ∀ j, s.entry .unit q = some j → PrivateFile s j .regular →
      (s.inode j).nlink ∈ allowed → Q (j, s.stat j) s) :
    (openPrivateNamed .unit q false allowed).Always (ClearStep env) (Guard env r) Q
    (Rejection C r b) s := by
  refine always_openPrivateNamed guard_reads (fails hC) (fun j hj hprivate => ?_)
    (fun hnone hc => ?_) fun j hj hprivate _ _ hc => ?_
  · obtain ⟨hfile, hlinks⟩ := isPrivate_iff.1 hprivate
    exact h j hj hfile hlinks
  · rw [(hq hc).1] at hnone
    cases hnone
  · obtain ⟨hentry, hfile, hlinks⟩ := hq hc
    obtain rfl := Option.some.inj (hentry.symm.trans hj)
    rw [isPrivate_iff.2 ⟨hfile, hlinks⟩] at hprivate
    cases hprivate

/-- The tombstone is read as it is. -/
theorem always_readTombstone {j : ℕ} {Q : Bytes → FileSys Dir → Prop}
    (hcontent : C → (s.inode j).content = b) (hkind : C → (s.inode j).kind = .regular)
    (h : ∀ raw, raw.length ≤ tombstoneLimit →
      ((s.inode j).kind = .regular → raw = (s.inode j).content) → Q raw s) :
    (readRegularFd j tombstoneLimit).Always (ClearStep env) (Guard env r) Q
    (Rejection C r b) s := by
  refine always_readRegularFd guard_reads (fails hC) h (fun hno _ hc => absurd (hkind hc) hno)
    fun _ hlarge hc => ?_
  rw [hcontent hc] at hlarge
  exact rejects_large hlarge

theorem always_checkQuarantine {q msg : String} {Q : Unit → FileSys Dir → Prop}
    (hrec : C → Recoverable r i b s₀ s) (hq : C → HeldAs s i q [1]) (h : Q () s) :
    (checkQuarantine r q msg).Always (ClearStep env) (Guard env r) Q (Rejection C r b) s := by
  refine always_bind.2 (always_openQuarantine hC hq fun j hj hfile _ => ?_)
  have hcontent : C → (s.inode j).content = b := fun hc => by
    obtain rfl := Option.some.inj ((hq hc).1.symm.trans hj)
    exact (hrec hc).content
  refine always_closing guard_reads (fails hC)
    (always_bind.2 (always_readTombstone hC hcontent (fun _ => hfile.kind)
    fun raw _ hraw => always_require (fun _ => h) fun hne hc => ?_))
  rw [hraw hfile.kind, hcontent hc, beq_eq_false_iff_ne] at hne
  exact rejects_digest hne

theorem always_verifyRetired {q : String} {Q : Unit → FileSys Dir → Prop}
    (hrec : C → Recoverable r i b s₀ s) (hq : C → HeldAs s i q [1])
    (h : ∀ j, s.entry .unit q = some j → (s.inode j).nlink = 1 →
      sha256 (s.inode j).content = r.expectedSha256 → Q () s) :
    (verifyRetired r q).Always (ClearStep env) (Guard env r) Q (Rejection C r b) s := by
  refine always_bind.2 (always_openQuarantine hC hq fun j hj hfile hlinks => ?_)
  have hone : (s.inode j).nlink = 1 := by simpa using hlinks
  have hcontent : C → (s.inode j).content = b := fun hc => by
    obtain rfl := Option.some.inj ((hq hc).1.symm.trans hj)
    exact (hrec hc).content
  refine always_closing guard_reads (fails hC) ?_
  split_ifs with hne
  · exact absurd hone hne
  refine always_bind.2 (always_readTombstone hC hcontent (fun _ => hfile.kind) fun raw _ hraw => ?_)
  obtain rfl := hraw hfile.kind
  split_ifs with hsha
  · intro hc
    rw [hcontent hc] at hsha
    exact rejects_digest hsha
  · exact always_quietOp guard_reads (fails hC) (h j hj hone (not_not.1 hsha))

/-- What the descriptor of the completion and its path lead to is the same. -/
theorem always_bindReturned {j : ℕ} {Q : Unit → FileSys Dir → Prop} {a : ℕ}
    (ha : s.entry .unit auditDirName = some a)
    (hj : s.entry (.sub a) (completeName r.opId) = some j) (h : Q () s) :
    (bindReturned r (s.stat j)).Always (ClearStep env) (Guard env r) Q (Rejection C r b) s := by
  have hnamed : statNamed env.path s (.below auditDirName (completeName r.opId)) =
      some (s.stat j) := by
    simp [statNamed, ha, hj]
  refine always_bind.2 (always_stat guard_reads (fails hC) (fun st hst => ?_) fun hnone => ?_)
  · obtain rfl := Option.some.inj (hnamed.symm.trans hst)
    refine always_require (fun _ => h) fun hne => ?_
    simp [sameInode] at hne
  · rw [hnamed] at hnone
    cases hnone

/-- A completed request needs nothing more. -/
theorem always_confirmCompleted {j : ℕ} {q : String} {Q : Unit → FileSys Dir → Prop}
    (hat : CallAt env r C i b s₀ ns s) (hj : s.entry (.sub ns.audit) (completeName r.opId) = some j)
    (hq : C → ∀ q', Intends s r q' → q = q') (h : Q () s) :
    (confirmCompleted r ns q).Always (ClearStep env) (Guard env r) Q (Rejection C r b) s := by
  have hf := fails (b := b) hC
  have hretired : C → s.entry .unit pidFile = none ∧ HeldAs s i q [1] := fun hc => by
    obtain ⟨q', hown, hi, hst, -⟩ := (hat.recoverable hc).completion hat.bound.audit hj
    obtain rfl := hq hc q' hi
    exact ⟨hst.1, (hat.recoverable hc).retired hst hown.isQuarantine⟩
  refine always_bind.2 (always_requireRetired guard_reads hf (fun _ => ?_) fun k _ hk hc => ?_)
  swap
  · exact nomatch (hretired hc).1.symm.trans hk
  refine always_bind.2 (always_checkQuarantine hC hat.recoverable (fun hc => (hretired hc).2) ?_)
  refine always_bind.2 (always_bindClearanceNamespace guard_reads hf hat.bound ?_)
  refine always_bind.2 (always_stat_entry guard_reads hf (fun k hk => ?_) fun hnone => ?_)
  · obtain rfl := Option.some.inj (hj.symm.trans hk)
    refine always_bind.2 (always_bindBound guard_reads hf
      ⟨s.stat j, by simp [statNamed, hj], rfl⟩ ?_)
    exact always_bindReturned hC hat.bound.audit hj h
  · rw [hj] at hnone
    cases hnone

end

end

end DatasourceKit

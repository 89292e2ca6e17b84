/-
  What a run does with each window, by its history.

  * `WindowLog`, `logs`: for each window that the loop has taken, the last one first, its calls of
    the fetcher, the judged records, the length of the raw value, and the texts of the handler;
  * `WindowLog.report`, `.warning`, `.records`, `.retries`: what the window adds to the report;
  * `Throttled`: what is known of the bucket, whatever is known;
  * `does_processWindow`: one round of the loop adds to the variables what its window's log says;
    `always_ingest`: so does a whole run.
-/
import DatasourceKit.Interleave.History
import DatasourceKit.Ingest.Run

namespace DatasourceKit

open Interleave Interleave.Prog Interleave.Scope

/-! ## The log of a window -/

abbrev IngestHist (ε Obj : Type) := Hist (@IngestOp.Val ε Obj) (RunExc ε)

/-- A window and what became of it.  `fetched`: the last call of the fetcher returned; `refused`: a
    sleep before the first one was refused. -/
structure WindowLog (ε Obj : Type) where
  window : Obj
  invocations : ℕ := 0
  fetched : Bool := false
  refused : Bool := false
  valid : List Obj := []
  invalid : ℕ := 0
  measured : Option (Except (RunExc ε) ℕ) := none
  repr : Option String := none
  exc : Option String := none

section
variable {ε Obj : Type}

/-- The logs after an operation and its answer. -/
def IngestOp.log : (op : IngestOp ε Obj) → Except (RunExc ε) op.Val → List (WindowLog ε Obj) →
    List (WindowLog ε Obj)
  | next window, _, ls => { window } :: ls
  | fetch .., .ok _, ls => ls.modifyHead fun l =>
    { l with invocations := l.invocations + 1, fetched := true }
  | fetch .., .error _, ls => ls.modifyHead fun l =>
    { l with invocations := l.invocations + 1, fetched := false }
  | sleep _, .error _, ls => ls.modifyHead fun l =>
    { l with refused := l.refused || l.invocations == 0 }
  | isRecord record, .ok true, ls => ls.modifyHead fun l => { l with valid := l.valid ++ [record] }
  | isRecord _, .ok false, ls => ls.modifyHead fun l => { l with invalid := l.invalid + 1 }
  | len _, r, ls => ls.modifyHead fun l => { l with measured := some r }
  | repr _, .ok text, ls => ls.modifyHead fun l => { l with repr := some text }
  | strExc _, .ok text, ls => ls.modifyHead fun l => { l with exc := some text }
  | _, _, ls => ls

/-- The records that a call hands over. -/
def IngestOp.handed : IngestOp ε Obj → Option (List Obj)
  | differ _ rs _ _ | replaceAll _ rs | upsert _ rs | save _ rs | assess _ rs _ _ => some rs
  | _ => none

def IngestOp.isFetch : IngestOp ε Obj → Bool
  | fetch .. => true
  | _ => false

def logs : IngestHist ε Obj → List (WindowLog ε Obj)
  | [] => []
  | e :: t => e.1.log e.2 (logs t)

/-- A call of the loop: it hands no records over, and there is a window to fetch. -/
def InLoop (op : IngestOp ε Obj) (t : IngestHist ε Obj) : Prop :=
  op.handed = none ∧ (op.isFetch = true → logs t ≠ [])

namespace WindowLog
variable (l : WindowLog ε Obj)

/-- The report of the window, if its raw value has a length. -/
def report : Option (WindowReport Obj) :=
  match l.measured with
  | some (.ok n) => some ⟨l.window, n, l.valid.length, l.invalid⟩
  | _ => none

/-- The warning that the window failed. -/
def warning : Option IngestWarning :=
  match l.repr, l.exc with
  | some window, some exc => some (.failed window exc)
  | _, _ => none

/-- The records that the window adds: the valid ones, once its length is asked for. -/
def records : List Obj := if l.measured.isSome then l.valid else []

/-- The retries that are counted. -/
def retries : ℕ := if l.fetched then l.invocations - 1 else 0

end WindowLog

/-- The warning is that a window failed. -/
def IngestWarning.isFailed : IngestWarning → Bool
  | invalid .. => false
  | failed .. => true

/-- What a window adds to the variables. -/
structure Adds (v₀ v : IngestVars Obj) (l : WindowLog ε Obj) : Prop where
  reports : v.windowReports = v₀.windowReports ++ l.report.toList
  failed : v.warnings.filter IngestWarning.isFailed =
    v₀.warnings.filter IngestWarning.isFailed ++ l.warning.toList
  records : v.allFetched = v₀.allFetched ++ l.records
  retries : v.retriesUsed = v₀.retriesUsed + l.retries

theorem Adds.judged {v₀ v : IngestVars Obj} {l l' : WindowLog ε Obj} (h : Adds v₀ v l)
    (hmeasured : l.measured = none) (hmeasured' : l'.measured = l.measured)
    (hrepr : l'.repr = l.repr) (hexc : l'.exc = l.exc)
    (hinvocations : l'.invocations = l.invocations) (hfetched : l'.fetched = l.fetched) :
    Adds v₀ v l' where
  reports := by simpa [WindowLog.report, hmeasured, hmeasured'] using h.reports
  failed := by simpa [WindowLog.warning, hrepr, hexc] using h.failed
  records := by simpa [WindowLog.records, hmeasured, hmeasured'] using h.records
  retries := by simpa [WindowLog.retries, hinvocations, hfetched] using h.retries

/-- Before its length is asked for, a window adds its retries only. -/
theorem adds_retries {v₀ v : IngestVars Obj} {l : WindowLog ε Obj} (hmeasured : l.measured = none)
    (hrepr : l.repr = none)
    (hreports : v.windowReports = v₀.windowReports)
    (hwarnings : v.warnings.filter IngestWarning.isFailed =
      v₀.warnings.filter IngestWarning.isFailed)
    (hrecords : v.allFetched = v₀.allFetched)
    (hretries : v.retriesUsed = v₀.retriesUsed + l.retries) :
        Adds v₀ v l where
  reports := by simp [WindowLog.report, hmeasured, hreports]
  failed := by simp [WindowLog.warning, hrepr, hwarnings]
  records := by simp [WindowLog.records, hmeasured, hrecords]
  retries := hretries

/-! ## One round of the loop -/

/-- What is known of the bucket: `known` holds of it through the loop, `granted` or `denied` holds
    of a window by whether a sleep was refused to it, and only exceptions that satisfy `raised`
    occur. -/
structure ThrottleSpec (ε Obj : Type) where
  known : PyFloat → ℚ → IngestHist ε Obj → Prop
  granted : Bool → Prop
  denied : Bool → Prop
  raised : RunExc ε → Prop

/-- The bucket may have changed, by sleeps before the first call of the fetcher. -/
def Throttles (S : ThrottleSpec ε Obj) (v : IngestVars Obj) (l : WindowLog ε Obj)
    (L : List (WindowLog ε Obj)) (refused : Bool)
    (v' : IngestVars Obj) (t' : IngestHist ε Obj) : Prop :=
  logs t' = { l with refused := refused } :: L ∧
    ∃ tokens last, v' = { v with tokens := tokens, last := last } ∧ S.known tokens last t'

/-- The bucket is as specified. -/
structure Throttled
    (env : (op : IngestOp ε Obj) → Except (RunExc ε) op.Val → IngestHist ε Obj → Prop)
    (throttle : FloatBucket) (rounds : ℕ) (S : ThrottleSpec ε Obj) : Prop where
  stable : ∀ {tokens last op r t}, env op r t → S.known tokens last t →
    S.known tokens last (⟨op, r⟩ :: t)
  raised : ∀ {op e t}, env op (.error e) t → S.raised e
  internal : ∀ {e}, RunExc.isException e = true → S.raised e
  acquire : ∀ {v t l L}, logs t = l :: L → l.invocations = 0 → l.refused = false →
    S.known v.tokens v.last t →
    Does (Records env) InLoop (fun _ v' t' => ∃ r, S.granted r ∧ Throttles S v l L r v' t')
    (fun e v' t' => S.raised e ∧ ∃ r, S.denied r ∧ Throttles S v l L r v' t')
    (throttle.acquire rounds (.fin 1)) v t

variable {env : (op : IngestOp ε Obj) → Except (RunExc ε) op.Val → IngestHist ε Obj → Prop}
  {S : ThrottleSpec ε Obj} {v v₀ : IngestVars Obj} {t : IngestHist ε Obj} {l : WindowLog ε Obj}
  {L : List (WindowLog ε Obj)} {throttle : FloatBucket} {rounds : ℕ} {objects : Objects ε Obj}
  {profile : SourceProfile Obj} {slots : Slots Obj} {window : Obj} {p : RetryPolicy ε PyFloat}

/-- An operation, by its event. -/
theorem does_event {op : IngestOp ε Obj} {Q : op.Val → IngestVars Obj → IngestHist ε Obj → Prop}
    {E : RunExc ε → IngestVars Obj → IngestHist ε Obj → Prop}
    (hok : ∀ a, env op (.ok a) t → Q a v (⟨op, .ok a⟩ :: t))
    (herr : ∀ e, env op (.error e) t → E e v (⟨op, .error e⟩ :: t))
    (hloop : op.handed = none ∧ op.isFetch = false :=
        by exact ⟨rfl, rfl⟩) :
    Does (Records env) InLoop Q E (Scope.perform op) v t := by
  refine does_perform.2 ⟨⟨hloop.1, fun h => absurd (hloop.2.symm.trans h) (by decide)⟩, ?_, ?_⟩
  · rintro a _ ⟨henv, rfl⟩
    exact hok a henv
  · rintro e _ ⟨henv, rfl⟩
    exact herr e henv

/-- The window has been fetched `n` times. -/
structure Fetched (S : ThrottleSpec ε Obj) (v : IngestVars Obj) (l : WindowLog ε Obj)
    (L : List (WindowLog ε Obj)) (n : ℕ)
    (ok : Bool) (v' : IngestVars Obj) (t' : IngestHist ε Obj) : Prop where
  vars : v' = { v with attempts := n }
  logs : logs t' = { l with invocations := n, fetched := ok } :: L
  known : S.known v.tokens v.last t'

theorem does_fetchOnce (hS : Throttled env throttle rounds S) {n : ℕ} {ok : Bool}
    {v' : IngestVars Obj} (h : Fetched S v l L n ok v' t) :
    Does (Records env) InLoop (fun _ => Fetched S v l L (n + 1) true)
      (fun e v' t' => S.raised e ∧ Fetched S v l L (n + 1) false v' t')
          (fetchOnce objects profile slots window) v' t := by
  obtain ⟨rfl, hlogs, hknown⟩ := h
  refine does_bind.2 (does_modify.2 (does_perform.2 ⟨⟨rfl, fun _ hnil => ?_⟩, ?_, ?_⟩))
  · rw [hlogs] at hnil
    cases hnil
  · rintro raw _ ⟨henv, rfl⟩
    exact ⟨rfl, by simp [logs, hlogs, IngestOp.log], hS.stable henv hknown⟩
  · rintro e _ ⟨henv, rfl⟩
    exact ⟨hS.raised henv, rfl, by simp [logs, hlogs, IngestOp.log], hS.stable henv hknown⟩

/-- The attempts from `i` on: unless none is left, the window is fetched again. -/
theorem does_attemptFrom (hS : Throttled env throttle rounds S) {n i k : ℕ} {v' : IngestVars Obj}
    (h : Fetched S v l L k false v' t) :
    Does (Records env) InLoop (fun _ v' t' => ∃ k' > k, 0 < n ∧ Fetched S v l L k' true v' t')
      (fun e v' t' => S.raised e ∧ ∃ k' ≥ k, (k' = k ↔ n = 0) ∧ Fetched S v l L k' false v' t')
      (attemptFrom (.floats ε) p (fun d => Scope.perform (IngestOp.sleep d))
          (fetchOnce objects profile slots window) i n)
      v' t := by
  induction n generalizing i k v' t with
  | zero => exact ⟨hS.internal rfl, k, le_rfl, by simp, h⟩
  | succ n ih =>
    have hlast {e v' t'} (he : S.raised e ∧ Fetched S v l L (k + 1) false v' t') :
        S.raised e ∧ ∃ k' ≥ k, (k' = k ↔ n + 1 = 0) ∧ Fetched S v l L k' false v' t' :=
      ⟨he.1, k + 1, Nat.le_succ k, by simp, he.2⟩
    unfold attemptFrom
    by_cases hn : n = 0
    · rw [if_pos hn]
      exact (does_fetchOnce hS h).mono (fun _ _ h => h) (fun _ _ _ hf =>
          ⟨k + 1, Nat.lt_succ_self k, Nat.succ_pos n, hf⟩)
        fun _ _ _ => hlast
    rw [if_neg hn]
    refine does_tryCatch.2 ((does_fetchOnce hS h).mono (fun _ _ h => h)
      (fun _ _ _ hf => ⟨k + 1, Nat.lt_succ_self k, Nat.succ_pos n, hf⟩) fun e v₁ t₁ he => ?_)
    by_cases hmatch : p.retryOn e = true
    swap
    · rw [if_neg hmatch]
      exact hlast he
    rw [if_pos hmatch]
    refine does_bind.2 (does_ofExcept.2 ?_)
    cases hd : delaySeconds (.floats ε) p i with
    | error e' =>
      obtain rfl := delaySeconds_floats_error hd
      exact hlast ⟨hS.internal rfl, he.2⟩
    | ok d =>
      obtain ⟨-, rfl, hlogs, hknown⟩ := he
      refine does_bind.2 (does_event (fun _ henv => ?_) fun e' henv => ?_)
      · have hagain : Fetched S v l L (k + 1) false { v with attempts := k + 1 }
            (⟨.sleep d, .ok ()⟩ :: t₁) :=
          ⟨rfl, hlogs, hS.stable henv hknown⟩
        refine (ih hagain).mono (fun _ _ h => h) ?_ ?_
        · rintro _ v₂ t₂ ⟨k', hk', -, hf⟩
          exact ⟨k', by omega, Nat.succ_pos n, hf⟩
        · rintro e₂ v₂ t₂ ⟨hX, k', hk', -, hf⟩
          exact ⟨hX, k', by omega, by omega, hf⟩
      · refine hlast ⟨hS.raised henv, rfl, ?_, hS.stable henv hknown⟩
        simp [logs, hlogs, IngestOp.log]

theorem does_retry (hS : Throttled env throttle rounds S) {v' : IngestVars Obj}
    (h : Fetched S v l L 0 false v' t) :
    Does (Records env) InLoop (fun _ v' t' =>
      ∃ k, 1 ≤ k ∧ 1 ≤ p.retries ∧ Fetched S v l L k true v' t')
      (fun e v' t' => S.raised e ∧ ∃ k, (k = 0 ↔ p.retries < 1) ∧ Fetched S v l L k false v' t')
      (retry (.floats ε) p (fun d => Scope.perform (IngestOp.sleep d))
          (fetchOnce objects profile slots window)) v' t := by
  refine (does_attemptFrom hS h).mono (fun _ _ h => h) ?_ ?_
  · rintro _ v₁ t₁ ⟨k, hk, hn, hf⟩
    exact ⟨k, hk, by omega, hf⟩
  · rintro e v₁ t₁ ⟨he, k, -, hk, hf⟩
    exact ⟨he, k, by omega, hf⟩

/-- Whether the fetcher is invoked for a window, and why. -/
def Invoked (S : ThrottleSpec ε Obj) (p : RetryPolicy ε PyFloat) (l : WindowLog ε Obj) : Prop :=
  (1 ≤ l.invocations ∧ 1 ≤ p.retries ∧ S.granted l.refused) ∨
    (l.invocations = 0 ∧ (p.retries < 1 ∨ S.denied l.refused))

/-- In the round of a window: what it has added so far is what its log says. -/
structure Round (S : ThrottleSpec ε Obj) (p : RetryPolicy ε PyFloat) (v₀ : IngestVars Obj)
    (L : List (WindowLog ε Obj)) (window : Obj) (l : WindowLog ε Obj) (v : IngestVars Obj)
    (t : IngestHist ε Obj) : Prop where
  logs : logs t = l :: L
  window_eq : l.window = window
  known : S.known v.tokens v.last t
  adds : Adds v₀ v l
  invoked : Invoked S p l

/-- The round has failed, and the handler has not begun. -/
def Fails (S : ThrottleSpec ε Obj) (p : RetryPolicy ε PyFloat) (v₀ : IngestVars Obj)
    (L : List (WindowLog ε Obj)) (window : Obj)
    (e : RunExc ε) (v : IngestVars Obj) (t : IngestHist ε Obj) : Prop :=
  S.raised e ∧ ∃ l, Round S p v₀ L window l v t ∧ l.report = none ∧ l.repr = none ∧ l.exc = none

/-- The records of the window have been judged. -/
structure Judges (valid invalid : List Obj) (l : WindowLog ε Obj) : Prop where
  valid : l.valid = valid
  invalid : l.invalid = invalid.length
  measured : l.measured = none
  repr : l.repr = none
  exc : l.exc = none

theorem Judges.report {valid invalid : List Obj} (h : Judges valid invalid l) :
    l.report = none := by
  rw [WindowLog.report, h.measured]

theorem Judges.fails {valid invalid : List Obj} {e : RunExc ε} (hj : Judges valid invalid l)
    (he : S.raised e) (h : Round S p v₀ L window l v t) : Fails S p v₀ L window e v t :=
  ⟨he, l, h, hj.report, hj.repr, hj.exc⟩

/-- An event that the log does not show. -/
theorem Round.event (hS : Throttled env throttle rounds S) {op : IngestOp ε Obj}
    {r : Except (RunExc ε) op.Val} (h : Round S p v₀ L window l v t) (henv : env op r t)
    (hlog : op.log r (l :: L) = l :: L) :
    Round S p v₀ L window l v (⟨op, r⟩ :: t) :=
  ⟨by rw [DatasourceKit.logs, h.logs, hlog], h.window_eq, hS.stable henv h.known, h.adds, h.invoked⟩

theorem does_validRecords (hS : Throttled env throttle rounds S) {records valid invalid : List Obj}
    (hj : Judges valid invalid l) (h : Round S p v₀ L window l v t) :
    Does (Records env) InLoop (fun r v t => ∃ l, Judges r.1 r.2 l ∧ Round S p v₀ L window l v t)
      (Fails S p v₀ L window) (validRecords records valid invalid) v t := by
  induction records generalizing valid invalid l t with
  | nil => exact ⟨l, hj, h⟩
  | cons record records ih =>
    refine does_bind.2 (does_event (fun ok henv => ?_) fun e henv =>
      hj.fails (hS.raised henv) (h.event hS henv rfl))
    cases ok with
    | true =>
      have hjudges : Judges (valid ++ [record]) invalid { l with valid := l.valid ++ [record] } :=
        ⟨by rw [hj.valid], hj.invalid, hj.measured, hj.repr, hj.exc⟩
      refine ih hjudges ⟨by rw [logs, h.logs]; rfl, h.window_eq, hS.stable henv h.known, ?_,
        h.invoked⟩
      exact h.adds.judged hj.measured rfl rfl rfl rfl rfl
    | false =>
      have hjudges : Judges valid (invalid ++ [record]) { l with invalid := l.invalid + 1 } :=
        ⟨hj.valid, by simp [hj.invalid], hj.measured, hj.repr, hj.exc⟩
      refine ih hjudges ⟨by rw [logs, h.logs]; rfl, h.window_eq, hS.stable henv h.known, ?_,
        h.invoked⟩
      exact h.adds.judged hj.measured rfl rfl rfl rfl rfl

theorem does_warnInvalid (hS : Throttled env throttle rounds S) {valid invalid : List Obj}
    (hj : Judges valid invalid l) (h : Round S p v₀ L window l v t) :
    Does (Records env) InLoop (fun _ => Round S p v₀ L window l) (Fails S p v₀ L window)
      (warnInvalid window invalid) v t := by
  unfold warnInvalid
  split_ifs
  · exact h
  refine does_bind.2 (does_event (fun text henv => ?_) fun e henv =>
    hj.fails (hS.raised henv) (h.event hS henv rfl))
  refine does_modify.2 ⟨(h.event hS henv rfl).logs, h.window_eq,
    hS.stable henv h.known, ?_, h.invoked⟩
  exact ⟨h.adds.reports, by simp [IngestWarning.isFailed, h.adds.failed], h.adds.records,
    h.adds.retries⟩

/-- After the fetch: the records that are kept are the valid ones, once the length is asked for. -/
theorem does_collect (hS : Throttled env throttle rounds S) {raw : Obj} (hj : Judges [] [] l)
    (h : Round S p v₀ L window l v t) :
    Does (Records env) InLoop
      (fun _ v t => ∃ l, Round S p v₀ L window l v t ∧ l.report.isSome = true ∧
        l.repr = none ∧ l.exc = none)
      (Fails S p v₀ L window) (collect objects profile slots window raw) v t := by
  refine does_bind.2 (does_event (fun mapped henv => ?_) fun e henv =>
    hj.fails (hS.raised henv) (h.event hS henv rfl))
  replace h := h.event hS henv rfl
  refine does_bind.2 (does_event (fun records henv => ?_) fun e henv =>
    hj.fails (hS.raised henv) (h.event hS henv rfl))
  refine does_bind.2 ((does_validRecords hS hj (h.event hS henv rfl)).mono (fun _ _ h => h) ?_
    fun _ _ _ h => h)
  rintro ⟨valid, invalid⟩ v t ⟨l, hj, h⟩
  refine does_bind.2 ((does_warnInvalid hS hj h).mono (fun _ _ h => h) ?_ fun _ _ _ h => h)
  rintro - v t h
  have hreports : v.windowReports = v₀.windowReports := by simpa [hj.report] using h.adds.reports
  have hrecords : v.allFetched = v₀.allFetched := by
    simpa [WindowLog.records, hj.measured] using h.adds.records
  have hlogs {r : Except (RunExc ε) ℕ} :
      logs (⟨.len raw, r⟩ :: t) = { l with measured := some r } :: L := by
    rw [logs, h.logs]
    rfl
  refine does_bind.2 (does_modify.2 (does_bind.2 (does_event (fun n henv => ?_) fun e henv => ?_)))
  · have hreport : ({ l with measured := some (.ok n) } : WindowLog ε Obj).report =
        some ⟨window, n, valid.length, invalid.length⟩ := by
      simp only [WindowLog.report, h.window_eq, hj.valid, hj.invalid]
    refine does_modify.2 ⟨_, ⟨hlogs, h.window_eq, hS.stable henv h.known, ?_, h.invoked⟩,
        by rw [hreport]; rfl, hj.repr, hj.exc⟩
    exact ⟨by simp [hreport, hreports], h.adds.failed, by simp [WindowLog.records, hrecords,
      hj.valid], h.adds.retries⟩
  · refine ⟨hS.raised henv, _, ⟨hlogs, h.window_eq, hS.stable henv h.known, ?_, h.invoked⟩, rfl,
      hj.repr, hj.exc⟩
    exact ⟨by simp [WindowLog.report, hreports], h.adds.failed, by simp [WindowLog.records,
      hrecords, hj.valid], h.adds.retries⟩

/-- The `try` of a window: it ends with a report, or it fails. -/
theorem does_tryWindow (hS : Throttled env throttle rounds S) (hlogs : logs t = { window } :: L)
    (hknown : S.known v₀.tokens v₀.last t) :
    Does (Records env) InLoop
      (fun _ v t => ∃ l, Round S p v₀ L window l v t ∧ l.report.isSome = true ∧
        l.repr = none ∧ l.exc = none)
      (Fails S p v₀ L window) (tryWindow objects rounds profile slots throttle p window) v₀ t := by
  refine does_bind.2 ((hS.acquire hlogs rfl rfl hknown).mono (fun _ _ h => h) ?_ ?_)
  swap
  · rintro e v t ⟨he, r, hdenied, hlogs, tokens, last, rfl, hknown⟩
    exact ⟨he, _, ⟨hlogs, rfl, hknown, adds_retries rfl rfl rfl rfl rfl rfl,
      .inr ⟨rfl, .inr hdenied⟩⟩, rfl, rfl, rfl⟩
  rintro waited v t ⟨r, hgranted, hlogs, tokens, last, rfl, hknown⟩
  refine does_bind.2 (does_modify.2 (does_bind.2 (does_modify.2 (does_bind.2 ?_))))
  have hstart : Fetched S { v₀ with tokens, last, rateLimitWaits := v₀.rateLimitWaits.add waited }
      { window, refused := r } L 0 false
      { v₀ with tokens, last, rateLimitWaits := v₀.rateLimitWaits.add waited, attempts := 0 } t :=
    ⟨rfl, hlogs, hknown⟩
  refine (does_retry hS hstart).mono (fun _ _ h => h) ?_ ?_
  swap
  · rintro e v t ⟨he, k, hk, rfl, hlogs, hknown⟩
    refine ⟨he, _, ⟨hlogs, rfl, hknown, adds_retries rfl rfl rfl rfl rfl rfl, ?_⟩, rfl, rfl, rfl⟩
    rcases Nat.eq_zero_or_pos k with hzero | hpos
    · exact .inr ⟨hzero, .inl (hk.1 hzero)⟩
    · exact .inl ⟨hpos, by omega, hgranted⟩
  rintro raw v t ⟨k, hk, hretries, rfl, hlogs, hknown⟩
  refine does_bind.2 (does_modify.2 ?_)
  -- from here on the retries are counted
  have hround : Round S p v₀ L window { window, refused := r, invocations := k, fetched := true }
      { v₀ with
        tokens, last, rateLimitWaits := v₀.rateLimitWaits.add waited, attempts := k
        retriesUsed := v₀.retriesUsed + (k - 1) } t :=
    ⟨hlogs, rfl, hknown, adds_retries rfl rfl rfl rfl rfl rfl, .inl ⟨hk, hretries, hgranted⟩⟩
  exact does_collect hS ⟨rfl, rfl, rfl, rfl, rfl⟩ hround

/-- The window has a report, or a warning that it failed, and not both. -/
def WindowLog.Settled (l : WindowLog ε Obj) : Prop := l.report.isSome = !l.warning.isSome

theorem does_failWindow {e : RunExc ε} (hS : Throttled env throttle rounds S)
    (h : Fails S p v₀ L window e v t) :
    Does (Records env) InLoop (fun _ v t => ∃ l, Round S p v₀ L window l v t ∧ l.Settled)
    (fun e _ _ => S.raised e) (failWindow window e) v t := by
  obtain ⟨he, l, h, hreport, hrepr, hexc⟩ := h
  have hwarning : l.warning = none := by rw [WindowLog.warning, hrepr]
  unfold failWindow
  split_ifs
  swap
  · exact he
  refine does_bind.2 (does_event (fun text henv => ?_) fun e henv => hS.raised henv)
  have hlogs : logs (⟨.repr window, .ok text⟩ :: t) = { l with repr := some text } :: L := by
    rw [logs, h.logs]
    rfl
  refine does_bind.2 (does_event (fun exc henv' => ?_) fun e henv => hS.raised henv)
  refine does_modify.2 ⟨{ l with repr := some text, exc := some exc },
      ⟨?_, h.window_eq, hS.stable henv' (hS.stable henv h.known),
    ⟨h.adds.reports, ?_, h.adds.records, h.adds.retries⟩, h.invoked⟩, ?_⟩
  · rw [logs, hlogs]
    rfl
  · have hfailed := h.adds.failed
    rw [hwarning, Option.toList_none, List.append_nil] at hfailed
    simp [WindowLog.warning, IngestWarning.isFailed, hfailed]
  · have hnone : ({ l with repr := some text, exc := some exc } : WindowLog ε Obj).report = none :=
      hreport
    rw [WindowLog.Settled, hnone]
    rfl

/-- **One round of the loop** adds to the variables what its window's log says. -/
theorem does_processWindow (hS : Throttled env throttle rounds S)
    (hknown : S.known v.tokens v.last t) :
    Does (Records env) InLoop (fun _ v' t' => ∃ l, Round S p v (logs t) window l v' t' ∧ l.Settled)
      (fun e _ _ => S.raised e)
      (processWindow objects rounds profile slots throttle p window) v t := by
  refine does_bind.2 (does_event (fun _ henv => ?_) fun e henv => hS.raised henv)
  refine does_tryCatch.2 ((does_tryWindow hS rfl (hS.stable henv hknown)).mono
    (fun _ _ h => h) ?_ ?_)
  · rintro - v' t' ⟨l, hround, hreport, hrepr, -⟩
    refine ⟨l, hround, ?_⟩
    rw [WindowLog.Settled, hreport, WindowLog.warning, hrepr]
    rfl
  · exact fun e v' t' h => does_failWindow hS h

/-! ## The loop -/

/-- Between two rounds; the windows `rest` are left. -/
structure Between (S : ThrottleSpec ε Obj) (p : RetryPolicy ε PyFloat) (windows rest : List Obj)
    (v : IngestVars Obj) (t : IngestHist ε Obj) : Prop where
  windows_eq : (logs t).reverse.map WindowLog.window ++ rest = windows
  known : S.known v.tokens v.last t
  reports : v.windowReports = (logs t).reverse.filterMap WindowLog.report
  failed : v.warnings.filter IngestWarning.isFailed = (logs t).reverse.filterMap WindowLog.warning
  records : v.allFetched = (logs t).reverse.flatMap WindowLog.records
  retries : v.retriesUsed = ((logs t).map WindowLog.retries).sum
  settled : ∀ l ∈ logs t, l.Settled
  invoked : ∀ l ∈ logs t, Invoked S p l

variable {windows rest : List Obj}

theorem Between.round {v' : IngestVars Obj} {t' : IngestHist ε Obj}
    (h : Between S p windows (window :: rest) v t) (hround : Round S p v (logs t) window l v' t')
    (hl : l.Settled) : Between S p windows rest v' t' where
  windows_eq := by
    rw [← h.windows_eq, hround.logs]
    simp [hround.window_eq]
  known := hround.known
  reports := by
    rw [hround.adds.reports, hround.logs, h.reports]
    cases hr : l.report <;> simp [hr]
  failed := by
    rw [hround.adds.failed, hround.logs, h.failed]
    cases hw : l.warning <;> simp [hw]
  records := by
    rw [hround.adds.records, hround.logs, h.records]
    simp
  retries := by
    rw [hround.adds.retries, hround.logs, h.retries]
    simp [Nat.add_comm]
  settled := by
    rw [hround.logs]
    exact List.forall_mem_cons.2 ⟨hl, h.settled⟩
  invoked := by
    rw [hround.logs]
    exact List.forall_mem_cons.2 ⟨hround.invoked, h.invoked⟩

theorem does_windows (hS : Throttled env throttle rounds S) (h : Between S p windows windows v t) :
    Does (Records env) InLoop (fun _ => Between S p windows []) (fun e _ _ => S.raised e)
      (windows.forM (processWindow objects rounds profile slots throttle p)) v t := by
  refine does_forM (fun window rest v t h => ?_) h
  refine (does_processWindow hS h.known).mono (fun _ _ h => h) ?_ fun _ _ _ h => h
  rintro - v' t' ⟨l, hround, hl⟩
  exact h.round hround hl

/-! ## The whole run -/

/-- The enumerator has answered these windows. -/
def Enumerated (windows : List Obj) (t : IngestHist ε Obj) : Prop :=
  ∃ fn config, (⟨.enumerate fn config, .ok windows⟩ : Event (@IngestOp.Val ε Obj) (RunExc ε)) ∈ t

/-- The calls of the fetcher. -/
def fetches (t : IngestHist ε Obj) : ℕ := t.countP fun e => e.1.isFetch

/-- The logs show every call of the fetcher. -/
def Shown (t : IngestHist ε Obj) : Prop := ((logs t).map WindowLog.invocations).sum = fetches t

/-- Only the calls of the fetcher change the counts. -/
theorem sum_invocations_log {op : IngestOp ε Obj} {r : Except (RunExc ε) op.Val}
    (hop : op.isFetch = false) (ls : List (WindowLog ε Obj)) :
    ((op.log r ls).map WindowLog.invocations).sum = (ls.map WindowLog.invocations).sum := by
  unfold IngestOp.log
  split
  case h_1 => simp
  case h_2 | h_3 => cases hop
  all_goals cases ls <;> rfl

/-- Calls of the loop are shown. -/
theorem Shown.event {op : IngestOp ε Obj} {r : Except (RunExc ε) op.Val} (h : Shown t)
    (hop : op.isFetch = true → logs t ≠ []) :
    Shown (⟨op, r⟩ :: t) := by
  unfold Shown fetches at h ⊢
  cases hfetch : op.isFetch with
  | false => rw [logs, sum_invocations_log hfetch, h, List.countP_cons_of_neg (by simp [hfetch])]
  | true =>
    obtain ⟨l, L, hlogs⟩ := List.exists_cons_of_ne_nil (hop hfetch)
    rw [List.countP_cons_of_pos (by simpa using hfetch), ← h, logs, hlogs]
    cases op with
    | fetch fn window config => cases r <;> simp [IngestOp.log, Nat.add_right_comm]
    | _ => cases hfetch

/-- What the report says of the windows is what their logs say. -/
structure ReportsLogs (report : IngestReport Obj) (t : IngestHist ε Obj) : Prop where
  enumerated : Enumerated ((logs t).reverse.map WindowLog.window) t
  processed : report.windowsProcessed = (logs t).length
  reports : report.windows = (logs t).reverse.filterMap WindowLog.report
  failed : report.warnings.filter IngestWarning.isFailed =
    (logs t).reverse.filterMap WindowLog.warning
  fetched : report.recordsFetched = ((logs t).reverse.flatMap WindowLog.records).length
  handed : ∀ e ∈ t, ∀ rs, e.1.handed = some rs → rs = (logs t).reverse.flatMap WindowLog.records
  retries : report.retriesUsed = ((logs t).map WindowLog.retries).sum
  shown : Shown t
  settled : ∀ l ∈ logs t, l.Settled

/-- A call that hands records over: the loop has been through all windows, and the records are
    those of the logs. -/
def Told (S : ThrottleSpec ε Obj) (p : RetryPolicy ε PyFloat) (op : IngestOp ε Obj)
    (t : IngestHist ε Obj) : Prop :=
  ∀ rs, op.handed = some rs → rs = (logs t).reverse.flatMap WindowLog.records ∧
    Enumerated ((logs t).reverse.map WindowLog.window) t ∧ ∀ l ∈ logs t, Invoked S p l

/-- After the loop. -/
structure After (S : ThrottleSpec ε Obj) (p : RetryPolicy ε PyFloat) (windows : List Obj)
    (v : IngestVars Obj) (t : IngestHist ε Obj) : Prop where
  between : Between S p windows [] v t
  enumerated : Enumerated windows t
  shown : Shown t
  handed : ∀ e ∈ t, ∀ rs, e.1.handed = some rs → rs = v.allFetched

/-- A call after the loop. -/
theorem always_after (hS : Throttled env throttle rounds S) {op : IngestOp ε Obj}
    {Q : op.Val → IngestHist ε Obj → Prop} {E : RunExc ε → IngestHist ε Obj → Prop}
    (h : After S p windows v t) (hhanded : ∀ rs, op.handed = some rs → rs = v.allFetched)
    (hlog : ∀ r L, op.log r L = L) (hok : ∀ a t, After S p windows v t → Q a t)
    (herr : ∀ e t, S.raised e → After S p windows v t → E e t)
    (hfetch : op.isFetch = false := by rfl) :
        (Prog.perform op).Always (Records env) (Told S p) Q E t := by
  have hafter {r : Except (RunExc ε) op.Val} (henv : env op r t) :
      After S p windows v (⟨op, r⟩ :: t) := by
    have hlogs : logs (⟨op, r⟩ :: t) = logs t := hlog r _
    obtain ⟨⟨hwindows, hknown, hreports, hfailed, hrecords, hretries, hsettled, hinvoked⟩,
        ⟨fn, config, hmem⟩, hshown, hall⟩ := h
    refine ⟨⟨?_, hS.stable henv hknown, ?_, ?_, ?_, ?_, ?_, ?_⟩,
      ⟨fn, config, List.mem_cons_of_mem _ hmem⟩, ?_, List.forall_mem_cons.2 ⟨hhanded, hall⟩⟩
    case refine_8 => exact hshown.event fun h => absurd (hfetch.symm.trans h) (by decide)
    all_goals rwa [hlogs]
  have hwindows := h.between.windows_eq
  rw [List.append_nil] at hwindows
  refine always_event (fun rs hrs => ⟨?_, hwindows ▸ h.enumerated, h.between.invoked⟩)
    (fun a henv => hok a _ (hafter henv)) fun e henv => herr e _ (hS.raised henv) (hafter henv)
  rw [hhanded rs hrs, h.between.records]

theorem always_persisted (hS : Throttled env throttle rounds S) {store diff : Obj}
    (h : After S p windows v t) :
    (persist store v.allFetched diff).Always (Records env) (Told S p)
    (fun _ t => After S p windows v t) (fun e _ => S.raised e) t := by
  have hrecords {rs : List Obj} (hrs : some v.allFetched = some rs) : rs = v.allFetched :=
    (Option.some.inj hrs).symm
  have hnone {rs : List Obj} (hrs : none = some rs) : rs = v.allFetched := by cases hrs
  refine always_handle.2 (Always.mono (fun _ _ h => h) (fun _ _ h => h)
    (E := fun e t => S.raised e ∧
      After S p windows v t) ?_ ?_)
  · rintro e t ⟨he, h⟩
    split_ifs
    swap
    · exact he
    refine always_bind.2 (always_event (fun rs hrs => by cases hrs) (fun text henv => ?_)
      fun e henv => hS.raised henv)
    exact hS.internal rfl
  refine always_bind.2 (always_after hS h (fun _ => hnone) (fun _ _ => rfl) (fun replaced t h => ?_)
      fun _ _ he h => ⟨he, h⟩)
  split_ifs
  · exact always_after hS h (fun _ => hrecords) (fun _ _ => rfl) (fun _ _ h => h)
      fun _ _ he h => ⟨he, h⟩
  refine always_bind.2 (always_after hS h (fun _ => hnone) (fun _ _ => rfl) (fun upsert t h => ?_)
      fun _ _ he h => ⟨he, h⟩)
  split_ifs
  · exact always_after hS h (fun _ => hrecords) (fun _ _ => rfl) (fun _ _ h => h)
      fun _ _ he h => ⟨he, h⟩
  · exact always_after hS h (fun _ => hrecords) (fun _ _ => rfl) (fun _ _ h => h)
      fun _ _ he h => ⟨he, h⟩

theorem always_assessment (hS : Throttled env throttle rounds S) {ws : List Obj} {default : String}
    (h : After S p windows v t) :
    (assessment objects profile slots ws v.allFetched default).Always (Records env) (Told S p)
      (fun _ t => After S p windows v t) (fun e _ => S.raised e) t := by
  unfold assessment
  cases ws.getLast? with
  | none => exact h
  | some window =>
    refine always_bind.2 (always_after hS h (fun _ hrs => (Option.some.inj hrs).symm)
      (fun _ _ => rfl) (fun a t h => ?_) fun _ _ he _ => he)
    refine always_bind.2 (always_after hS h (fun _ hrs => by cases hrs) (fun _ _ => rfl)
      (fun status t h => ?_) fun _ _ he _ => he)
    exact always_bind.2 (always_after hS h (fun _ hrs => by cases hrs) (fun _ _ => rfl)
      (fun count t h => h) fun _ _ he _ => he)

theorem always_conclusion (hS : Throttled env throttle rounds S) {store stored : Obj}
    (h : After S p windows v t) :
    (conclude objects profile slots store stored windows v).Always (Records env) (Told S p)
      (fun report t => ReportsLogs report t ∧ ∀ l ∈ logs t, Invoked S p l)
      (fun e _ => S.raised e) t := by
  refine always_bind.2 (always_after hS h (fun _ hrs => (Option.some.inj hrs).symm) (fun _ _ => rfl)
      (fun diff t h => ?_)
    fun _ _ he _ => he)
  refine always_bind.2 ((always_persisted hS h).mono (fun _ _ h => h) (fun _ t h => ?_)
    fun _ _ h => h)
  refine always_bind.2 ((always_assessment hS h).mono (fun _ _ h => h) (fun x t h => ?_)
    fun _ _ h => h)
  refine always_bind.2 (always_after hS h (fun _ hrs => by cases hrs) (fun _ _ => rfl)
    (fun digest t h => ?_) fun _ _ he _ => he)
  obtain ⟨⟨hwindows, -, hreports, hfailed, hrecords, hretries, hsettled, hinvoked⟩,
      henumerated, hshown, hhanded⟩ := h
  rw [List.append_nil] at hwindows
  refine ⟨⟨by rwa [hwindows], ?_, hreports, hfailed, by rw [← hrecords], by rwa [← hrecords],
    hretries, hshown, hsettled⟩, hinvoked⟩
  simp [← hwindows]

/-- **A run reports what the logs of its windows say**, and all that it hands over is theirs. -/
theorem always_ingest (hthrottle : bucketOf objects (policy objects profile "rate_limit") =
      .ok throttle)
    (hp : retryPolicy objects (policy objects profile "retry") = .ok p)
    (hS : Throttled env throttle rounds S)
    (hstart : ∀ now t, env .monotonic (.ok now) t →
      S.known throttle.capacity now (⟨.monotonic, .ok now⟩ :: t)) :
    (ingest objects rounds profile slots).Always (Records env) (Told S p)
      (fun report t => ReportsLogs report t ∧ ∀ l ∈ logs t, Invoked S p l)
      (fun e _ => S.raised e) [] := by
  have hquiet {op : IngestOp ε Obj} {t : IngestHist ε Obj} (hop : op.handed = none) :
      Told S p op t := by
    intro rs hrs
    rw [hop] at hrs
    cases hrs
  refine always_bind.2 (always_event (hquiet rfl) (fun store _ => ?_) fun e henv => hS.raised henv)
  refine always_bind.2 (always_event (hquiet rfl) (fun stored _ => ?_) fun e henv => hS.raised henv)
  refine always_bind.2 (always_event (hquiet rfl) (fun windows _ => ?_) fun e henv =>
    hS.raised henv)
  rw [hthrottle, hp]
  refine always_bind.2 (always_ret.2
      (always_bind.2 (always_event (hquiet rfl) (fun now henv => ?_) fun e henv =>
      hS.raised henv)))
  refine always_bind.2 (always_ret.2 (always_bind.2 ?_))
  have hbetween : Between S p windows windows ⟨throttle.capacity, now, 0, [], [], [], 0, .fin 0⟩
      [⟨.monotonic, .ok now⟩,
        ⟨.enumerate slots.enumerator (policy objects profile "enumerator"), .ok windows⟩,
        ⟨.load store, .ok stored⟩, ⟨.storeFactory slots.storeFactory, .ok store⟩] :=
    ⟨rfl, hstart now _ henv, rfl, rfl, rfl, rfl, fun _ hl => (List.not_mem_nil hl).elim, fun _ hl =>
        (List.not_mem_nil hl).elim⟩
  have hloop : (Scope.close (do
      windows.forM (processWindow objects rounds profile slots throttle p)
      get) ⟨throttle.capacity, now, 0, [], [], [], 0, .fin 0⟩).Always (Records env) InLoop
          (fun v t => Between S p windows [] v t)
      (fun e _ => S.raised e) _ :=
    Does.close (does_bind.2 ((does_windows hS hbetween).mono (fun _ _ h => h) (fun _ _ _ h => h)
      fun _ _ _ h => h))
  -- the loop hands nothing over, and the windows stay those of the enumerator
  have hkept := hloop.keeping (J := fun t =>
    Enumerated windows t ∧ Shown t ∧ ∀ e ∈ t, e.1.handed = none) ?_ ?_
  · refine hkept.mono (fun _ _ h => hquiet h.2.1) ?_ fun _ _ h => h.2
    rintro v t ⟨⟨henumerated, hshown, hnone⟩, h⟩
    refine always_conclusion hS ⟨h, henumerated, hshown, fun e he rs hrs => ?_⟩
    rw [hnone e he] at hrs
    cases hrs
  · rintro op t r _ ⟨⟨fn, config, hmem⟩, hshown, hnone⟩ ⟨hop, hfetch⟩ ⟨-, rfl⟩
    exact ⟨⟨fn, config, List.mem_cons_of_mem _ hmem⟩, hshown.event hfetch,
      List.forall_mem_cons.2 ⟨hop, hnone⟩⟩
  · refine ⟨⟨slots.enumerator, policy objects profile "enumerator", by simp⟩, rfl, ?_⟩
    simp [IngestOp.handed]

end

end DatasourceKit

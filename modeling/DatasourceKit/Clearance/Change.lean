/-
  What a call of `clear_legacy_process_tombstone` may change.

  * `Published`: the intent of a request is in the audit directory;
  * `Retirable`: the state in which `pid.json` may be unlinked;
  * `Guard env r`: what holds when a call for the request `r` performs an operation;
  * `Change env r`: what one such operation does to the file system, `change_of_guard`;
  * `Kept`: the names that no change removes, and what they lead to.
-/
import DatasourceKit.Clearance.Tombstone

namespace DatasourceKit

open Interleave Prog Files ClearanceHost

variable [ClearanceHost]

/-- The bytes of the file that holds the record. -/
def IsRecord (raw : Bytes) (d : Dict) : Prop :=
  ∃ text, dumpsSorted d = .ok text ∧ raw = text ++ [0x0A]

/-- The audit directory has the intent of the request, whose quarantine is `q`. -/
structure Published (s : FileSys Dir) (r : ClearRequest) (intent : Dict) (q : String) : Prop where
  quarantine : intent.get "quarantine" = .str q
  name : IsQuarantine q
  request : intent.pyEq (r.intentRecord (.str q)) = true
  file : ∃ a j e, s.entry .unit auditDirName = some a ∧
    s.entry (.sub a) (intentName r.opId) = some j ∧ loads (s.inode j).content = .doc e ∧
    e.entries.Perm intent.entries

/-- `pid.json` may be unlinked: it is the tombstone of the request, whose published intent
    names another link to it. -/
def Retirable (r : ClearRequest) (s : FileSys Dir) : Prop :=
  ∃ i intent q, s.entry .unit pidFile = some i ∧ (s.inode i).kind = .regular ∧
    r.Matches (s.inode i).content ∧ Published s r intent q ∧ s.entry .unit q = some i

/-- A complete temporary file. -/
structure Staged (s : FileSys Dir) (a : ℕ) (tmp : String) (w : ℕ) (raw : Bytes) : Prop where
  tmpName : isTmpName tmp = true
  sole : s.SoleName (.sub a) tmp w
  inode : s.inode w = ⟨.regular, euid, 0o600, 1, raw⟩

/-- The temporary file is the intent of the request, with the quarantine `q`. -/
def IntentReady (env : ClearEnv) (r : ClearRequest) (raw : Bytes) (q : String)
    (s : FileSys Dir) : Prop :=
  r.OwnQuarantine q ∧ IsRecord raw (r.intentRecord (.str q)) ∧ (env.unique → FreshQuarantine s q)

/-- The temporary file is the completion of the published intent, whose quarantine is the
    one link to the retired tombstone. -/
def CompletionReady (r : ClearRequest) (raw : Bytes) (q : String) (s : FileSys Dir) : Prop :=
  ∃ intent i, Published s r intent q ∧ IsRecord raw (completionRecord intent) ∧
    s.entry .unit pidFile = none ∧ s.entry .unit q = some i ∧ (s.inode i).nlink = 1 ∧
    sha256 (s.inode i).content = r.expectedSha256

/-- The tombstone may be linked to the quarantine `q` of the published intent. -/
def QuarantineReady (r : ClearRequest) (q : String) (i : ℕ) (s : FileSys Dir) : Prop :=
  ∃ intent, Published s r intent q ∧ r.Matches (s.inode i).content ∧
    (s.inode i).mode &&& 0o077 = 0 ∧ ((s.inode i).nlink = 1 ∨ s.entry .unit q = some i)

/-- A call for the request `r` may perform the operation. -/
def Guard (env : ClearEnv) (r : ClearRequest) : ClearOp → FileSys Dir → Prop
  | .create d n, s => (d = .unit ∧ n = lockFile) ∨
      ∃ a, d = .sub a ∧ s.entry .unit auditDirName = some a ∧ isTmp n = true
  | .mkdir n, _ => n = auditDirName
  | .write i _, s => ∃ a n, isTmp n = true ∧ s.SoleName (.sub a) n i
  | .fchmod _ mode, _ => mode = 0o600
  | .unlink d n, s =>
      (d = .unit ∧ n = pidFile ∧ Retirable r s ∧
        ∀ i, s.entry .unit pidFile = some i → (s.inode i).content.length ≤ tombstoneLimit) ∨
      ∃ a, d = .sub a ∧ isTmp n = true
  | .link d src dst, s =>
      (d = .unit ∧ src = pidFile ∧ ∀ i, s.entry .unit pidFile = some i →
        QuarantineReady r dst i s) ∨
      ∃ a w raw, d = .sub a ∧ s.entry .unit auditDirName = some a ∧ Staged s a src w raw ∧
        ((dst = intentName r.opId ∧ ∃ q, IntentReady env r raw q s) ∨
          (dst = completeName r.opId ∧ ∃ q, CompletionReady r raw q s))
  | _, _ => True

/-- What a call for the request `r` may change. -/
inductive Change (env : ClearEnv) (r : ClearRequest) (s : FileSys Dir) : FileSys Dir → Prop
  | idle : Change env r s s
  | lock {w mode} : s.entry .unit lockFile = none → s.Unused w → mode &&& 0o600 = mode →
      Change env r s (s.create .unit lockFile w ⟨.regular, euid, mode, 1, []⟩)
  | auditDir {w mode} : s.entry .unit auditDirName = none → s.Unused w →
    (∀ n, s.entry (.sub w) n = none) → mode &&& 0o700 = mode →
    Change env r s (s.create .unit auditDirName w ⟨.directory, euid, mode, 2, []⟩)
  | tmp {a n w mode} : s.entry .unit auditDirName = some a → isTmp n = true →
    s.entry (.sub a) n = none → s.Unused w →
    Change env r s (s.create (.sub a) n w ⟨.regular, euid, mode, 1, []⟩)
  | write {a n w b} : isTmp n = true → s.SoleName (.sub a) n w → Change env r s (s.append w b)
  | chmod {i} : Change env r s (s.chmod i 0o600)
  | intent {a tmp w raw q} : s.entry .unit auditDirName = some a →
    s.entry (.sub a) (intentName r.opId) = none → Staged s a tmp w raw → IntentReady env r raw q s →
      Change env r s (s.link (.sub a) (intentName r.opId) w)
  | quarantine {q i} : s.entry .unit pidFile = some i → s.entry .unit q = none →
    QuarantineReady r q i s → Change env r s (s.link .unit q i)
  | retire {i} : s.entry .unit pidFile = some i → Retirable r s →
    (s.inode i).content.length ≤ tombstoneLimit → Change env r s (s.unlink .unit pidFile i)
  | completion {a tmp w raw q} : s.entry .unit auditDirName = some a →
      s.entry (.sub a) (completeName r.opId) = none → Staged s a tmp w raw →
        CompletionReady r raw q s →
      Change env r s (s.link (.sub a) (completeName r.opId) w)
  | dropTmp {a n i} : isTmp n = true → s.entry (.sub a) n = some i →
    Change env r s (s.unlink (.sub a) n i)

variable {env : ClearEnv} {r : ClearRequest} {s s' : FileSys Dir}

theorem change_of_create {d : Dir} {n : String} {x : Except Exc ℕ}
    (hg : Guard env r (.create d n) s) (h : ClearEffect env (.create d n) s x s') :
    Change env r s s' := by
  simp only [ClearEffect] at h
  split_ifs at h with hnone
  · obtain ⟨w, mode, hw, hmode, -, rfl⟩ := h
    rcases hg with ⟨rfl, rfl⟩ | ⟨a, rfl, ha, hn⟩
    · exact .lock hnone hw hmode
    · exact .tmp ha hn hnone hw
  · obtain ⟨-, rfl⟩ := h
    exact .idle

theorem change_of_link {d : Dir} {src dst : String} {x : Except Exc Unit}
    (hg : Guard env r (.link d src dst) s) (h : ClearEffect env (.link d src dst) s x s') :
    Change env r s s' := by
  rcases hsrc : s.entry d src with _ | i
  · simp only [ClearEffect, hsrc] at h
    rw [h.2]
    exact .idle
  simp only [ClearEffect, hsrc] at h
  split_ifs at h with hnone
  swap
  · rw [h.2]
    exact .idle
  obtain ⟨-, rfl⟩ := h
  rcases hg with ⟨rfl, rfl, hready⟩ | ⟨a, w, raw, rfl, ha, hstaged, hdst⟩
  · exact .quarantine hsrc hnone (hready i hsrc)
  · have hw : i = w := Option.some.inj (hsrc.symm.trans hstaged.sole.named)
    subst hw
    rcases hdst with ⟨rfl, q, hready⟩ | ⟨rfl, q, hready⟩
    · exact .intent ha hnone hstaged hready
    · exact .completion ha hnone hstaged hready

theorem change_of_unlink {d : Dir} {n : String} {x : Except Exc Unit}
    (hg : Guard env r (.unlink d n) s) (h : ClearEffect env (.unlink d n) s x s') :
    Change env r s s' := by
  rcases hn : s.entry d n with _ | i
  · simp only [ClearEffect, hn] at h
    rw [h.2]
    exact .idle
  simp only [ClearEffect, hn] at h
  obtain ⟨-, rfl⟩ := h
  rcases hg with ⟨rfl, rfl, hready, hsmall⟩ | ⟨a, rfl, htmp⟩
  · exact .retire hn hready (hsmall i hn)
  · exact .dropTmp htmp hn

/-- An operation that changes nothing. -/
theorem ClearEffect.reads {o : ClearOp} {x : Except Exc o.Val} (h : ClearEffect env o s x s')
    (ho : o.reads = true) : s' = s := by
  cases o with
  | fstat fd => cases fd <;> exact h.1
  | quiet c fd => exact h.2
  | openPart | openFile | stat | listdir | read | uuid => exact h.1
  | _ => cases ho

/-- **What a guarded operation does.** -/
theorem change_of_guard {o : ClearOp} {x : Except Exc o.Val} (hg : Guard env r o s)
    (h : ClearStep env o s x s') : Change env r s s' := by
  rcases h with h | ⟨-, rfl, -⟩
  swap
  · exact .idle
  cases o with
  | create d n => exact change_of_create hg h
  | mkdir n =>
    obtain rfl : n = auditDirName := hg
    simp only [ClearEffect] at h
    split_ifs at h with hnone
    · obtain ⟨w, mode, hw, hempty, hmode, -, rfl⟩ := h
      exact .auditDir hnone hw hempty hmode
    · rw [h.2]
      exact .idle
  | link d src dst => exact change_of_link hg h
  | unlink d n => exact change_of_unlink hg h
  | write i b =>
    obtain ⟨k, -, -, -, rfl⟩ := h
    obtain ⟨a, n, hn, hsole⟩ := hg
    exact .write hn hsole
  | fchmod i mode =>
    obtain ⟨-, rfl⟩ := h
    obtain rfl : mode = 0o600 := hg
    exact .chmod
  | _ => rw [h.reads rfl]; exact .idle

/-! ## What stays -/

/-- A name that is not temporary leads to the same file as before. -/
theorem Change.same {d : Dir} {n : String} {i : ℕ} (h : Change env r s s')
    (hn : s.entry d n = some i) (htmp : isTmp n = false) : SameFile (s.inode i) (s'.inode i) := by
  cases h with
  | idle => exact .of_eq rfl
  | lock _ hw => exact .of_eq (s.create_inode_ne _ (hw.ne hn))
  | auditDir _ hw => exact .of_eq (s.create_inode_ne _ (hw.ne hn))
  | tmp _ _ _ hw => exact .of_eq (s.create_inode_ne _ (hw.ne hn))
  | write ht hsole =>
    refine .of_eq (s.append_ne _ (hsole.ne hn fun _ => ?_))
    rintro rfl
    rw [ht] at htmp
    cases htmp
  | chmod => exact s.sameFile_chmod _ _ _
  | intent | quarantine | completion => exact s.sameFile_link _ _ _ _
  | retire | dropTmp => exact s.sameFile_unlink _ _ _ _

/-- Only temporary names and `pid.json` are ever removed. -/
theorem Change.entry {d : Dir} {n : String} {i : ℕ} (h : Change env r s s')
    (hn : s.entry d n = some i) (htmp : isTmp n = false) (hpid : d = .unit → n ≠ pidFile) :
    s'.entry d n = some i := by
  have hnew : ∀ {d' n'}, s.entry d' n' = none → d = d' → n ≠ n' := by
    rintro d' n' hnone rfl rfl
    rw [hn] at hnone
    cases hnone
  cases h with
  | idle => exact hn
  | lock hnone => exact (s.create_entry_ne _ (hnew hnone)).trans hn
  | auditDir hnone => exact (s.create_entry_ne _ (hnew hnone)).trans hn
  | tmp _ _ hnone => exact (s.create_entry_ne _ (hnew hnone)).trans hn
  | write | chmod => exact hn
  | intent _ hnone => exact (s.link_entry_ne (hnew hnone)).trans hn
  | quarantine _ hnone => exact (s.link_entry_ne (hnew hnone)).trans hn
  | completion _ hnone => exact (s.link_entry_ne (hnew hnone)).trans hn
  | retire => exact (s.unlink_entry_ne hpid).trans hn
  | dropTmp ht =>
    refine (s.unlink_entry_ne fun _ => ?_).trans hn
    rintro rfl
    rw [ht] at htmp
    cases htmp

/-- A published intent stays. -/
theorem Change.published {r' : ClearRequest} {intent : Dict} {q : String} (h : Change env r s s')
    (hp : Published s r' intent q) : Published s' r' intent q := by
  obtain ⟨a, j, e, ha, hj, he, hperm⟩ := hp.file
  refine { hp with file := ⟨a, j, e, ?_, ?_, ?_, hperm⟩ }
  · exact h.entry ha isTmp_auditDirName fun _ => by decide
  · exact h.entry hj (isTmp_intentName _) fun hd => nomatch hd
  · rw [(h.same hj (isTmp_intentName _)).content]
    exact he

end DatasourceKit

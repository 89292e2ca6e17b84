/-
  The files of the discovery ledger: `write_window` and `_atomic_write` (`ledger.py`).

  Threads of several processes write the files of one source and window.  All runs share
  `summary.json`, and the name of a temporary file has only its target and the process id in it.

  * `atomicWrite`, `writeWindow`: the source functions; `ledgerWriters`: any threads that call
    them, of which any may be killed at any step;
  * `Unshared`: a thread opens a temporary file only while no other thread holds one of that name;
  * `ledger_whole`: where that is so, every file has its old content, or complete bytes that a call
    has made for it.
-/
import DatasourceKit.Writers
import DatasourceKit.Ledger.Items

namespace DatasourceKit

open Interleave Prog Files

/-! ## Names -/

/-- `f"{target.name}.{os.getpid()}.tmp"`. -/
def pidTmp (target : String) (pid : ℕ) : String := target ++ "." ++ toString pid ++ ".tmp"

def summaryName : String := "summary.json"
def jsonlName (runId : String) : String := runId ++ ".jsonl"

/-- The files of a window. -/
def IsLedgerName (n : String) : Prop := n = summaryName ∨ ∃ runId, n = jsonlName runId

theorem last_append (s : String) {t : String} {c : Char} (ht : t.toList.getLast? = some c) :
    (s ++ t).toList.getLast? = some c := by
  rw [String.toList_append, List.getLast?_append, ht]
  rfl

/-- A temporary file is none of them. -/
theorem not_isLedgerName_pidTmp (target : String) (pid : ℕ) :
    ¬IsLedgerName (pidTmp target pid) := by
  have htmp : (pidTmp target pid).toList.getLast? = some 'p' := last_append _ (by decide)
  rintro (h | ⟨runId, h⟩)
  · rw [h] at htmp
    exact absurd htmp (by decide)
  · have hjsonl : (jsonlName runId).toList.getLast? = some 'l' := last_append _ (by decide)
    rw [h, hjsonl] at htmp
    exact absurd htmp (by decide)

theorem summaryName_ne (runId : String) : summaryName ≠ jsonlName runId := by
  intro h
  have hjsonl : (jsonlName runId).toList.getLast? = some 'l' := last_append _ (by decide)
  rw [← h] at hjsonl
  exact absurd hjsonl (by decide)

/-! ## The writers -/

/-- The arguments of a `write_window`, for the source and the window that all calls share. -/
structure WindowCall where
  runId : String
  items : List DiscoveredItem

/-- `_atomic_write`. -/
def atomicWrite (target : String) (data : Bytes) : StateProg Unit :=
  (perform StateOp.ident).bind fun ident =>
  (((onDisk (.truncate (pidTmp target ident.1))).bind fun i =>
      ((writeFile i 0 data).bind fun _ => syncFile.bind fun _ => syncFile).ensure
      syncFile).bind fun _ =>
    onDisk (.rename (pidTmp target ident.1) target)).ensure
  ((onDisk (.exists_ (pidTmp target ident.1))).bind fun found : Bool =>
    if found then onDisk (.unlink (pidTmp target ident.1)) else .ret ())

section
variable [FloatText]

/-- `write_window`, in a folder that may have to be made. -/
def writeWindow (call : WindowCall) : StateProg LedgerSummary :=
  syncFile.bind fun _ => (Prog.ofExcept (ledgerText call.items)).bind fun jsonl =>
  (atomicWrite (jsonlName call.runId) (utf8 jsonl)).bind fun _ =>
  (Prog.ofExcept (summaryText (summarize call.items))).bind fun text =>
  (atomicWrite summaryName (utf8 text)).bind fun _ => .ret (summarize call.items)

/-- Threads that write the window. -/
def ledgerWriters : Machine StateOp.Val Exc LedgerSummary (StateWorld WindowCall) WindowCall
    (DiskChoice Exc ⊕ String) :=
  fileMachine writeWindow

abbrev LedgerCfg := Cfg StateOp.Val Exc LedgerSummary (StateWorld WindowCall) WindowCall

/-- The complete bytes that a call makes for a file. -/
def WindowCall.Makes (k : WindowCall) (n : String) (b : Bytes) : Prop :=
  (n = jsonlName k.runId ∧ ∃ cs, ledgerText k.items = .ok cs ∧ b = utf8 cs) ∨
  (n = summaryName ∧ ∃ cs, summaryText (summarize k.items) = .ok cs ∧ b = utf8 cs)

omit [FloatText] in
/-- A thread opens a temporary file only while no other thread holds one of that name: each has
    renamed or removed its own. -/
def Unshared (c : LedgerCfg) (a : Act WindowCall (DiskChoice Exc ⊕ String)) : Prop :=
  ∀ t ch n, a = .op t ch → c.next t = some (.disk (.truncate n)) →
    ∀ t' ≠ t, ∀ h, (c.sh.writer t').hold = some h → h.name ≠ n

/-! ## One call -/

/-- What a thread only does. -/
def LedgerGuard : StateOp → Writer WindowCall → Prop
  | .disk (.truncate n), _ => ¬IsLedgerName n
  | .disk (.write i off _), w => ∃ h, w.hold = some h ∧ h.inode = i ∧ h.written.length = off
  | .disk (.rename src dst), w => IsLedgerName dst ∧
    ∃ h k, w.hold = some h ∧ h.name = src ∧ w.call = some k ∧ k.Makes dst h.written
  | .disk (.unlink n), _ => ¬IsLedgerName n
  | .disk (.create _), _ | .uuid, _ => False
  | .disk (.exists_ _), _ | .disk .sync, _ | .ident, _ => True

theorem ledgerGuard_file : FileGuard LedgerGuard := ⟨fun hh hi hoff => ⟨_, hh, hi, hoff⟩, trivial⟩

variable {w : Writer WindowCall} {k : WindowCall}

/-- **`_atomic_write`** only does what its guards allow. -/
theorem always_atomicWrite {target : String} {data : Bytes} (htarget : IsLedgerName target)
    (hcall : w.call = some k) (hmakes : k.Makes target data) :
    (atomicWrite target data).Always WriterStep LedgerGuard (fun _ w => w.call = some k)
    (fun _ _ => True) w := by
  have hdrop : ∀ {w : Writer WindowCall} {Q : Unit → Writer WindowCall → Prop}
      {E : Exc → Writer WindowCall → Prop} (pid : ℕ),
      (∀ h, Q () { w with hold := h }) → (∀ e h, E e { w with hold := h }) →
      ((onDisk (.exists_ (pidTmp target pid))).bind fun found : Bool =>
        if found then onDisk (.unlink (pidTmp target pid))
        else .ret ()).Always WriterStep LedgerGuard Q E w := by
    intro w Q E pid hq he
    refine always_bind.2 (always_perform.2 ⟨trivial, ?_, ?_⟩)
    · rintro (_ | _) w' ⟨rfl, -⟩
      · exact hq w.hold
      · refine always_perform.2 ⟨not_isLedgerName_pidTmp target pid, ?_, ?_⟩
        · rintro v w' ⟨rfl, -⟩
          exact hq none
        · rintro e w' ⟨rfl, -⟩
          exact he e none
    · rintro e w' ⟨rfl, -⟩
      exact he e w.hold
  refine always_bind.2 (always_perform.2 ⟨trivial, ?_, ?_⟩)
  · rintro ident w' ⟨-, rfl⟩
    refine always_ensure.2 (Prog.Always.mono (Q := fun _ w => w.call = some k)
      (E := fun _ _ => True) (fun _ _ hg => hg)
      (fun _ w hw => hdrop ident.1 (fun _ => hw) fun _ _ => trivial)
      (fun _ w _ => hdrop ident.1 (fun _ => trivial) fun _ _ => trivial) ?_)
    refine always_bind.2 (always_bind.2
      (always_truncate (not_isLedgerName_pidTmp target _) (fun i => ?_) fun _ => trivial))
    refine always_closingFile ledgerGuard_file
      (always_bind.2 (always_writeFile ledgerGuard_file rfl rfl rfl ?_
      fun _ _ _ => trivial))
    refine always_bind.2 (always_syncFile ledgerGuard_file
      (always_syncFile ledgerGuard_file ⟨?_, fun _ => trivial⟩
      fun _ _ => trivial) fun _ _ => trivial)
    exact always_rename ⟨htarget, _, k, rfl, rfl, hcall, hmakes⟩ hcall fun _ => trivial
  · rintro e w' ⟨he, -⟩
    cases he

/-- **`write_window`** likewise. -/
theorem always_writeWindow (hcall : w.call = some k) :
    (writeWindow k).Always WriterStep LedgerGuard (fun _ _ => True) (fun _ _ => True) w := by
  refine always_bind.2 (always_syncFile ledgerGuard_file (always_bind.2 ?_) fun _ => trivial)
  rcases hjsonl : ledgerText k.items with e | jsonl
  · trivial
  refine always_bind.2 (Always.mono (fun _ _ hg => hg) (fun _ w hw => always_bind.2 ?_)
    (fun _ _ _ => trivial)
    (always_atomicWrite (.inr ⟨_, rfl⟩) hcall (.inl ⟨rfl, jsonl, hjsonl, rfl⟩)))
  rcases htext : summaryText (summarize k.items) with e | text
  · trivial
  exact always_bind.2 ((always_atomicWrite (.inl rfl) hw (.inr ⟨rfl, text, htext, rfl⟩)).mono
    (fun _ _ hg => hg) (fun _ _ _ => trivial) fun _ _ _ => trivial)

/-! ## All calls -/

/-- What holds between any steps of the threads. -/
structure LedgerInv (disk₀ : Disk String) (s : StateWorld WindowCall) : Prop where
  apart : Replacing IsLedgerName s.disk fun t => (s.writer t).hold
  called : ∀ t k, (s.writer t).call = some k → k ∈ s.started
  whole : ∀ n, IsLedgerName n → s.disk.read n = disk₀.read n ∨
    ∃ k ∈ s.started, ∃ b, k.Makes n b ∧ s.disk.read n = some b

namespace LedgerInv
variable {disk₀ : Disk String} {s : StateWorld WindowCall} {t : ℕ}

/-- The thread takes up a call, or leaves one: it holds nothing. -/
theorem reset {x : Option WindowCall} {started : List WindowCall} (hi : LedgerInv disk₀ s)
    (hstarted : s.started ⊆ started) (hx : ∀ k, x = some k → k ∈ started) :
    LedgerInv disk₀
      (({ s with started := started } : StateWorld WindowCall).setWriter t
        { ident := (s.writer t).ident, call := x }) where
  apart := by
    rw [StateWorld.hold_setWriter]
    exact hi.apart.release t
  called t' k hk := by
    by_cases ht : t' = t
    · subst ht
      rw [StateWorld.setWriter_self] at hk
      exact hx k hk
    · rw [StateWorld.setWriter_ne ht] at hk
      exact hstarted (hi.called t' k hk)
  whole n hn := (hi.whole n hn).imp_right fun ⟨k, hk, hb⟩ => ⟨k, hstarted hk, hb⟩

/-- What the guards allow, the others' files permit, if the thread opens no file of theirs. -/
theorem permits {o : DiskOp String} (hok : LedgerGuard (.disk o) (s.writer t))
    (hfree : ∀ n, o = .truncate n → ∀ t' ≠ t, ∀ h, (s.writer t').hold = some h → h.name ≠ n) :
    Permits IsLedgerName (fun t => (s.writer t).hold) t o := by
  cases o with
  | create n => exact hok.elim
  | truncate n => exact ⟨hok, hfree n rfl⟩
  | write i off b => exact hok
  | rename src dst =>
    obtain ⟨hdst, h, k, hh, hname, -⟩ := hok
    exact ⟨h, hh, hname, hdst⟩
  | unlink n => exact hok
  | exists_ n => trivial
  | sync => trivial

/-- **An operation on a file**: every file keeps its content, or gets complete bytes. -/
theorem disk {o : DiskOp String} {r : Except Exc o.Val} {d' : Disk String} (hi : LedgerInv disk₀ s)
    (hok : LedgerGuard (.disk o) (s.writer t))
    (hfree : ∀ n, o = .truncate n → ∀ t' ≠ t, ∀ h, (s.writer t').hold = some h → h.name ≠ n)
    (hact : s.disk.Acts o r d') :
    LedgerInv disk₀ (({ s with disk := d' } : StateWorld WindowCall).setWriter t
      ((s.writer t).after o r)) where
  apart := by
    rw [StateWorld.hold_setWriter]
    exact hi.apart.step (permits hok hfree) hact
  called t' k hk := by
    by_cases ht : t' = t
    · subst ht
      rw [StateWorld.setWriter_self] at hk
      exact hi.called t' k hk
    · rw [StateWorld.setWriter_ne ht] at hk
      exact hi.called t' k hk
  whole n hn := by
    show d'.read n = _ ∨ ∃ k ∈ s.started, ∃ b, k.Makes n b ∧ d'.read n = some b
    rcases hi.apart.read_target (permits hok hfree) hact hn with hread | ⟨h, v, rfl, hh, -, hread⟩
    · rw [hread]
      exact hi.whole n hn
    · obtain ⟨-, h', k, hh', -, hk, hmakes⟩ := hok
      cases hh.symm.trans hh'
      exact .inr ⟨k, hi.called t k hk, h.written, hmakes, hread⟩

end LedgerInv

/-- Every interleaving in which no temporary file is shared keeps the invariant. -/
theorem ledger_rely (disk₀ : Disk String) :
    Machine.Rely ledgerWriters Unshared (LedgerInv disk₀) (fun t s => s.writer t) WriterStep
    LedgerGuard (fun _ _ _ => True) where
  start c t k s _ hi _ hs := by
    cases hs
    refine ⟨hi.reset (List.subset_cons_self _ _) fun k' hk' => ?_, ?_, fun j hj =>
      StateWorld.setWriter_ne hj⟩
    · cases hk'
      exact List.mem_cons_self
    · rw [StateWorld.setWriter_self]
      exact always_writeWindow rfl
  op c t ch k o f r s hp hi hrun hok hop := by
    cases o with
    | disk o =>
      obtain ⟨d', hact, rfl⟩ := StateWorld.op_disk hop
      have hfree : ∀ n, o = .truncate n → ∀ t' ≠ t, ∀ h, (c.sh.writer t').hold = some h →
          h.name ≠ n := by
        rintro n rfl
        exact hp t ch n rfl (Cfg.next_call hrun)
      exact ⟨hi.disk hok hfree hact, ⟨StateWorld.setWriter_self, hact.answers⟩, fun j hj =>
        StateWorld.setWriter_ne hj⟩
    | uuid => exact hok.elim
    | ident =>
      obtain ⟨hr, rfl⟩ := StateWorld.op_ident hop
      exact ⟨hi, ⟨hr, rfl⟩, fun _ _ => rfl⟩
  finish c t k r _ hi _ _ :=
    ⟨hi.reset (List.Subset.refl _) (by simp), fun j hj => StateWorld.setWriter_ne hj⟩
  die c t _ hi := ⟨hi.reset (List.Subset.refl _) (by simp), fun j hj => StateWorld.setWriter_ne hj⟩

/-- **The files of a ledger stay whole** in every run in which a thread opens a temporary file only
    while no other one holds a file of that name: each file has its old content, or the complete
    bytes that a call has made for it. -/
theorem ledger_whole {disk₀ : Disk String} {ident : ℕ ↪ ℕ × ℕ} {c : LedgerCfg}
    (h : ledgerWriters.Reach Unshared (Machine.idle (bootWriters disk₀ ident)) c) :
    ∀ n, IsLedgerName n → c.sh.disk.read n = disk₀.read n ∨
      ∃ k ∈ c.sh.started, ∃ b, k.Makes n b ∧ c.sh.disk.read n = some b := by
  have hboot : LedgerInv disk₀ (bootWriters disk₀ ident) :=
    ⟨⟨by simp [bootWriters], by simp [bootWriters]⟩, by simp [bootWriters], fun _ _ => .inl rfl⟩
  exact ((ledger_rely disk₀).inv hboot h).1.whole

/-- A thread of `ts` acts, and opens no temporary file that another one of them holds. -/
def opensOwn (ts : List ℕ) (c : LedgerCfg) (a : Act WindowCall (DiskChoice Exc ⊕ String)) : Bool :=
  ts.contains a.thread && match c.next a.thread with
    | some (.disk (.truncate n)) =>
      ts.all fun t => t == a.thread || (c.sh.writer t).hold.all fun h => h.name != n
    | _ => true

/-- Threads that open their own files only share none. -/
theorem unshared_of_own {disk₀ : Disk String} {ident : ℕ ↪ ℕ × ℕ} {ts : List ℕ} {c : LedgerCfg}
    (h : ledgerWriters.Reach (fun c a => opensOwn ts c a = true)
      (Machine.idle (bootWriters disk₀ ident)) c) :
    ledgerWriters.Reach Unshared (Machine.idle (bootWriters disk₀ ident)) c ∧
      ∀ t ∉ ts, (c.sh.writer t).hold = none := by
  induction h with
  | refl => exact ⟨.refl, fun _ _ => rfl⟩
  | @step c c' a _ ha hs ih =>
    obtain ⟨hreach, hnone⟩ := ih
    obtain ⟨hlisted, hown⟩ := Bool.and_eq_true_iff.1 ha
    refine ⟨.step hreach ?_ hs, fun t ht => ?_⟩
    · rintro t ch n rfl hnext t' ht' h hh rfl
      by_cases hin : t' ∈ ts
      · have hnext' : c.next (Act.op t ch : Act WindowCall (DiskChoice Exc ⊕ String)).thread = _ :=
          hnext
        rw [hnext'] at hown
        have hfree := List.all_eq_true.1 hown t' hin
        have hne : ¬t' = (Act.op t ch : Act WindowCall (DiskChoice Exc ⊕ String)).thread := ht'
        simp [hh, hne] at hfree
      · exact absurd ((hnone t' hin).symm.trans hh) (by simp)
    · have hother : c'.sh.writer t = c.sh.writer t := by
        have hthread : t ≠ a.thread := by
          rintro rfl
          exact ht (List.contains_iff_mem.1 hlisted)
        rcases Machine.step_cases hs with ⟨i, k, s, rfl, -, hst, rfl⟩ |
          ⟨i, ch, k, o, f, r, s, rfl, -, hop, rfl⟩ | ⟨i, k, r, rfl, -, rfl⟩ | ⟨i, rfl, rfl⟩
        · cases hst
          exact StateWorld.setWriter_ne hthread
        · exact StateWorld.op_others hop hthread
        · exact StateWorld.setWriter_ne hthread
        · exact StateWorld.setWriter_ne hthread
      rw [hother]
      exact hnone t ht

end

/-! ### Runs -/

/-- Every thread is a process of its own. -/
def processIdent : ℕ ↪ ℕ × ℕ := ⟨fun t => (t, 0), fun _ _ h => congrArg Prod.fst h⟩

/-- Threads 0 and 1 perform `n` operations each, by turns.  A `write` writes the 99 bytes that the
    text of an item and a summary have. -/
def ledgerTurns (n : ℕ) : List (Act WindowCall (DiskChoice Exc ⊕ String)) :=
  (List.replicate n [.op 0 (.inl (.done 99)), .op 1 (.inl (.done 99))]).flatten

/-- Two processes write an item each. -/
def processSteps : List (Act WindowCall (DiskChoice Exc ⊕ String)) :=
  .start 0 ⟨"a", [fetchedItem]⟩ :: .start 1 ⟨"b", [{ fetchedItem with sourceId := "two" }]⟩ ::
    ledgerTurns 17

theorem ledger_whole_processes : ∃ c : LedgerCfg, (c.sh.disk.read summaryName).isSome = true ∧
    (c.sh.disk.read "a.jsonl").isSome = true ∧ (c.sh.disk.read "b.jsonl").isSome = true ∧
    ∀ n, IsLedgerName n → c.sh.disk.read n = emptyDisk.read n ∨
      ∃ k ∈ c.sh.started, ∃ b, @WindowCall.Makes oneFloat.toFloatText k n b ∧
      c.sh.disk.read n = some b := by
  obtain ⟨c, hc, hq, -⟩ := Machine.Reach.exists_of_run (P := fun c a => opensOwn [0, 1] c a = true)
    (@ledgerWriters oneFloat.toFloatText) (Machine.idle (bootWriters emptyDisk processIdent))
    (opensOwn [0, 1]) processSteps
    (fun c => (c.sh.disk.read summaryName).isSome && (c.sh.disk.read "a.jsonl").isSome &&
      (c.sh.disk.read "b.jsonl").isSome) (fun _ _ ha => ha) (by decide +kernel)
  simp only [Bool.and_eq_true] at hq
  exact ⟨c, hq.1.1, hq.1.2, hq.2,
    @ledger_whole oneFloat.toFloatText _ _ _ (@unshared_of_own oneFloat.toFloatText _ _ _ _ hc).1⟩

/-- A text that a call makes for the summary is not empty. -/
theorem WindowCall.not_makes_nil [FloatText] (k : WindowCall) : ¬k.Makes summaryName [] := by
  rintro (⟨hname, -⟩ | ⟨-, cs, hcs, hnil⟩)
  · exact summaryName_ne _ hname
  · have hempty : decodeUtf8 [] = some cs := by
      rw [hnil]
      exact decodeUtf8_utf8 cs
    have hcons : ∃ c l, cs = c :: l := by
      rw [(dumpsMembers_ok hcs).2, Json.sorted]
      rcases sortMembers (Json.sortedMembers (summarize k.items).asDict) with _ | ⟨e, l⟩
      · exact ⟨_, _, rfl⟩
      · exact ⟨_, _, rfl⟩
    obtain ⟨c, l, rfl⟩ := hcons
    cases hempty

/-- Thread `t` performs `n` operations; a `write` writes the 99 bytes of a summary without items. -/
def ledgerOps (t n : ℕ) : List (Act WindowCall (DiskChoice Exc ⊕ String)) :=
  List.replicate n (.op t (.inl (.done 99)))

/-- Two threads of one process: the second one empties the temporary file of the summary before the
    first one renames it. -/
theorem summary_emptied : ∃ c : LedgerCfg,
    (@ledgerWriters oneFloat.toFloatText).Reach (fun _ _ => True)
    (Machine.idle (bootWriters emptyDisk threadIdent)) c ∧ c.sh.disk.read summaryName = some [] ∧
    ∀ k ∈ c.sh.started, ¬@WindowCall.Makes oneFloat.toFloatText k summaryName [] := by
  obtain ⟨c, hc, hq, -⟩ := Machine.Reach.exists_of_run (P := fun _ _ => True)
    (@ledgerWriters oneFloat.toFloatText) (Machine.idle (bootWriters emptyDisk threadIdent))
      (fun _ _ => true)
    (.start 0 ⟨"a", []⟩ :: .start 1 ⟨"b", []⟩ :: ledgerOps 0 14 ++ ledgerOps 1 10 ++ ledgerOps 0 1)
    (fun c => c.sh.disk.read summaryName == some []) (fun _ _ _ => trivial) (by decide +kernel)
  exact ⟨c, hc, by simpa using hq, fun k _ => @WindowCall.not_makes_nil oneFloat.toFloatText k⟩

end DatasourceKit

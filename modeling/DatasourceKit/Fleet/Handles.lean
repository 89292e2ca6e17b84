/-
  The handle table of a supervisor (`_OWNED_HANDLES`).

  The calls of one thread are launches, stops and clearances; between them `pid.json`
  becomes anything (`edited`), as it does when the calls are about several units.

  * `Own.TableSound`: an entry of the table is the child that was launched with its token,
    and no token is used twice;
  * `Authorizes`: what must hold before an operation, so that it stays so; a child is only
    terminated if `pid.json` names it and it has not been seen to exit (`Own.Names`);
  * `Releases`: the entries that are gone after a call;
  * `stop_capability`: all of this in every run.
-/
import DatasourceKit.Fleet.Operations
import DatasourceKit.Fleet.InTurn

namespace DatasourceKit

open Interleave Interleave.Prog Interleave.Machine

/-! ## The table -/

namespace Own
variable (a : Own)

/-- The tokens of the launches. -/
def launched : List String := a.kids.map Child.token

/-- An entry is the child of the launch with its token. -/
structure TableSound : Prop where
  entry : ∀ t k, a.handles.lookup t = some k → a.launched[k]? = some t
  issued : ∀ t ∈ a.launched, t ∈ a.tokens
  distinct : a.launched.Nodup

/-- `pid.json` names the child `k`, which has not been seen to exit. -/
def Names (k : ℕ) : Prop := ∃ f d kid, a.pid = some f ∧ f.content = .doc d ∧ a.kids[k]? = some kid ∧
  d.get "token" = .str kid.token ∧ (d.get "pid").eqInt kid.pid = true ∧ kid.exited = false ∧
  a.handles.lookup kid.token = some k

end Own

/-- What must hold before an operation of the supervisor. -/
def Authorizes : UnitOp → Own → Prop
  | .popen l, a => l.token ∈ a.tokens ∧ l.token ∉ a.launched
  | .setHandle t k, a => a.launched[k]? = some t
  | .terminate k, a => a.Names k
  | _, _ => True

section
variable {o : UnitOp} {a a' : Own} {r : Except Exc o.Val}

theorem launched_see (a : Own) (k : ℕ) (b : Bool) : (a.see k b).launched = a.launched := by
  have hmap : ∀ (l : List Child) (k : ℕ),
      (l.modify k fun c => { c with exited := b }).map Child.token = l.map Child.token := by
    intro l
    induction l with
    | nil => intro k; cases k <;> rfl
    | cons c l ih => intro k; cases k <;> simp [ih]
  exact hmap a.kids k

/-- Nothing of the table and the children has changed. -/
structure Own.SameTable (a a' : Own) : Prop where
  handles : a'.handles = a.handles
  tokens : a'.tokens = a.tokens
  kids : a'.kids = a.kids

theorem Own.SameTable.launched (h : a.SameTable a') : a'.launched = a.launched := by
  rw [Own.launched, h.kids]
  rfl

def UnitOp.readsPid : UnitOp → Bool
  | .readPid => true
  | _ => false

/-- The operation does nothing with a token, a child or a handle. -/
def UnitOp.offTable : UnitOp → Bool
  | .uuid4 | .popen _ | .wait _ | .poll _ | .terminate _ | .getHandle _ |
    .setHandle .. | .popHandle _
  | .replaceState _ => false
  | _ => true

theorem UnitOp.acts_sameTable (ho : o.offTable = true) (h : o.acts a r a') : a.SameTable a' := by
  cases o
  case createPid =>
    obtain ⟨-, -, rfl⟩ | ⟨-, -, rfl⟩ := h
    · exact ⟨rfl, rfl, rfl⟩
    · exact ⟨rfl, rfl, rfl⟩
  case writePid => obtain ⟨-, rfl⟩ := h; exact ⟨rfl, rfl, rfl⟩
  case syncPid => obtain ⟨-, rfl⟩ := h; exact ⟨rfl, rfl, rfl⟩
  case replacePid =>
    obtain ⟨-, rfl, -⟩ | ⟨-, -, _, rfl⟩ := h
    · exact ⟨rfl, rfl, rfl⟩
    · exact ⟨rfl, rfl, rfl⟩
  case unlinkPid =>
    obtain ⟨-, rfl⟩ | ⟨-, rfl⟩ := h
    · exact ⟨rfl, rfl, rfl⟩
    · exact ⟨rfl, rfl, rfl⟩
  case uuid4 | popen | wait | poll | terminate | setHandle | popHandle | replaceState => cases ho
  all_goals obtain rfl := UnitOp.acts_quiet rfl h; exact ⟨rfl, rfl, rfl⟩

theorem Own.TableSound.same (ha : a.TableSound) (h : a.SameTable a') : a'.TableSound :=
  ⟨h.launched ▸ h.handles ▸ ha.entry, h.launched ▸ h.tokens ▸ ha.issued, h.launched ▸ ha.distinct⟩

/-- **The table stays sound.** -/
theorem Own.TableSound.acts (ha : a.TableSound) (hg : Authorizes o a) (h : o.acts a r a') :
    a'.TableSound := by
  cases o
  case uuid4 =>
    obtain ⟨t, -, -, rfl⟩ := h
    exact ⟨ha.entry, fun t' ht' => List.mem_cons_of_mem _ (ha.issued t' ht'), ha.distinct⟩
  case popen l =>
    obtain ⟨pid, -, rfl⟩ := h
    have hl : Own.launched { a with kids := a.kids ++ [⟨l.token, pid, false⟩] } =
        a.launched ++ [l.token] := by
      simp [Own.launched]
    refine ⟨fun t k ht => ?_, fun t ht => ?_, ?_⟩
    · have hk := ha.entry t k ht
      rw [hl]
      exact List.getElem?_append_left (List.getElem?_eq_some_iff.1 hk).1 ▸ hk
    · rw [hl] at ht
      rcases List.mem_append.1 ht with ht | ht
      · exact ha.issued t ht
      · obtain rfl := List.mem_singleton.1 ht
        exact hg.1
    · rw [hl]
      exact ha.distinct.append (List.nodup_singleton _) (by simpa using hg.2)
  case wait k =>
    obtain ⟨-, rfl⟩ := h
    exact ⟨launched_see a k _ ▸ ha.entry, launched_see a k _ ▸ ha.issued,
      launched_see a k _ ▸ ha.distinct⟩
  case poll k =>
    obtain ⟨b, -, -, rfl⟩ := h
    exact ⟨launched_see a k _ ▸ ha.entry, launched_see a k _ ▸ ha.issued,
      launched_see a k _ ▸ ha.distinct⟩
  case setHandle t k =>
    obtain ⟨-, rfl⟩ := h
    refine ⟨fun t' k' ht' => ?_, ha.issued, ha.distinct⟩
    by_cases htt : t' = t
    · subst htt
      rw [show (a.handles.insert t' k).lookup t' = some k from AList.lookup_insert _] at ht'
      cases ht'
      exact hg
    · rw [show (a.handles.insert t k).lookup t' = _ from AList.lookup_insert_ne htt] at ht'
      exact ha.entry t' k' ht'
  case popHandle t =>
    obtain ⟨-, rfl⟩ := h
    refine ⟨fun t' k' ht' => ?_, ha.issued, ha.distinct⟩
    by_cases htt : t' = t
    · subst htt
      rw [show (a.handles.erase t').lookup t' = none from AList.lookup_erase ..] at ht'
      cases ht'
    · rw [show (a.handles.erase t).lookup t' = _ from AList.lookup_erase_ne htt] at ht'
      exact ha.entry t' k' ht'
  case terminate | getHandle => obtain rfl := UnitOp.acts_quiet rfl h; exact ha
  case replaceState => obtain ⟨-, rfl⟩ := h; exact ⟨ha.entry, ha.issued, ha.distinct⟩
  all_goals exact ha.same (UnitOp.acts_sameTable rfl h)

/-! ## Steps -/

/-- The operation is one on objects of the supervisor, in memory. -/
def UnitOp.inMemory : UnitOp → Bool
  | .getHandle _ | .setHandle .. | .popHandle _ | .poll _ => true
  | _ => false

/-- What an operation does to the content that the call has read. -/
def UnitOp.reads : (o : UnitOp) → Except Exc o.Val → Option Content → Option Content → Prop
  | .readPid, .ok c, _, m' => m' = some c
  | .readPid, .error _, m, m' => m' = m ∨ m' = none
  | _, _, m, m' => m' = m

/-- The supervisor's part of the world, and what the running call has read of `pid.json`. -/
abbrev Reader := Own × Option Content

/-- A step of the supervisor; an operation in memory fails only if it is interrupted. -/
def TableStep (o : UnitOp) (s : Reader) (r : Except Exc o.Val) (s' : Reader) : Prop :=
  OwnStep o s.1 r s'.1 ∧ (o.inMemory = true → o.acts s.1 r s'.1 ∨ r = .error (.fault .interrupt)) ∧
    o.reads r s.2 s'.2

theorem Own.TableSound.step (ha : a.TableSound) (hg : Authorizes o a) (h : OwnStep o a r a') :
    a'.TableSound := by
  obtain ⟨-, h | ⟨f, -, rfl | ⟨r', h⟩⟩⟩ := h
  · exact ha.acts hg h
  · exact ha
  · exact ha.acts hg h

/-- The operation is off the table and does not read `pid.json`. -/
def LeavesTable (o : UnitOp) : Prop := o.offTable = true ∧ o.readsPid = false

theorem leavesTable_minor (o : UnitOp) (h : o.isMinor = true) : LeavesTable o := by
  cases o <;> first | (cases h; done) | exact ⟨rfl, rfl⟩

variable {m : Option Content} {s s' : Reader} {E : Exc → Reader → Prop}

theorem TableStep.leaves (ho : LeavesTable o) (h : TableStep o s r s') :
    s.1.SameTable s'.1 ∧ s'.2 = s.2 := by
  refine ⟨?_, ?_⟩
  · obtain ⟨⟨-, h | ⟨f, -, h | ⟨r', h⟩⟩⟩, -⟩ := h
    · exact UnitOp.acts_sameTable ho.1 h
    · rw [h]
      exact ⟨rfl, rfl, rfl⟩
    · exact UnitOp.acts_sameTable ho.1 h
  · have hreads := h.2.2
    cases o <;> first | exact hreads | cases ho.2

/-- A program that leaves the table alone. -/
theorem always_leaving {α : Type} {p : UnitProg α} {J : Reader → Prop} (hp : p.Uses LeavesTable)
    (hJ : ∀ s s', s.1.SameTable s'.1 → s'.2 = s.2 → J s → J s') (hs : J s) :
    p.Always TableStep (fun o s => Authorizes o s.1) (fun _ => J) (fun _ => J) s := by
  refine Always.of_uses (J := J) hp (fun o s ho hs => ⟨?_, fun r s' h => ?_⟩) hs
  · obtain ⟨hoff, -⟩ := ho
    cases o <;> trivial
  · obtain ⟨hsame, hm⟩ := h.leaves ho
    exact hJ s s' hsame hm hs

/-- What follows such a program starts with what it has kept. -/
theorem always_leavingThen {α β : Type} {p : UnitProg α} {f : α → UnitProg β} {J : Reader →
    Prop} {Q : β → Reader → Prop}
    (hp : p.Uses LeavesTable) (hJ : ∀ s s', s.1.SameTable s'.1 → s'.2 = s.2 → J s → J s') (hs : J s)
    (hf : ∀ v s, J s → (f v).Always TableStep (fun o s => Authorizes o s.1) Q E s)
    (hE : ∀ e s, J s → E e s) :
    (p.bind f).Always TableStep (fun o s => Authorizes o s.1) Q E s :=
  always_bind.2 ((always_leaving hp hJ hs).mono (fun _ _ h => h) hf hE)

/-- An operation other than a read of `pid.json`. -/
theorem always_table {Q : o.Val → Reader → Prop} (ho : o.readsPid = false) (hg : Authorizes o a)
    (hok : ∀ v a', o.acts a (.ok v) a' → Q v (a', m))
    (herr : ∀ e a', (o.inMemory = true → e = .fault .interrupt ∨ o.acts a (.error e) a') →
      (a' = a ∨ ∃ r, o.acts a r a') → E e (a', m)) :
    (perform o).Always TableStep (fun o s => Authorizes o s.1) Q E (a, m) := by
  have hread : ∀ (r : Except Exc o.Val) m', o.reads r m m' → m' = m := by
    intro r m' h
    cases o <;> first | exact h | cases ho
  refine always_perform.2 ⟨hg, ?_, ?_⟩
  · rintro v ⟨a', m'⟩ ⟨⟨-, h | ⟨f, hf, -⟩⟩, -, hr⟩
    · obtain rfl := hread _ _ hr
      exact hok v a' h
    · cases hf
  · rintro e ⟨a', m'⟩ ⟨⟨-, h⟩, hmem, hr⟩
    obtain rfl := hread _ _ hr
    refine herr e a' (fun ho => (hmem ho).symm.imp_left fun h => Except.error.inj h) ?_
    rcases h with h | ⟨f, -, h | ⟨r', h⟩⟩
    · exact .inr ⟨_, h⟩
    · exact .inl h
    · exact .inr ⟨_, h⟩

/-- An operation whose answer does not matter. -/
theorem always_any {Q : o.Val → Reader → Prop} (hg : Authorizes o s.1)
    (hQ : ∀ v s, Q v s) (hE : ∀ e s, E e s) :
    (perform o).Always TableStep (fun o s => Authorizes o s.1) Q E s :=
  always_perform.2 ⟨hg, fun v s _ => hQ v s, fun e s _ => hE e s⟩

/-! ## A launch -/

/-- The last child was launched with the token `t`, for which the table holds `h`. -/
def Last (t : String) (k : ℕ) (h : Option ℕ) (a : Own) : Prop :=
  a.launched.length = k + 1 ∧ a.launched[k]? = some t ∧ a.handles.lookup t = h

variable {t : String} {k : ℕ} {h : Option ℕ}

theorem Last.same {s s' : Reader} (hs : s.1.SameTable s'.1) (_ : s'.2 = s.2) (ha : Last t k h s.1) :
    Last t k h s'.1 :=
  ⟨hs.launched ▸ ha.1, hs.launched ▸ ha.2.1, hs.handles ▸ ha.2.2⟩

theorem Last.see (ha : Last t k h a) (n : ℕ) (b : Bool) : Last t k h (a.see n b) :=
  ⟨launched_see a n b ▸ ha.1, launched_see a n b ▸ ha.2.1, ha.2.2⟩

theorem Last.handle (ha : Last t k (some k) a) : ∃ kid, a.handle t = some (k, kid) := by
  obtain ⟨-, hl, hk⟩ := ha
  obtain ⟨kid, hkid, -⟩ := Option.map_eq_some_iff.1 (List.getElem?_map .. ▸ hl)
  exact ⟨kid, by simp [Own.handle, hk, hkid]⟩

/-- The probe retires the handle of a child that has exited. -/
theorem always_probeTable {rounds : ℕ} (ha : Last t k (some k) a) :
    (probe k t rounds).Always TableStep (fun o s => Authorizes o s.1)
      (fun b s => b = false → Last t k none s.1) (fun _ _ => True) (a, m) := by
  induction rounds generalizing a m with
  | zero => exact fun hb => by cases hb
  | succ rounds ih =>
    refine always_bind.2 (always_table rfl trivial ?_ fun _ _ _ _ => trivial)
    rintro b a' ⟨b', hb, -, rfl⟩
    cases hb
    cases b with
    | false =>
      exact always_leavingThen (J := fun s => Last t k (some k) s.1) (uses_sys leavesTable_minor)
        (fun _ _ => Last.same) (ha.see k _) (fun _ s hs => ih hs) fun _ _ _ => trivial
    | true =>
      refine always_bind.2 (always_table rfl trivial ?_ fun _ _ _ _ => trivial)
      rintro v a' ⟨hv, rfl⟩
      cases hv
      obtain ⟨kid, hkid⟩ := (ha.see k true).handle
      simp only [hkid, Option.map_some, if_true]
      refine always_bind.2 (always_table rfl trivial ?_ fun _ _ _ _ => trivial)
      rintro - a' ⟨-, rfl⟩ -
      exact ⟨(ha.see k true).1, (ha.see k true).2.1, AList.lookup_erase ..⟩

/-- A launch that reports its child dead has left no entry for it. -/
def ReleasesLaunch (r : SpawnResult) (a : Own) : Prop := r.alive = false →
  ∃ t, a.launched.getLast? = some t ∧ (∀ t', r.token = some t' → t' = t) ∧ a.handles.lookup t = none

theorem ReleasesLaunch.same {r : SpawnResult} (h : ReleasesLaunch r a) (hs : a.SameTable a') :
    ReleasesLaunch r a' := by
  intro hr
  obtain ⟨t, hlast, ht, hnone⟩ := h hr
  exact ⟨t, hs.launched ▸ hlast, ht, hs.handles ▸ hnone⟩

theorem Last.releases {r : SpawnResult} (ha : Last t k none a)
    (hr : ∀ t', r.token = some t' → t' = t) :
    ReleasesLaunch r a := by
  intro _
  refine ⟨t, ?_, hr, ha.2.2⟩
  rw [List.getLast?_eq_getElem?, ha.1]
  exact ha.2.1

/-- `spawn_process` with a token that has not been used. -/
theorem always_launchTable {l : Launch} {rounds : ℕ} {persist : ℤ → ℚ → String → UnitProg Unit}
    (hp : ∀ pid started, (persist pid started l.token).Uses LeavesTable) (ha : a.TableSound)
    (ht : l.token ∈ a.tokens ∧ l.token ∉ a.launched) :
    (spawnProcess l rounds persist).Always TableStep (fun o s => Authorizes o s.1)
      (fun r s => ReleasesLaunch r s.1) (fun _ _ => True) (a, m) := by
  have hkeep : ∀ {α β : Type} {p : UnitProg α} {f : α → UnitProg β} {k : ℕ} {h : Option ℕ}
      {s : Reader} {Q : β → Reader → Prop} {E : Exc → Reader → Prop},
      p.Uses LeavesTable → Last l.token k h s.1 → (∀ e s, E e s) →
      (∀ v s, Last l.token k h s.1 → (f v).Always TableStep (fun o s => Authorizes o s.1) Q E s) →
        (p.bind f).Always TableStep (fun o s => Authorizes o s.1) Q E s :=
    fun hp hs hE hf => always_leavingThen hp (fun _ _ => Last.same) hs hf fun e s _ => hE e s
  have hsys : ∀ {s : Sys}, (sys s).Uses LeavesTable := uses_sys leavesTable_minor
  refine always_leavingThen (J := fun s => s.1.TableSound ∧ l.token ∈ s.1.tokens ∧
    l.token ∉ s.1.launched) hsys
    (fun s s' hs _ h => ⟨h.1.same hs, hs.tokens ▸ h.2.1, hs.launched ▸ h.2.2⟩) ⟨ha, ht⟩ ?_
      fun _ _ _ => trivial
  rintro - ⟨a, m⟩ ⟨ha, ht⟩
  refine always_bind.2 (always_table rfl ht ?_ fun _ _ _ _ => trivial)
  rintro ⟨k, pid⟩ a' ⟨pid', hk, rfl⟩
  cases hk
  have hlast : Last l.token a.kids.length
      none { a with kids := a.kids ++ [⟨l.token, pid, false⟩] } := by
    refine ⟨by simp [Own.launched], by simp [Own.launched], ?_⟩
    refine Option.eq_none_iff_forall_ne_some.2 fun k hk =>
      ht.2 (List.mem_of_getElem? (ha.entry _ _ hk))
  refine hkeep hsys hlast (fun _ _ => trivial) fun _ s hs => ?_
  refine hkeep (uses_minor leavesTable_minor rfl) hs (fun _ _ => trivial) fun started s hs => ?_
  have hclose : ∀ (s : Reader),
      (perform (UnitOp.closeSocket a.kids.length) : UnitProg Unit).Always TableStep
      (fun o s => Authorizes o s.1) (fun _ _ => True) (fun _ _ => True) s :=
    fun s => always_perform.2 ⟨trivial, fun _ _ _ => trivial, fun _ _ _ => trivial⟩
  refine always_bind.2 (always_ensure.2
    (always_handle.2 (Always.mono (E := fun _ _ => True) (fun _ _ h => h)
    (fun _ _ h => h) ?_ ?_)))
  · -- the handler only raises
    intro e s _
    refine always_bind.2 (always_any trivial (fun _ s => ?_) fun e s => hclose s)
    refine always_bind.2 (always_attempt.2 ⟨trivial, fun r s _ => ?_⟩)
    split <;> exact hclose s
  refine hkeep hsys hs (fun _ _ => trivial) fun _ s hs => ?_
  refine hkeep (uses_minor leavesTable_minor rfl) hs (fun _ _ => trivial) fun got s hs => ?_
  have hfin : ∀ {h : Option ℕ} {s : Reader} {Q : Unit → Reader → Prop},
      Last l.token a.kids.length h s.1 → (∀ s, Last l.token a.kids.length h s.1 → Q () s) →
      (perform (UnitOp.closeSocket a.kids.length) :
          UnitProg Unit).Always
        TableStep (fun o s => Authorizes o s.1) Q (fun _ _ => True) s :=
    fun hs hQ => (always_leaving (uses_minor leavesTable_minor rfl) (fun _ _ => Last.same) hs).mono
      (fun _ _ h => h) (fun _ s hs => hQ s hs) fun _ _ _ => trivial
  split_ifs
  · exact hfin hs fun s hs => hs.releases nofun
  refine hkeep (hp pid started) hs (fun _ _ => trivial) fun _ s hs => ?_
  refine always_bind.2 (always_table rfl hs.2.1 ?_ fun _ _ _ _ => trivial)
  rintro - a' ⟨-, rfl⟩
  refine hkeep (k := a.kids.length) (h := some a.kids.length) (uses_sendAll leavesTable_minor)
    ⟨hs.1, hs.2.1, AList.lookup_insert _⟩ (fun _ _ => trivial) fun _ s hs => ?_
  refine hfin hs fun s hs =>
    always_bind.2 ((always_probeTable hs).mono (fun _ _ h => h) ?_ fun _ _ _ => trivial)
  rintro alive s' hdead halive
  exact (hdead halive).releases (fun t' ht' => by cases ht'; rfl) halive

/-- A stream around a launch. -/
theorem always_streamTable {path : Option String} {p : UnitProg SpawnResult} {J : Reader → Prop}
    (hJ : ∀ s s', s.1.SameTable s'.1 → s'.2 = s.2 → J s → J s') (hs : J s)
    (hp : ∀ s, J s → p.Always TableStep (fun o s => Authorizes o s.1)
      (fun r s => ReleasesLaunch r s.1) (fun _ _ => True) s) :
    (withStream path p).Always TableStep (fun o s => Authorizes o s.1)
      (fun r s => ReleasesLaunch r s.1) (fun _ _ => True) s := by
  unfold withStream
  split_ifs
  · exact hp s hs
  · refine always_leavingThen (uses_sys leavesTable_minor) hJ hs (fun _ s hs => ?_)
      fun _ _ _ => trivial
    refine always_ensure.2 ((hp s hs).mono (fun _ _ h => h) (fun r s hr => ?_) fun e s _ => ?_)
    · exact always_leaving (uses_sys leavesTable_minor)
        (fun s s' hs _ h => ReleasesLaunch.same h hs) hr |>.mono (fun _ _ h => h) (fun _ _ h => h)
        fun _ _ _ => trivial
    · exact always_any trivial (fun _ _ => trivial) fun _ _ => trivial

/-- `spawn`. -/
theorem always_spawnTable {spec : ProcessSpec} {g : Option ℤ} {rounds : ℕ} (ha : a.TableSound) :
    (spawn spec g rounds).Always TableStep (fun o s => Authorizes o s.1)
      (fun r s => ReleasesLaunch r s.1) (fun _ _ => True) (a, m) := by
  have hsound : ∀ s s' : Reader, s.1.SameTable s'.1 → s'.2 = s.2 →
      s.1.TableSound → s'.1.TableSound :=
    fun _ _ hs _ h => h.same hs
  have hminor := leavesTable_minor
  refine always_leavingThen (uses_ensureUnitDir hminor) hsound ha (fun _ s hs => ?_)
    fun _ _ _ => trivial
  refine always_leavingThen (uses_requireAbsent hminor) hsound hs (fun _ s hs => ?_)
    fun _ _ _ => trivial
  refine always_leavingThen (uses_liftExcept _) hsound hs (fun t s hs => ?_) fun _ _ _ => trivial
  refine always_bind.2 (always_table rfl trivial ?_ fun _ _ _ _ => trivial)
  rintro token a' ⟨token', hnew, htoken, rfl⟩
  cases htoken
  have hfresh : ∀ s s' : Reader, s.1.SameTable s'.1 → s'.2 = s.2 →
      s.1.TableSound ∧ token ∈ s.1.tokens ∧ token ∉ s.1.launched →
        s'.1.TableSound ∧ token ∈ s'.1.tokens ∧ token ∉ s'.1.launched :=
    fun _ _ hs _ h => ⟨h.1.same hs, hs.tokens ▸ h.2.1, hs.launched ▸ h.2.2⟩
  have hnow : Own.TableSound { s.1 with tokens := token :: s.1.tokens } :=
    ⟨hs.entry, fun t ht => List.mem_cons_of_mem _ (hs.issued t ht), hs.distinct⟩
  have huses : (writeIntent (launchIntent spec g token t)).Uses LeavesTable :=
    uses_writeIntent hminor ⟨rfl, rfl⟩ fun _ _ _ => ⟨rfl, rfl⟩
  refine always_leavingThen huses hfresh ⟨hnow, List.mem_cons_self .., fun ht =>
    hnew (hs.issued _ ht)⟩
    (fun _ s hs => ?_) fun _ _ _ => trivial
  refine always_leavingThen (uses_minor hminor rfl) hfresh hs (fun environ s hs => ?_)
    fun _ _ _ => trivial
  refine always_streamTable hfresh hs fun s hs => always_streamTable hfresh hs fun s hs => ?_
  exact always_launchTable (fun _ _ => uses_writeJson hminor fun _ _ => ⟨rfl, rfl⟩) hs.1 hs.2

/-! ## A stop -/

/-- The table holds nothing for the token that was read, or a child with the pid that was
    read, which has not been seen to exit. -/
def Released (s : Reader) : Prop := ∀ d t k, s.2 = some (.doc d) → d.get "token" = .str t →
    s.1.handles.lookup t = some k →
  ∃ kid, s.1.kids[k]? = some kid ∧ (d.get "pid").eqInt kid.pid = true ∧ kid.exited = false

theorem Released.same (hs : s.1.SameTable s'.1) (hm : s'.2 = s.2) (h : Released s) :
    Released s' := by
  intro d t k hd ht hk
  rw [hs.kids]
  exact h d t k (hm ▸ hd) ht (hs.handles ▸ hk)

/-- The exception does not say that the call was interrupted. -/
def Uninterrupted (e : Exc) : Prop := e ≠ .fault .interrupt

/-- Without an entry for the token all is settled. -/
theorem released_erase {d : Dict} (ht : d.get "token" = .str t) :
    Released ({ a with handles := a.handles.erase t }, some (.doc d)) := by
  intro d' t' k hd' ht' hk
  cases hd'
  rw [ht] at ht'
  cases ht'
  rw [show (a.handles.erase t).lookup t = none from AList.lookup_erase ..] at hk
  cases hk

/-- The part of `stop` on the handles. -/
theorem always_signalTable {f : PidFile} {d : Dict} (ha : a.TableSound) (hf : a.pid = some f)
    (hd : f.content = .doc d) :
    (signalOwned (d.get "token") (d.get "pid")).Always TableStep (fun o s => Authorizes o s.1)
      (fun _ => Released) (fun e s => Uninterrupted e → Released s) (a, some (.doc d)) := by
  unfold signalOwned
  split
  swap
  · rename_i hnone
    intro d' t k hd' ht
    cases hd'
    exact absurd ht (hnone t)
  rename_i t ht
  have hpop : ∀ a : Own, ((perform (UnitOp.popHandle t)).bind fun _ =>
      ret false : UnitProg Bool).Always TableStep
      (fun o s => Authorizes o s.1) (fun _ => Released) (fun e s => Uninterrupted e →
          Released s) (a, some (.doc d)) := by
    intro a
    refine always_bind.2 (always_table rfl trivial ?_ ?_)
    · rintro - a' ⟨-, rfl⟩
      exact released_erase ht
    · intro e a' he _ hne
      obtain he | ⟨he, -⟩ := he rfl
      · exact absurd he hne
      · cases he
  refine always_bind.2 (always_table rfl trivial ?_ ?_)
  swap
  · intro e a' he _ hne
    obtain he | ⟨he, -⟩ := he rfl
    · exact absurd he hne
    · cases he
  rintro h a' ⟨hh, rfl⟩
  cases hh
  cases hentry : a'.handle t with
  | none =>
    intro d' t' k hd' ht' hk
    cases hd'
    rw [ht] at ht'
    cases ht'
    obtain ⟨kid, hkid, -⟩ := Option.map_eq_some_iff.1 (List.getElem?_map .. ▸ ha.entry t k hk)
    simp [Own.handle, hk, hkid] at hentry
  | some h =>
    obtain ⟨k, kid⟩ := h
    obtain ⟨k', hk, hkid⟩ := Option.bind_eq_some_iff.1 hentry
    obtain ⟨kid', hkid, hpair⟩ := Option.map_eq_some_iff.1 hkid
    cases hpair
    have htoken : kid.token = t := by
      have := ha.entry t k hk
      rw [Own.launched, List.getElem?_map, hkid] at this
      exact Option.some.inj this
    dsimp only [Option.map_some]
    split_ifs with heq
    swap
    · exact hpop _
    refine always_bind.2 (always_table rfl trivial ?_ ?_)
    swap
    · intro e a' he _ hne
      obtain he | ⟨b, he, -⟩ := he rfl
      · exact absurd he hne
      · cases he
    rintro b a'' ⟨b', hb, -, rfl⟩
    cases hb
    cases b with
    | true => exact hpop _
    | false =>
      have hseen : (a'.see k false).kids[k]? = some { kid with exited := false } := by
        simp [Own.see, List.getElem?_modify_eq, hkid]
      have hreleased : Released (a'.see k false, some (.doc d)) := by
        intro d' t' k' hd' ht' hk'
        cases hd'
        rw [ht] at ht'
        cases ht'
        obtain rfl : k = k' := Option.some.inj (hk.symm.trans hk')
        exact ⟨_, hseen, heq, rfl⟩
      refine always_bind.2 (always_table rfl ?_ ?_ ?_)
      · exact ⟨f, d, _, hf, hd, hseen, htoken ▸ ht, heq, rfl, htoken ▸ hk⟩
      · rintro v a'' hterm
        obtain rfl := UnitOp.acts_quiet rfl hterm
        exact hreleased
      · rintro e a'' - hterm -
        rcases hterm with rfl | ⟨r, hterm⟩
        · exact hreleased
        · obtain rfl := UnitOp.acts_quiet rfl hterm
          exact hreleased

/-- `stop`, before it has read anything. -/
theorem always_stopTable (ha : a.TableSound) :
    stop.Always TableStep (fun o s => Authorizes o s.1)
      (fun _ => Released) (fun e s => Uninterrupted e → Released s) (a, none) := by
  refine always_bind.2 (always_readJson ⟨trivial, ?_⟩)
  rintro r ⟨a', m'⟩ ⟨hstep, -, hread⟩
  obtain rfl : a' = a := hstep.quiet rfl
  refine ⟨?_, fun hnot => ?_⟩
  · rintro d rfl
    obtain rfl : m' = some (.doc d) := hread
    obtain ⟨f, hf, hd⟩ : ∃ f, a'.pid = some f ∧ f.content = .doc d := by
      obtain ⟨-, ⟨-, ⟨-, hr⟩ | ⟨f, hf, hr⟩⟩ | ⟨f, hr, -⟩⟩ := hstep
      · cases hr
      · split_ifs at hr
        exact ⟨f, hf, (Except.ok.inj hr).symm⟩
      · cases hr
    refine always_bind.2 ((always_signalTable ha hf hd).mono (fun _ _ h => h) (fun b s hs => ?_)
      fun _ _ h => h)
    refine always_leavingThen (uses_writeJson leavesTable_minor fun _ _ => ⟨rfl, rfl⟩)
      (fun _ _ hs hm h => h.same hs hm) hs (fun _ s hs => ?_) fun _ _ hs _ => hs
    exact always_leavingThen (uses_liftExcept _) (fun _ _ hs hm h => h.same hs hm) hs
      (fun _ s hs => hs) fun _ _ hs _ => hs
  · -- nothing has been found
    have hreleased : Released (a', m') := by
      intro d t k hd
      cases r with
      | ok c =>
        obtain rfl : m' = some c := hread
        cases hd
        exact absurd rfl (hnot d)
      | error e =>
        obtain rfl | rfl : m' = none ∨ m' = none := hread
        · cases hd
        · cases hd
    exact ⟨fun _ => hreleased, fun _ _ => hreleased⟩

/-! ## A clearance -/

/-- A program under the unit lock. -/
theorem always_lockTable {α : Type} {body : UnitProg α} {J : Reader → Prop} {Q : α → Reader → Prop}
    (hJ : ∀ s s', s.1.SameTable s'.1 → s'.2 = s.2 → J s → J s') (hs : J s)
    (hQ : ∀ v s s', s.1.SameTable s'.1 → s'.2 = s.2 → Q v s → Q v s')
    (hbody : ∀ s, J s → body.Always TableStep (fun o s => Authorizes o s.1) Q (fun _ _ => True) s) :
    (unitLock body).Always TableStep (fun o s => Authorizes o s.1) Q (fun _ _ => True) s := by
  have hfin : ∀ {o : UnitOp} {Q' : Reader → Prop} (s : Reader), o.isMinor = true →
      (∀ s s', s.1.SameTable s'.1 → s'.2 = s.2 → Q' s → Q' s') → Q' s →
        (perform o).Always TableStep (fun o s => Authorizes o s.1) (fun _ => Q')
            (fun _ _ => True) s :=
    fun s ho hQ' hs => (always_leaving (uses_minor leavesTable_minor ho) hQ' hs).mono
      (fun _ _ h => h) (fun _ _ h => h) fun _ _ _ => trivial
  have hunlock : ∀ s, J s →
      (body.ensure (perform UnitOp.funlock)).Always TableStep (fun o s => Authorizes o s.1) Q
      (fun _ _ => True) s := by
    intro s hs
    refine always_ensure.2 ((hbody s hs).mono (fun _ _ h => h) (fun v s hv => ?_) fun e s _ => ?_)
    · exact hfin (o := .funlock) s rfl (hQ v) hv
    · exact hfin (o := .funlock) s rfl (fun _ _ _ _ _ => trivial) trivial
  have hminor := leavesTable_minor
  refine always_leavingThen (uses_ensureUnitDir hminor) hJ hs (fun _ s hs => ?_)
    fun _ _ _ => trivial
  refine always_leavingThen (uses_sys hminor) hJ hs (fun _ s hs => ?_) fun _ _ _ => trivial
  refine always_ensure.2 (Always.mono (E := fun _ _ => True) (Q := Q)
      (fun _ _ h => h) (fun v s hv => ?_) (fun e s _ => ?_) ?_)
  · exact hfin (o := .closeLock) s rfl (hQ v) hv
  · exact hfin (o := .closeLock) s rfl (fun _ _ _ _ _ => trivial) trivial
  · exact always_leavingThen (uses_minor hminor (o := .flock) rfl) hJ hs
      (fun _ s hs => hunlock s hs) fun _ _ _ => trivial

/-- `clear_process_tombstone`. -/
theorem always_clearTable {q : Clearance} :
    (clearProcessTombstone q).Always TableStep (fun o s => Authorizes o s.1)
    (fun _ s => s.1.handles.lookup q.token = none) (fun _ _ => True) s := by
  have hthen : ∀ {α β : Type} {p : UnitProg α} {f : α → UnitProg β} {Q : β → Reader → Prop}
      {s : Reader},
      p.Uses LeavesTable → (∀ v s,
        (f v).Always TableStep (fun o s => Authorizes o s.1) Q (fun _ _ => True) s) →
        (p.bind f).Always TableStep (fun o s => Authorizes o s.1) Q (fun _ _ => True) s :=
    fun hp hf => always_leavingThen (J := fun _ => True) hp (fun _ _ _ _ h => h) trivial
      (fun v s _ => hf v s) fun _ _ _ => trivial
  have hminor := leavesTable_minor
  unfold clearProcessTombstone
  split_ifs
  · exact trivial
  refine always_lockTable (J := fun _ => True) (fun _ _ _ _ h => h) trivial
      (fun _ _ _ hs _ h => hs.handles ▸ h) fun s _ => ?_
  refine hthen (uses_minorAttempt hminor rfl) fun r s => ?_
  cases r with
  | error e =>
    dsimp only
    split_ifs <;> exact trivial
  | ok regular =>
    dsimp only
    split_ifs
    · exact trivial
    refine always_bind.2 (always_readJson
      ⟨trivial, fun r s _ => ⟨fun d _ => ?_, fun _ => ⟨trivial, fun _ => trivial⟩⟩⟩)
    dsimp only
    split_ifs
    · exact trivial
    refine hthen (uses_minor hminor rfl) fun now s => hthen (uses_sys hminor) fun _ s => ?_
    refine hthen (Uses.ensure ((uses_liftExcept _).bind fun _ =>
        Uses.bind (uses_minor hminor rfl) fun _ => uses_sys hminor)
      (uses_sys hminor)) fun _ s => ?_
    refine hthen (uses_perform ⟨rfl, rfl⟩) fun _ s => hthen (uses_sys hminor) fun _ s => ?_
    refine hthen (Uses.ensure (uses_minor hminor rfl) (uses_sys hminor)) fun _ s => ?_
    refine always_table rfl trivial ?_ fun _ _ _ _ => trivial
    rintro - a' ⟨-, rfl⟩
    exact AList.lookup_erase ..

end

/-! ## Every run -/

/-- The calls on a unit, and a new `pid.json`. -/
abbrev HandleCall := UnitCall ⊕ Option PidFile

/-- The fleet, where `pid.json` also becomes anything at once. -/
def edited (unit : String) : Machine UnitOp.Val Exc UnitAnswer UnitWorld HandleCall UnitEnv :=
  (fleet unit).extend (fun f w => { w with pid := f }) .cleared

/-- A launch, a stop or a clearance. -/
def UnitCall.isHandling : UnitCall → Bool
  | .spawn .. | .stop | .clear _ => true
  | _ => false

/-- One supervisor launches, stops and clears, and `pid.json` changes between its calls.
    Its operations in memory fail only if they are interrupted, and a read that fails has
    read nothing. -/
def HandleCalls (c : Cfg UnitOp.Val Exc UnitAnswer UnitWorld HandleCall) :
    Act HandleCall UnitEnv → Prop
  | .start i (.inl k) => if i = 0 then k.isHandling = true else k.isGate = true
  | .start i (.inr _) => i = 0
  | .op i ch => i = 0 → ∀ o, c.next 0 = some o →
      (o.inMemory = true → ch.fault = none ∨ ch.fault = some .interrupt) ∧
        (o = .readPid → ch.late = false)
  | _ => True

/-- What a call has released when it ends. -/
def Releases : HandleCall → Except Exc UnitAnswer → Reader → Prop
  | .inl (.spawn ..), .ok (.spawned r), s => ReleasesLaunch r s.1
  | .inl .stop, .ok _, s => Released s
  | .inl .stop, .error e, s => Uninterrupted e → Released s
  | .inl (.clear q), .ok _, s => s.1.handles.lookup q.token = none
  | _, _, _ => True

def UnitWorld.reader (w : UnitWorld) : Reader := (w.own, (w.mem 0).pidRead)

theorem note_pidRead {o : UnitOp} {r : Except Exc o.Val} {m : Mem} (ho : o ≠ .readPid) :
    (m.note o r).pidRead = m.pidRead := by
  cases o <;> first | exact absurd rfl ho |
    (cases r <;> first | rfl | (rename_i e; cases e <;> rfl))

theorem UnitWorld.tableStep {w w' : UnitWorld} {ch : UnitEnv} {o : UnitOp} {r : Except Exc o.Val}
    (hmem : o.inMemory = true → ch.fault = none ∨ ch.fault = some .interrupt)
    (hlate : o = .readPid → ch.late = false) (h : w.op 0 ch o = some (r, w')) :
    TableStep o w.reader r w'.reader := by
  refine ⟨op_own h, fun ho => ?_, ?_⟩
  · rcases hmem ho with hf | hf
    · rw [op_undisturbed hf] at h
      obtain ⟨⟨r', v⟩, he, hr⟩ := Option.map_eq_some_iff.1 h
      cases hr
      exact .inl (effect_own he)
    · have hfault : faultAt ch o = some (some (.interrupt, ch.late)) := by
        cases o <;> first | (cases ho; done) | simp [faultAt, hf]
      rw [op, hfault] at h
      cases hl : ch.late <;> rw [hl] at h
      · cases h
        exact .inr rfl
      · obtain ⟨⟨r', v⟩, -, hr⟩ := Option.map_eq_some_iff.1 h
        cases hr
        exact .inr rfl
  · by_cases ho : o = .readPid
    · subst ho
      cases hf : ch.fault with
      | none =>
        rw [op_undisturbed hf] at h
        obtain ⟨⟨r', v⟩, he, hr⟩ := Option.map_eq_some_iff.1 h
        cases hr
        cases r' with
        | ok c => simp [UnitOp.reads, reader, record, Mem.note]
        | error e => exact .inr (by simp [reader, record, Mem.note])
      | some f =>
        simp only [op, faultAt, hf, hlate rfl, Option.map_some] at h
        cases h
        exact .inl rfl
    · have hsame : w'.reader.2 = w.reader.2 := by
        obtain ⟨-, hm | ⟨f, -, hm | ⟨r', hm⟩⟩⟩ := (op_view h).1
        · exact (congrArg Mem.pidRead hm).trans (note_pidRead ho)
        · exact congrArg Mem.pidRead hm
        · exact (congrArg Mem.pidRead hm).trans (note_pidRead ho)
      cases o <;> first | exact hsame | exact absurd rfl ho

theorem reader_close_of_ne {w : UnitWorld} {i : ℕ} (hi : i ≠ 0) :
    (w.close i).reader = w.reader := by
  rw [UnitWorld.reader, UnitWorld.close_own_of_ne w hi,
    UnitWorld.close_view 0 (Ne.symm hi), UnitWorld.reader]

/-- A call keeps the table sound, and releases what it must. -/
theorem always_handling {unit : String} {k : UnitCall} {a : Own}
    (hk : k.isHandling = true) (ha : a.TableSound) :
    (k.code unit).Always TableStep (fun o s => Authorizes o s.1)
    (fun v s => Releases (.inl k) (.ok v) s)
    (fun e s => Releases (.inl k) (.error e) s) (a, none) := by
  cases k with
  | spawn spec g rounds => exact always_bind.2 (always_spawnTable ha)
  | stop => exact always_bind.2 (always_stopTable ha)
  | clear q => exact always_bind.2 always_clearTable
  | _ => cases hk

/-- **The calls keep the table sound.** -/
theorem handle_solo (unit : String) :
    Sole (edited unit) HandleCalls 0 UnitWorld.reader TableStep (·.ofGate = true)
    (fun s => s.1.TableSound) (fun o s => Authorizes o s.1) Releases where
  start := by
    intro c k s hp hJ hs
    cases k with
    | inl k =>
      have hown : s.reader = ({ c.sh.own with call := some k }, none) := by
        rw [UnitWorld.reader, UnitWorld.start_own hs, (UnitWorld.start_view hs).1]
      have ha : Own.TableSound { c.sh.own with call := some k } :=
        ⟨hJ.entry, hJ.issued, hJ.distinct⟩
      rw [hown]
      exact (always_handling hp ha).keeping
        (fun o s r s' hJ hg h => Own.TableSound.step hJ hg h.1) ha
    | inr f =>
      cases hs
      exact ⟨⟨hJ.entry, hJ.issued, hJ.distinct⟩, trivial⟩
  op := by
    intro c ch o r s hp hnext h
    obtain ⟨hmem, hlate⟩ := hp rfl o hnext
    exact UnitWorld.tableStep hmem hlate h
  finish := by
    intro k r s hJ
    cases k with
    | inl k =>
      show (s.close 0).own.TableSound
      rw [UnitWorld.close_own]
      exact ⟨hJ.entry, hJ.issued, hJ.distinct⟩
    | inr f => exact hJ
  die := by
    intro s hJ
    show (s.close 0).own.TableSound
    rw [UnitWorld.close_own]
    exact ⟨hJ.entry, hJ.issued, hJ.distinct⟩
  otherStart := by
    intro c i k s hi hp hs
    cases k with
    | inl k =>
      refine ⟨uses_gate ((if_neg hi).mp hp), ?_⟩
      rw [UnitWorld.reader, UnitWorld.start_own_of_ne hi hs,
        (UnitWorld.start_view hs).2 0 (Ne.symm hi), UnitWorld.reader]
    | inr f => exact absurd hp hi
  otherOp := by
    intro i ch o r s s' hi ho h
    rw [UnitWorld.reader, UnitWorld.op_own_of_gate hi ho h,
      (UnitWorld.op_view h).2 0 (Ne.symm hi), UnitWorld.reader]
  otherFinish := by
    intro i k r s hi
    cases k with
    | inl k => exact reader_close_of_ne hi
    | inr f => rfl
  otherDie := fun i s hi => reader_close_of_ne hi

/-- `stop` removes nothing. -/
theorem uses_stopKeeps {unit : String} (k : HandleCall) :
    ((edited unit).code k).Uses fun o => k = .inl .stop → o ≠ .unlinkPid := by
  by_cases hk : k = .inl .stop
  · subst hk
    have hstop : stop.Uses (· ≠ .unlinkPid) :=
      uses_stop (fun o ho => by rintro rfl; cases ho) fun _ => nofun
    have hcode : (UnitCall.stop.code unit).Uses (· ≠ .unlinkPid) := hstop.bind fun _ => trivial
    exact hcode.mono fun _ ho _ => ho
  · exact uses_of_forall (fun o h => absurd h hk) _

theorem OwnStep.pid_isSome {o : UnitOp} {a a' : Own} {r : Except Exc o.Val} (ho : o ≠ .unlinkPid)
    (h : OwnStep o a r a') (ha : a.pid.isSome) : a'.pid.isSome := by
  have hacts : ∀ r a', o.acts a r a' → a'.pid.isSome := by
    intro r a' h
    rcases UnitOp.acts_record h with hp | ⟨hu, -⟩ | ⟨-, hp⟩ | ⟨f, -, hp⟩ | ⟨f, d, hp, -, -⟩
    · rw [hp]
      exact ha
    · exact absurd hu ho
    all_goals rw [hp]; rfl
  obtain ⟨-, h | ⟨f, -, rfl | ⟨r', h⟩⟩⟩ := h
  · exact hacts r a' h
  · exact ha
  · exact hacts r' a' h

/-- **`stop` signals its own live child only**: the child that is terminated is the one
    that was launched with the token in `pid.json`, has the pid in `pid.json` and has not
    been seen to exit.  After a launch that reports its child dead, a stop and a clearance
    the table holds no dead or mismatched child for the token, and `stop` does not remove
    `pid.json`. -/
theorem stop_capability {unit : String} {environ : Env} {proc : ℕ → ℕ} {pid : Option PidFile}
    {state : Option Content} {tokens : List String}
    {c : Cfg UnitOp.Val Exc UnitAnswer UnitWorld HandleCall}
    (h : (edited unit).Reach HandleCalls (idle (.init environ proc pid state tokens)) c) :
    (∀ i k, c.next i = some (.terminate k) → i = 0 ∧ c.sh.own.Names k ∧
      ∀ k' t, c.sh.own.launched[k']? = some t → c.sh.own.launched[k]? = some t → k' = k) ∧
    (∀ k r, c.run 0 = some (k, .ofExcept r) → Releases k r c.sh.reader) ∧
    ∀ p ch c', c.run 0 = some (.inl .stop, p) → (edited unit).step c (.op 0 ch) = some c' →
      c.sh.pid.isSome → c'.sh.pid.isSome := by
  have hinit : (UnitWorld.init environ proc pid state tokens).reader.1.TableSound :=
    ⟨nofun, nofun, List.nodup_nil⟩
  have hfits := (handle_solo unit).inv hinit h
  refine ⟨fun i k hnext => ?_, fun k r hr => ?_, fun p ch c' hr hstep hpid => ?_⟩
  · unfold Cfg.next at hnext
    split at hnext
    swap
    · cases hnext
    rename_i call o f hr
    cases hnext
    refine (ne_or_eq i 0).elim (fun hi => ?_) ?_
    · have hgate := (hfits.others i call _ hi hr).1
      cases hgate
    · rintro rfl
      obtain ⟨-, hnames⟩ := (hfits.left call _ hr).1
      refine ⟨rfl, hnames, fun k' t hk' hk => ?_⟩
      have hlt := (List.getElem?_eq_some_iff.1 hk').1
      exact (List.getElem?_inj hlt hfits.now.distinct).1 (hk'.trans hk.symm)
  · cases r with
    | ok v => exact (hfits.left k _ hr).2
    | error e => exact (hfits.left k _ hr).2
  · obtain ⟨_, _, _, ha, -⟩ | ⟨i, ch', k, o, f, r, s, ha, hrun, hop, rfl⟩ |
        ⟨_, _, _, ha, -⟩ | ⟨_, ha, -⟩ :=
        step_cases hstep <;>
      cases ha
    rw [hr] at hrun
    cases hrun
    have huses := h.uses uses_stopKeeps 0 _ _ hr
    exact OwnStep.pid_isSome (huses.1 rfl) (UnitWorld.op_own hop) hpid

/-- Steps without faults. -/
def calmCalls : Act HandleCall UnitEnv → Bool
  | .start i (.inl k) => if i = 0 then k.isHandling else k.isGate
  | .start i (.inr _) => i = 0
  | .op _ ch => ch.fault.isNone && !ch.late
  | _ => true

theorem calmCalls_spec {c : Cfg UnitOp.Val Exc UnitAnswer UnitWorld HandleCall}
    {a : Act HandleCall UnitEnv} (h : calmCalls a = true) : HandleCalls c a := by
  cases a with
  | start i k =>
    cases k with
    | inl k =>
      show if i = 0 then k.isHandling = true else k.isGate = true
      simp only [calmCalls] at h
      split_ifs at h ⊢ <;> exact h
    | inr f =>
      show i = 0
      exact of_decide_eq_true h
  | op i ch =>
    intro _ o _
    simp only [calmCalls, Bool.and_eq_true, Option.isNone_iff_eq_none, Bool.not_eq_true'] at h
    exact ⟨fun _ => .inl h.1, fun _ => h.2⟩
  | _ => trivial

/-- Thread `i` performs `n` operations. -/
def handleOps (i n : ℕ) (ch : UnitEnv) : List (Act HandleCall UnitEnv) :=
  List.replicate n (.op i ch)

/-- The consumer is launched, and a stop polls its child. -/
def launchThenStop : List (Act HandleCall UnitEnv) :=
  [.start 0 (.inl (.spawn consumer (some 1) 0))] ++ handleOps 0 17 (answers "t") ++
    [.start 2 (.inl (.gate 0 5)), .op 2 (answers "")] ++ handleOps 0 16 (answers "") ++
    [.finish 0, .start 0 (.inl .stop)] ++ handleOps 0 3 (answers "")

def terminatesFirst (c : Cfg UnitOp.Val Exc UnitAnswer UnitWorld HandleCall) : Bool :=
  match c.next 0 with
  | some (.terminate 0) => true
  | _ => false

theorem terminatesFirst_spec {c : Cfg UnitOp.Val Exc UnitAnswer UnitWorld HandleCall}
    (h : terminatesFirst c = true) :
    c.next 0 = some (.terminate 0) := by
  unfold terminatesFirst at h
  split at h
  · assumption
  · cases h

/-- A stop terminates the child that it names. -/
theorem stop_capability_run :
    ∃ c, (edited "u").Reach HandleCalls (idle (.init ∅ (fun _ => 0) none none [])) c ∧
    c.next 0 = some (.terminate 0) ∧ c.sh.own.Names 0 := by
  obtain ⟨c, hc, hq, -⟩ := Reach.exists_of_run (P := HandleCalls) (edited "u")
      (idle (.init ∅ (fun _ => 0) none none []))
    (fun _ a => calmCalls a) launchThenStop terminatesFirst
      (fun _ _ => calmCalls_spec) (by decide +kernel)
  have hnext := terminatesFirst_spec hq
  obtain ⟨hterminate, -, -⟩ := stop_capability hc
  exact ⟨c, hc, hnext, (hterminate 0 0 hnext).2.1⟩

end DatasourceKit

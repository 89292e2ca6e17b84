/-
  One supervisor: the calls of one thread, one after the other, beside the wrappers of
  its launches.

  * `InTurn`: thread 0 makes all the calls, the other threads are wrappers;
  * `Own`: the part of the world that only the supervisor changes; `UnitOp.acts`: what
    an operation does to it and answers; `OwnStep`: with the faults;
  * `fleet_solo`: a specification of every call over `Own` holds in every run.
-/
import DatasourceKit.Fleet.StateFile

namespace DatasourceKit

open Interleave Interleave.Prog Interleave.Machine

/-! ## What only the supervisor changes -/

/-- A child as the supervisor sees it. -/
structure Child where
  token : String
  pid : ℤ
  exited : Bool

def Kid.child (kid : Kid) : Child := ⟨kid.launch.token, kid.pid, kid.exited⟩

/-- The files, the handle table and the children of the supervisor, its running call, and
    the states it has saved, the last one first. -/
structure Own where
  pid : Option PidFile
  ino : ℕ
  state : Option Content
  handles : AList fun _ : String => ℕ
  tokens : List String
  kids : List Child
  call : Option UnitCall
  saves : List (Option UnitCall × Dict)

/-- The state that an operation saves. -/
def Entry.save (e : Entry) : Option (Option UnitCall × Dict) :=
  match e.op with
  | .replaceState d => some (e.call, d)
  | _ => none

def UnitWorld.own (w : UnitWorld) : Own where
  pid := w.pid
  ino := w.ino
  state := w.state
  handles := w.handles (w.proc 0)
  tokens := w.tokens
  kids := w.kids.map Kid.child
  call := (w.mem 0).call
  saves := w.trace.filterMap Entry.save

namespace Own
variable (a : Own)

/-- The child `k` has been polled or waited for. -/
def see (k : ℕ) (exited : Bool) : Own :=
  { a with kids := a.kids.modify k fun kid => { kid with exited := exited } }

/-- The child that the table holds for the token. -/
def handle (token : String) : Option (ℕ × Child) :=
  (a.handles.lookup token).bind fun k => a.kids[k]?.map fun kid => (k, kid)

end Own

/-- What an operation of the supervisor does, and what it answers. -/
def UnitOp.acts : (o : UnitOp) → Own → Except Exc o.Val → Own → Prop
  | .uuid4, a, r, a' => ∃ t, t ∉ a.tokens ∧ r = .ok t ∧ a' = { a with tokens := t :: a.tokens }
  | .lstatPid, a, r, a' => a' = a ∧
      ((a.pid = none ∧ r = .error .notFound) ∨ ∃ f, a.pid = some f ∧
        r = .ok (decide (f.kind = .regular)))
  | .createPid, a, r, a' =>
      (a.pid = none ∧ r = .ok a.ino ∧
        a' = { a with pid := some ⟨a.ino, .regular, .malformed, false⟩, ino := a.ino + 1 }) ∨
      (a.pid.isSome ∧ r = .error .fileExists ∧ a' = a)
  | .writePid n d, a, r, a' => r = .ok () ∧ a' = { a with
      pid := a.pid.map fun f => if f.ino = n then
      { f with content := .doc d, synced := false } else f }
  | .syncPid n, a, r, a' => r = .ok () ∧ a' = { a with
      pid := a.pid.map fun f => if f.ino = n then { f with synced := true } else f }
  | .readPid, a, r, a' => a' = a ∧
      ((a.pid = none ∧ r = .error .notFound) ∨
        ∃ f, a.pid = some f ∧ r = if f.kind = .directory then
        .error .isDirectory else .ok f.content)
  | .replacePid d, a, r, a' =>
      (r = .error .isDirectory ∧ a' = a ∧ ∃ f, a.pid = some f ∧ f.kind = .directory) ∨
      (r = .ok () ∧ (∀ f, a.pid = some f → f.kind ≠ .directory) ∧ ∃ synced,
        a' = { a with pid := some ⟨a.ino, .regular, .doc d, synced⟩, ino := a.ino + 1 })
  | .unlinkPid, a, r, a' => (r.isOk = false ∧ a' = a) ∨ (r = .ok () ∧ a' = { a with pid := none })
  | .readState, a, r, a' => a' = a ∧
      ((a.state = none ∧ r = .error .notFound) ∨ ∃ c, a.state = some c ∧ r = .ok c)
  | .replaceState d, a, r, a' => r = .ok () ∧
      a' = { a with state := some (.doc d), saves := (a.call, d) :: a.saves }
  | .popen l, a, r, a' => ∃ pid, r = .ok (a.kids.length, pid) ∧
      a' = { a with kids := a.kids ++ [⟨l.token, pid, false⟩] }
  | .wait k, a, r, a' => r = .ok () ∧ a' = a.see k true
  | .poll k, a, r, a' => ∃ b, r = .ok b ∧
    (∀ kid, a.kids[k]? = some kid → kid.exited = true → b = true) ∧ a' = a.see k b
  | .getHandle t, a, r, a' => r = .ok ((a.handle t).map fun h => (h.1, h.2.pid)) ∧ a' = a
  | .setHandle t k, a, r, a' => r = .ok () ∧ a' = { a with handles := a.handles.insert t k }
  | .popHandle t, a, r, a' => r = .ok () ∧ a' = { a with handles := a.handles.erase t }
  | .recv .., a, _, a' | .send .., a, _, a' => a' = a
  | .gateWrite .., a, _, a' | .gateRead .., a, _, a' => a' = a
  | _, a, r, a' => (∃ v, r = .ok v) ∧ a' = a

/-- A step of the supervisor: the effect of the operation, or a fault without it or after
    it. -/
def OwnStep (o : UnitOp) (a : Own) (r : Except Exc o.Val) (a' : Own) : Prop :=
  o.answers r ∧ (o.acts a r a' ∨ ∃ f, r = .error (.fault f) ∧ (a' = a ∨ ∃ r', o.acts a r' a'))

namespace UnitWorld
variable {w w' v : UnitWorld} {i k : ℕ} {ch : UnitEnv} {o : UnitOp} {r : Except Exc o.Val}

theorem map_child_modify {l : List Kid} {f : Kid → Kid}
    (hf : ∀ kid : Kid, (f kid).child = kid.child) :
    (l.modify k f).map Kid.child = l.map Kid.child := by
  induction l generalizing k with
  | nil => cases k <;> rfl
  | cons kid l ih => cases k <;> simp [hf, ih]

theorem map_child_see {l : List Kid} {b : Bool} :
    (l.modify k fun kid => { kid with exited := b }).map Kid.child =
      (l.map Kid.child).modify k fun c => { c with exited := b } := by
  induction l generalizing k with
  | nil => cases k <;> rfl
  | cons kid l ih => cases k <;> simp [Kid.child, ih]

theorem own_handle (w : UnitWorld) (t : String) :
    (w.own.handle t).map (fun h => (h.1, h.2.pid)) =
      ((w.handles (w.proc 0)).lookup t).bind fun k => w.kids[k]?.map fun kid => (k, kid.pid) := by
  have hkid : ∀ k : ℕ, (w.own.kids[k]?.map fun kid => (k, kid)).map (fun h => (h.1, h.2.pid)) =
      w.kids[k]?.map fun kid => (k, kid.pid) := by
    intro k
    simp only [own, List.getElem?_map]
    cases w.kids[k]? <;> rfl
  unfold Own.handle
  cases ht : w.own.handles.lookup t <;> rw [show (w.handles (w.proc 0)).lookup t = _ from ht]
  · rfl
  · exact hkid _

theorem own_record (ho : ∀ d, o ≠ .replaceState d) : (w.record 0 o r).own = w.own := by
  have hsave : Entry.save ⟨0, w.id 0, (w.mem 0).call, o, r.isOk⟩ = none := by
    cases o <;> first | rfl | exact absurd rfl (ho _)
  simp only [own, record, Function.update_self, Mem.note_call, List.filterMap_cons, hsave]

theorem own_setKid {f : Kid → Kid} (hf : ∀ kid : Kid, (f kid).child = kid.child) :
    (w.setKid k f).own = w.own := by
  simp only [own, setKid, map_child_modify hf]

/-- What the effect of an operation of the supervisor is on its part of the world. -/
theorem effect_own (h : w.effect 0 ch o = some (r, v)) : o.acts w.own r (v.record 0 o r).own := by
  cases o
  case replaceState d =>
    cases h
    refine ⟨rfl, ?_⟩
    simp only [own, record, Function.update_self, Mem.note_call, List.filterMap_cons, Entry.save]
  all_goals rw [own_record (by simp)]
  all_goals simp only [effect] at h
  case uuid4 =>
    split_ifs at h with ht
    cases h
    exact ⟨_, ht, rfl, rfl⟩
  case lstatPid =>
    split at h <;> cases h
    · exact ⟨rfl, .inl ⟨‹_›, rfl⟩⟩
    · exact ⟨rfl, .inr ⟨_, ‹_›, rfl⟩⟩
  case createPid =>
    split at h <;> cases h
    · exact .inl ⟨‹_›, rfl, rfl⟩
    · exact .inr ⟨by simp [own, *], rfl, rfl⟩
  case writePid => cases h; exact ⟨rfl, rfl⟩
  case syncPid => cases h; exact ⟨rfl, rfl⟩
  case readPid =>
    split at h
    · cases h
      exact ⟨rfl, .inl ⟨‹_›, rfl⟩⟩
    · split_ifs at h with hk <;> cases h
      · exact ⟨rfl, .inr ⟨_, ‹_›, (if_pos hk).symm⟩⟩
      · exact ⟨rfl, .inr ⟨_, ‹_›, (if_neg hk).symm⟩⟩
  case replacePid =>
    split_ifs at h with hk <;> cases h
    · obtain ⟨f, hf, hk⟩ := Option.map_eq_some_iff.1 hk
      exact .inl ⟨rfl, rfl, f, hf, hk⟩
    · refine .inr ⟨rfl, fun f hf hd => hk ?_, w.tmp 0, rfl⟩
      rw [show w.pid = some f from hf, Option.map_some, hd]
  case unlinkPid =>
    split at h
    · cases h; exact .inl ⟨rfl, rfl⟩
    · split_ifs at h <;> cases h
      · exact .inl ⟨rfl, rfl⟩
      · exact .inr ⟨rfl, rfl⟩
  case readState =>
    split at h <;> cases h
    · exact ⟨rfl, .inl ⟨‹_›, rfl⟩⟩
    · exact ⟨rfl, .inr ⟨_, ‹_›, rfl⟩⟩
  case popen l =>
    cases h
    exact ⟨ch.pid, by simp [own], by simp [own, Kid.child]⟩
  case wait k =>
    cases h
    refine ⟨rfl, ?_⟩
    simp only [own, setKid, Own.see, map_child_see]
  case poll k =>
    cases h
    refine ⟨_, rfl, fun kid hk he => ?_, ?_⟩
    · obtain ⟨kid', hk', rfl⟩ := Option.map_eq_some_iff.1 ((List.getElem?_map ..).symm.trans hk)
      simp only [hk', Option.map_some, Option.getD_some, Bool.or_eq_true]
      exact .inr he
    · simp only [own, setKid, Own.see, map_child_see]
  case getHandle t =>
    cases h
    exact ⟨by rw [own_handle], rfl⟩
  case setHandle => cases h; exact ⟨rfl, by simp [own]⟩
  case popHandle => cases h; exact ⟨rfl, by simp [own]⟩
  -- the others change only the channels, the lock and the disk
  all_goals (try split at h) <;> (try split at h) <;> (try split at h) <;> cases h <;>
    first | rfl | exact own_setKid fun _ =>
      rfl | exact ⟨⟨_, rfl⟩, rfl⟩ | exact ⟨⟨_, rfl⟩, own_setKid fun _ => rfl⟩

theorem op_own (h : w.op 0 ch o = some (r, w')) : OwnStep o w.own r w'.own := by
  refine ⟨op_answers h, ?_⟩
  simp only [op] at h
  split at h
  · cases h
  · obtain ⟨⟨r', v⟩, he, hr⟩ := Option.map_eq_some_iff.1 h
    cases hr
    exact .inl (effect_own he)
  · obtain ⟨⟨r', v⟩, he, hr⟩ := Option.map_eq_some_iff.1 h
    cases hr
    exact .inr ⟨_, rfl, .inr ⟨r', effect_own he⟩⟩
  · cases h
    exact .inr ⟨_, rfl, .inl rfl⟩

/-- A wrapper leaves the supervisor's part alone. -/
theorem op_own_of_gate (hi : i ≠ 0) (ho : o.ofGate = true) (h : w.op i ch o = some (r, w')) :
    w'.own = w.own := by
  rcases op_cases h with ⟨rfl, -⟩ | ⟨r', v, he, rfl, -⟩
  · rfl
  have hv : v.own = w.own := by
    cases o <;> simp only [UnitOp.ofGate, Bool.false_eq_true] at ho <;> simp only [effect] at he <;>
      (try split at he) <;> (try split at he) <;> (try split at he) <;> cases he <;>
      first | rfl | exact own_setKid fun _ => rfl
  have hsave : Entry.save ⟨i, v.id i, (v.mem i).call, o, r'.isOk⟩ = none := by
    cases o <;> first | rfl | simp [UnitOp.ofGate] at ho
  rw [← hv]
  simp only [own, record, Function.update_of_ne (Ne.symm hi), List.filterMap_cons, hsave]

theorem start_own {unit : String} {k : UnitCall} (h : w.start unit 0 k = some w') :
    w'.own = { w.own with call := some k } := by
  simp only [start] at h
  split_ifs at h
  cases h
  cases k <;> simp [own, setKid,
    map_child_modify (f := fun kid => { kid with started := true }) fun _ => rfl]

theorem canStart_of_start {unit : String} {k : UnitCall} (h : w.start unit i k = some w') :
    w.canStart unit k = true := by
  simp only [start] at h
  split_ifs at h with hcan
  exact hcan

theorem start_own_of_ne {unit : String} {k : UnitCall} (hi : i ≠ 0)
    (h : w.start unit i k = some w') :
    w'.own = w.own := by
  simp only [start] at h
  split_ifs at h
  cases h
  cases k <;> simp [own, setKid, Function.update_of_ne (Ne.symm hi),
    map_child_modify (f := fun kid => { kid with started := true }) fun _ => rfl]

theorem close_own (w : UnitWorld) : (w.close 0).own = { w.own with call := none } := by
  unfold close
  dsimp only
  split <;> simp only [own, setKid, unlock, Function.update_self] <;> congr 1 <;>
    exact map_child_modify fun _ => rfl

theorem close_own_of_ne (w : UnitWorld) (hi : i ≠ 0) : (w.close i).own = w.own := by
  unfold close
  dsimp only
  split <;> simp only [own, setKid, unlock, Function.update_of_ne (Ne.symm hi)] <;> congr 1 <;>
    exact map_child_modify fun _ => rfl

end UnitWorld

/-! ## Rules -/

/-- The operation changes nothing of the supervisor's part. -/
def UnitOp.isQuiet : UnitOp → Bool
  | .uuid4 | .createPid | .writePid .. | .syncPid _ | .replacePid _ | .unlinkPid |
    .replaceState _ | .popen _
  | .wait _ | .poll _ | .setHandle .. | .popHandle _ => false
  | _ => true

section
variable {o : UnitOp} {a a' : Own} {G : UnitOp → Own → Prop} {E : Exc → Own → Prop} {J : Own → Prop}

theorem UnitOp.acts_quiet (ho : o.isQuiet = true) {r : Except Exc o.Val}
    (h : o.acts a r a') : a' = a := by
  cases o <;> simp only [UnitOp.isQuiet, Bool.false_eq_true] at ho <;>
    simp only [UnitOp.acts] at h <;>
    first | exact h | exact h.1 | exact h.2

/-- What the operations do to the record. -/
theorem UnitOp.acts_record {r : Except Exc o.Val} (h : o.acts a r a') : a'.pid = a.pid ∨
    (o = .unlinkPid ∧ a'.pid = none) ∨
    (o = .createPid ∧ a'.pid = some ⟨a.ino, .regular, .malformed, false⟩) ∨
    (∃ f, a.pid = some f ∧ a'.pid = some { f with synced := true }) ∨
    ∃ f d, a'.pid = some f ∧ f.content = .doc d ∧
    ((∃ n, o = .writePid n d) ∨ o = .replacePid d) := by
  cases o
  case createPid =>
    obtain ⟨-, -, rfl⟩ | ⟨-, -, rfl⟩ := h
    · exact .inr (.inr (.inl ⟨rfl, rfl⟩))
    · exact .inl rfl
  case writePid n d =>
    obtain ⟨-, rfl⟩ := h
    cases hf : a.pid with
    | none => exact .inl rfl
    | some f =>
      by_cases hn : f.ino = n
      · refine .inr (.inr (.inr (.inr ⟨{ f with content := .doc d, synced := false }, d, ?_,
          rfl, .inl ⟨n, rfl⟩⟩)))
        exact congrArg some (if_pos hn)
      · exact .inl (congrArg some (if_neg hn))
  case syncPid n =>
    obtain ⟨-, rfl⟩ := h
    cases hf : a.pid with
    | none => exact .inl rfl
    | some f =>
      by_cases hn : f.ino = n
      · exact .inr (.inr (.inr (.inl ⟨f, rfl, congrArg some (if_pos hn)⟩)))
      · exact .inl (congrArg some (if_neg hn))
  case replacePid d =>
    obtain ⟨-, rfl, -⟩ | ⟨-, -, _, rfl⟩ := h
    · exact .inl rfl
    · exact .inr (.inr (.inr (.inr ⟨_, d, rfl, rfl, .inr rfl⟩)))
  case unlinkPid =>
    obtain ⟨-, rfl⟩ | ⟨-, rfl⟩ := h
    · exact .inl rfl
    · exact .inr (.inl ⟨rfl, rfl⟩)
  case uuid4 => obtain ⟨_, -, -, rfl⟩ := h; exact .inl rfl
  case popen => obtain ⟨_, -, rfl⟩ := h; exact .inl rfl
  case poll => obtain ⟨_, -, -, rfl⟩ := h; exact .inl rfl
  case replaceState | wait | setHandle | popHandle => obtain ⟨-, rfl⟩ := h; exact .inl rfl
  all_goals exact .inl (by rw [UnitOp.acts_quiet rfl h])

theorem OwnStep.quiet (ho : o.isQuiet = true) {r : Except Exc o.Val}
    (h : OwnStep o a r a') : a' = a := by
  obtain ⟨-, h | ⟨f, -, h | ⟨r', h⟩⟩⟩ := h
  · exact UnitOp.acts_quiet ho h
  · exact h
  · exact UnitOp.acts_quiet ho h

theorem always_own {Q : o.Val → Own → Prop} (hg : G o a)
    (hok : ∀ v a', o.acts a (.ok v) a' → Q v a')
    (herr : ∀ e a', (a' = a ∨ ∃ r, o.acts a r a') → E e a') :
    (perform o).Always OwnStep G Q E a := by
  refine always_perform.2 ⟨hg, ?_, ?_⟩
  · rintro v a' ⟨-, h | ⟨f, hf, -⟩⟩
    · exact hok v a' h
    · cases hf
  · rintro e a' ⟨-, h | ⟨f, -, h⟩⟩
    · exact herr e a' (.inr ⟨_, h⟩)
    · exact herr e a' h

/-- An operation whose effect keeps what is required of a failure. -/
theorem always_owned {Q : o.Val → Own → Prop} (hg : G o a) (hJ : J a)
    (hkeep : ∀ r a', o.acts a r a' → J a') (hok : ∀ v a', o.acts a (.ok v) a' → Q v a') :
    (perform o).Always OwnStep G Q (fun _ => J) a := by
  refine always_own hg hok fun e a' h => ?_
  rcases h with rfl | ⟨r, h⟩
  · exact hJ
  · exact hkeep r a' h

theorem always_still {Q : o.Val → Own → Prop} (ho : o.isQuiet = true) (hg : G o a)
    (hok : ∀ v, o.acts a (.ok v) a → Q v a) (hE : ∀ e, E e a) :
    (perform o).Always OwnStep G Q E a := by
  refine always_own hg (fun v a' h => ?_) fun e a' h => ?_
  · obtain rfl := UnitOp.acts_quiet ho h
    exact hok v h
  · rcases h with rfl | ⟨r, h⟩
    · exact hE e
    · exact UnitOp.acts_quiet ho h ▸ hE e

theorem always_attempt_still {Q : Except Exc o.Val → Own → Prop} (ho : o.isQuiet = true)
    (hg : G o a) (hok : ∀ r, o.answers r → o.acts a r a → Q r a)
    (hfault : ∀ f, o.answers (.error (.fault f)) →
        Q (.error (.fault f)) a) :
    (attempt o).Always OwnStep G Q E a := by
  refine always_attempt.2 ⟨hg, ?_⟩
  rintro r a' ⟨ha, h | ⟨f, rfl, rfl | ⟨r', h⟩⟩⟩
  · obtain rfl := UnitOp.acts_quiet ho h
    exact hok r ha h
  · exact hfault f ha
  · exact UnitOp.acts_quiet ho h ▸ hfault f ha

variable (hG : ∀ o a, o.isQuiet = true → G o a)
include hG

theorem always_sysOwn {s : Sys} {Q : Unit → Own → Prop} (hQ : Q () a) (hE : ∀ e, E e a) :
    (sys s).Always OwnStep G Q E a :=
  always_still rfl (hG _ _ rfl) (fun _ _ => hQ) hE

theorem always_ensureDir {Q : Unit → Own → Prop} (hQ : Q () a) (hE : ∀ e, E e a) :
    ensureUnitDir.Always OwnStep G Q E a := by
  refine always_bind.2 (always_sysOwn hG ?_ hE)
  refine always_bind.2 (always_still rfl (hG _ _ rfl) (fun b _ => ?_) hE)
  cases b with
  | true => exact hQ
  | false => exact hE _

omit hG in
/-- `fin` runs after `p`, however `p` ends. -/
theorem always_ensureOwn {α : Type} {p : UnitProg α} {fin : UnitProg Unit} {Q : α → Own → Prop}
    (hfin : ∀ (a : Own) (R : Unit → Own → Prop), J a → R () a →
      fin.Always OwnStep G R (fun _ => J) a)
    (hp : p.Always OwnStep G (fun v a => J a ∧ Q v a) (fun _ => J) a) :
    (p.ensure fin).Always OwnStep G Q (fun _ => J) a := by
  refine always_ensure.2 (hp.mono (fun _ _ h => h) (fun v a h => ?_) fun e a h => ?_)
  · exact hfin a _ h.1 h.2
  · exact hfin a _ h h

theorem always_locked {α : Type} {body : UnitProg α} {Q : α → Own → Prop} (hJ : J a)
    (hbody : body.Always OwnStep G (fun v a => J a ∧ Q v a) (fun _ => J) a) :
    (unitLock body).Always OwnStep G Q (fun _ => J) a := by
  refine always_bind.2 (always_ensureDir hG ?_ fun _ => hJ)
  refine always_bind.2 (always_sysOwn hG ?_ fun _ => hJ)
  refine always_ensureOwn (fun a R hJ hR =>
    always_still rfl (hG _ _ rfl) (fun _ _ => hR) fun _ => hJ) ?_
  refine always_bind.2 (always_still rfl (hG _ _ rfl) (fun _ _ => ?_) fun _ => hJ)
  refine always_ensureOwn (fun a R hJ hR =>
    always_still rfl (hG _ _ rfl) (fun _ _ => hR) fun _ => hJ) ?_
  exact hbody.mono (fun _ _ h => h) (fun _ _ h => ⟨h.1, h.1, h.2⟩) fun _ _ h => h

theorem always_writeJson {replace : Dict → UnitOp} {encoded : Except Exc Dict}
    {Q : Unit → Own → Prop} (hJ : J a)
    (hrep : ∀ d, encoded = .ok d → G (replace d) a ∧ ∀ r a', (replace d).acts a r a' → J a')
    (hQ : ∀ d v a', encoded = .ok d → (replace d).acts a (.ok v) a' → Q () a') :
    (writeJsonAtomic replace encoded).Always OwnStep G Q (fun _ => J) a := by
  refine always_bind.2 (always_sysOwn hG ?_ fun _ => hJ)
  cases henc : encoded with
  | error e => exact hJ
  | ok d =>
    obtain ⟨hg, hkeep⟩ := hrep d henc
    refine always_bind.2 (always_ret.2 (always_bind.2 (always_sysOwn hG ?_ fun _ => hJ)))
    refine always_ensureOwn (fun a R hJ hR => ?_) ?_
    · refine always_bind.2 (always_attempt_still rfl (hG _ _ rfl) (fun r _ _ => ?_) fun f _ => ?_)
      · split
        · exact hR
        · cases r with
          | ok v => exact hR
          | error e => exact hJ
      · exact hJ
    refine always_bind.2 (always_still rfl (hG _ _ rfl) (fun _ _ => ?_) fun _ => hJ)
    refine always_bind.2 (always_still rfl (hG _ _ rfl) (fun _ _ => ?_) fun _ => hJ)
    refine always_bind.2 (always_owned hg hJ hkeep fun v a' h => ?_)
    have hJ' := hkeep _ _ h
    refine always_bind.2 (always_sysOwn hG ?_ fun _ => hJ')
    refine always_ensureOwn (fun a R hJ hR => always_sysOwn hG hR fun _ => hJ) ?_
    exact always_still rfl (hG _ _ rfl) (fun _ _ => ⟨hJ', hJ', hQ d v a' henc h⟩) fun _ => hJ'

theorem always_loadOwn {unit : String} {Q : Dict → Own → Prop} (hQ : Q (stateOf unit a.state) a)
    (hE : ∀ e, E e a) : (loadState unit).Always OwnStep G Q E a := by
  refine always_bind.2 (always_bind.2
    (always_attempt_still rfl (hG _ _ rfl) (fun r _ h => ?_) fun f hf => ?_))
  · obtain ⟨-, ⟨hs, rfl⟩ | ⟨c, hs, rfl⟩⟩ := h <;> rw [hs] at hQ
    · exact hQ
    · cases c <;> first | exact hQ | exact hE _
  · obtain hf | ⟨f', hf, hne⟩ := hf <;> cases hf
    cases f <;> first | exact hE _ | exact absurd rfl hne

/-- The unit is seen as stopped only if it has no `pid.json`. -/
theorem always_observe {Q : String → Own → Prop} (hQ : ∀ s, (s = "stopped" → a.pid = none) → Q s a)
    (hE : ∀ e, E e a) : observeActual.Always OwnStep G Q E a := by
  refine always_bind.2 (always_attempt_still rfl (hG _ _ rfl) (fun r _ h => ?_) fun f _ => ?_)
  · obtain ⟨-, ⟨hp, rfl⟩ | ⟨f, hp, rfl⟩⟩ := h
    · exact hQ _ fun _ => hp
    · exact hQ _ fun h => absurd h (by decide)
  · dsimp only
    split_ifs
    · exact hQ _ fun h => absurd h (by decide)
    · exact hE _

end

/-! ## One call -/

/-- An answer of an environment in which the unit directory is a real one. -/
def UnitOp.Steady : (o : UnitOp) → Except Exc o.Val → Prop
  | .lstatDir, .ok b => b = true
  | _, _ => True

/-- A step of the supervisor without a fault. -/
def CalmStep (o : UnitOp) (a : Own) (r : Except Exc o.Val) (a' : Own) : Prop :=
  o.acts a r a' ∧ o.Steady r

namespace UnitWorld

/-- Thread 0 performs an operation without a fault. -/
def Undisturbed (o : UnitOp) (w : UnitWorld) (r : Except Exc o.Val) (w' : UnitWorld) : Prop :=
  ∃ ch : UnitEnv, ch.fault = none ∧ ch.isDir = true ∧ w.op 0 ch o = some (r, w')

variable {w w' : UnitWorld} {o : UnitOp} {r : Except Exc o.Val}

theorem op_undisturbed {ch : UnitEnv} (hch : ch.fault = none) :
    w.op 0 ch o = (w.effect 0 ch o).map fun r => (r.1, r.2.record 0 o r.1) := by
  have hf : faultAt ch o = some none := by
    cases o <;> simp [faultAt, hch]
  simp only [op, hf]

theorem Undisturbed.calm (h : Undisturbed o w r w') : CalmStep o w.own r w'.own := by
  obtain ⟨ch, hch, hdir, h⟩ := h
  rw [op_undisturbed hch] at h
  obtain ⟨⟨r', v⟩, he, hr⟩ := Option.map_eq_some_iff.1 h
  cases hr
  refine ⟨effect_own he, ?_⟩
  cases o <;> first
    | exact trivial
    | (cases he; exact hdir)

/-- A specification over the supervisor's part of the world holds of an undisturbed call. -/
theorem always_undisturbed {α : Type} {p : UnitProg α} {G : UnitOp → Own → Prop}
    {Q : α → Own → Prop} {E : Exc → Own → Prop} (h : p.Always CalmStep G Q E w.own) :
    p.Always Undisturbed (fun o w => G o w.own) (fun v w => Q v w.own) (fun e w => E e w.own) w :=
  h.of_view fun _ _ _ _ hs => hs.calm

end UnitWorld

/-! ## Every run -/

def UnitCall.isGate : UnitCall → Bool
  | .gate .. => true
  | _ => false

/-- Thread 0 makes the calls, the others are wrappers. -/
def InTurn (_ : UnitCfg) : UnitAct → Prop
  | .start i k => i = 0 ↔ k.isGate = false
  | _ => True

theorem uses_gate {unit : String} {k : UnitCall} (hk : k.isGate = true) :
    (k.code unit).Uses (·.ofGate = true) := by
  cases k <;> first
    | exact uses_execGate.bind fun _ => trivial
    | cases hk

/-- **A specification of every call over the supervisor's part of the world holds in
    every run.** -/
theorem fleet_solo {unit : String} {P : UnitCfg → UnitAct → Prop} {J : Own → Prop}
    {G : UnitOp → Own → Prop} {fin : UnitCall → Except Exc UnitAnswer → Own → Prop}
    (hP : ∀ c a, P c a → InTurn c a)
    (hstart : ∀ c k, P c (.start 0 k) → c.sh.canStart unit k = true → J c.sh.own →
        (k.code unit).Always OwnStep (fun o a => J a ∧ G o a)
      (fun v a => J a ∧ fin k (.ok v) a) (fun e a => J a ∧ fin k (.error e) a)
      { c.sh.own with call := some k })
    (hclose : ∀ a, J a → J { a with call := none }) :
    Sole (fleet unit) P 0 UnitWorld.own OwnStep (·.ofGate = true) J G fin where
  start := by
    intro c k s hp hJ hs
    rw [UnitWorld.start_own hs]
    exact hstart c k hp (UnitWorld.canStart_of_start hs) hJ
  op := fun _ _ _ _ _ _ _ h => UnitWorld.op_own h
  finish := by
    intro k r s hJ
    exact (UnitWorld.close_own s).symm ▸ hclose _ hJ
  die := by
    intro s hJ
    exact (UnitWorld.close_own s).symm ▸ hclose _ hJ
  otherStart := by
    intro c i k s hi hp hs
    have hk : k.isGate = true := Bool.not_eq_false _ ▸ fun h => hi ((hP _ _ hp).2 h)
    exact ⟨uses_gate hk, UnitWorld.start_own_of_ne hi hs⟩
  otherOp := fun _ _ _ _ _ _ hi ho h => UnitWorld.op_own_of_gate hi ho h
  otherFinish := fun _ _ _ s hi => UnitWorld.close_own_of_ne s hi
  otherDie := fun _ s hi => UnitWorld.close_own_of_ne s hi

end DatasourceKit

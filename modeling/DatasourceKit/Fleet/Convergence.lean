/-
  Passes over a unit come to rest.

  * `honorDesiredState`: the default policy; `PassStep`: a step of a pass that meets no
    fault;
  * `AtRest`: a state in which a pass finds nothing to change, with what the pass reports
    there, and no handle that a further pass could use;
  * `always_firstPass`: a pass launches, or it leaves the unit at rest; `always_restingPass`:
    a pass over a unit at rest leaves it so, wherever it is cut;
  * `passes_converge`: of any series of passes at most the first one launches, and all after
    the second one leave the state as it is and report the same.
-/
import DatasourceKit.Fleet.Ownership
import DatasourceKit.Interleave.Commit

namespace DatasourceKit

open Interleave Interleave.Prog

/-! ## The policy, and states -/

/-- `honor_desired_state`. -/
def honorDesiredState (state : Dict) : Except Exc Bool :=
  .ok ((state.get "desired").eqStr "enabled" || (state.get "desired").eqStr "paused")

/-- The same keys with the same values, in whatever order. -/
def SameState (d d' : Dict) : Prop := ∀ k, d.lookup k = d'.lookup k

theorem SameState.get {d d' : Dict} (h : SameState d d') (k : String) : d.get k = d'.get k := by
  rw [Dict.get, Dict.get, h k]

theorem SameState.trans {d d' d'' : Dict} (h : SameState d d') (h' : SameState d' d'') :
    SameState d d'' :=
  fun k => (h k).trans (h' k)

theorem SameState.symm {d d' : Dict} (h : SameState d d') : SameState d' d := fun k => (h k).symm

/-- An assignment of the value that is there. -/
theorem SameState.set {d d' : Dict} (h : SameState d d') {k : String} {v : Json}
    (hv : d'.lookup k = some v) :
    SameState (d.set k v) d' := by
  intro key
  by_cases hk : key = k
  · rw [hk, Dict.lookup_set_self, hv]
  · rw [Dict.lookup_set_ne _ _ hk, h key]

/-- The state names the unit, and has a value for all keys that a load fills in. -/
structure Filled (unit : String) (d : Dict) : Prop where
  unit : d.lookup "unit" = some (.str unit)
  core : ∀ k ∈ coreStateKeys, k ∈ d

/-- A load of a filled state changes nothing. -/
theorem SameState.load {unit : String} {d d' : Dict} (h : SameState d d') (hd : Filled unit d') :
    SameState (stateOf unit (some (.doc d))) d' := by
  intro k
  rw [show stateOf unit (some (.doc d)) = backfill unit (some d) from rfl, lookup_backfill]
  split_ifs with hk
  · rw [hk, hd.unit]
  · rw [h k]
    cases hl : d'.lookup k with
    | some v => rfl
    | none =>
      refine Option.not_isSome_iff_eq_none.1 fun hsome => ?_
      have hmem : k ∈ coreStateKeys := by
        have := isSome_lookup_update.1 hsome
        simpa [coreStateKeys] using this
      exact AList.lookup_eq_none.1 hl (hd.core k hmem)

/-! ## Steps -/

/-- A step of a pass: no fault, a real unit directory, and no exception of the package. -/
def PassStep (o : UnitOp) (a : Own) (r : Except Exc o.Val) (a' : Own) : Prop :=
  o.acts a r a' ∧ o.answers r ∧ o.Steady r

/-- The supervisor performs an operation without a fault, after whatever the wrappers have done. -/
def UnitWorld.Beside (o : UnitOp) (w : UnitWorld) (r : Except Exc o.Val) (w' : UnitWorld) : Prop :=
  ∃ v : UnitWorld, v.own = w.own ∧ v.Undisturbed o r w'

theorem UnitWorld.Beside.pass {o : UnitOp} {w w' : UnitWorld} {r : Except Exc o.Val}
    (h : w.Beside o r w') :
    PassStep o w.own r w'.own := by
  obtain ⟨v, hv, h⟩ := h
  obtain ⟨hacts, hsteady⟩ := h.calm
  obtain ⟨ch, -, -, hop⟩ := h
  exact ⟨hv ▸ hacts, op_answers hop, hsteady⟩

/-- The state is saved. -/
def Own.saved (a : Own) (d : Dict) : Own :=
  { a with state := some (.doc d), saves := (a.call, d) :: a.saves }

/-- The operation always answers, and changes nothing of the supervisor's part. -/
def UnitOp.isSure : UnitOp → Bool
  | .sys _ | .time | .environ | .lstatDir | .flock | .funlock | .closeLock |
    .writeTmp | .syncTmp | .syncDir
  | .appendAudit _ | .terminate _ | .closeSocket _ => true
  | _ => false

section
variable {α : Type} {o : UnitOp} {a a' : Own} {J : Own → Prop} {E : Exc → Own → Prop}

theorem pass_sure {Q : o.Val → Own → Prop} (ho : o.isSure = true) (hJ : J a)
    (hQ : ∀ v, o.Steady (.ok v) → Q v a) :
    (perform o).Always PassStep (fun _ => J) Q E a := by
  have hacts : ∀ {r a'}, PassStep o a r a' → (∃ v, r = .ok v) ∧ a' = a := by
    rintro r a' ⟨h, -⟩
    cases o <;> first | exact h | cases ho
  refine always_perform.2 ⟨hJ, fun v a' h => ?_, fun e a' h => ?_⟩
  · obtain ⟨-, rfl⟩ := hacts h
    exact hQ v h.2.2
  · obtain ⟨⟨v, hv⟩, -⟩ := hacts h
    cases hv

theorem pass_lift {x : Except Exc α} {Q : α → Own → Prop} (hQ : ∀ v, x = .ok v → Q v a)
    (hE : ∀ e, x = .error e → E e a) : (liftExcept x).Always PassStep (fun _ => J) Q E a := by
  cases x with
  | ok v => exact hQ v rfl
  | error e => exact hE e rfl

theorem pass_sys {s : Sys} {Q : Unit → Own → Prop} (hJ : J a) (hQ : Q () a) :
    (sys s).Always PassStep (fun _ => J) Q E a :=
  pass_sure rfl hJ fun _ _ => hQ

theorem pass_ensureUnitDir {Q : Unit → Own → Prop} (hJ : J a) (hQ : Q () a) :
    ensureUnitDir.Always PassStep (fun _ => J) Q E a := by
  refine always_bind.2 (pass_sys hJ ?_)
  refine always_bind.2 (pass_sure rfl hJ fun b hb => ?_)
  obtain rfl : b = true := hb
  exact hQ

theorem pass_observe {Q : String → Own → Prop} (hJ : J a)
    (hQ : Q (if a.pid.isNone then "stopped" else "running") a) :
    observeActual.Always PassStep (fun _ => J) Q E a := by
  refine always_bind.2 (always_attempt.2 ⟨hJ, ?_⟩)
  rintro r a' ⟨⟨rfl, ⟨hp, rfl⟩ | ⟨f, hp, rfl⟩⟩, -⟩
  · rw [hp] at hQ
    exact hQ
  · rw [hp] at hQ
    exact hQ

theorem pass_load {unit : String} {Q : Dict → Own → Prop} (hJ : J a)
    (hQ : Q (stateOf unit a.state) a) (hE : ∀ e, E e a) :
    (loadState unit).Always PassStep (fun _ => J) Q E a := by
  refine always_bind.2 (always_bind.2 ((always_attempt (G := fun _ => J)).2 ⟨hJ, ?_⟩))
  rintro r a' ⟨⟨rfl, ⟨hs, rfl⟩ | ⟨c, hs, rfl⟩⟩, -⟩
  · rw [hs] at hQ
    exact hQ
  · rw [hs] at hQ
    cases c with
    | undecodable => exact hE _
    | overlong => exact hE _
    | doc d => exact hQ
    | value v => exact hQ
    | malformed => exact hQ

theorem pass_unitLock {body : UnitProg α} {Q : α → Own → Prop} (hJ : J a)
    (hbody : body.Always PassStep (fun _ => J) (fun v a => J a ∧ Q v a)
      (fun e a => J a ∧ E e a) a) :
    (unitLock body).Always PassStep (fun _ => J) Q E a := by
  refine always_bind.2 (pass_ensureUnitDir hJ (always_bind.2 (pass_sys hJ (always_ensure.2 ?_))))
  refine always_bind.2 (pass_sure rfl hJ fun _ _ => always_ensure.2 ?_)
  refine hbody.mono (fun _ _ h => h) (fun v a h => ?_) fun e a h => ?_
  · exact pass_sure rfl h.1 fun _ _ => pass_sure rfl h.1 fun _ _ => h.2
  · exact pass_sure rfl h.1 fun _ _ => pass_sure rfl h.1 fun _ _ => h.2

theorem pass_write {replace : Dict → UnitOp} {encoded : Except Exc Dict} {Q : Unit → Own → Prop}
    (hJ : J a) (hok : ∀ d v a', encoded = .ok d → (replace d).acts a (.ok v) a' → J a' ∧ Q () a')
    (herr : ∀ d e a', encoded = .ok d → (replace d).acts a (.error e) a' → J a' ∧ E e a')
    (hE : ∀ e, encoded = .error e → E e a) :
    (writeJsonAtomic replace encoded).Always PassStep (fun _ => J) Q E a := by
  refine always_bind.2 (pass_sys hJ ?_)
  cases henc : encoded with
  | error e => exact hE e henc
  | ok d =>
    have hunlink : ∀ (k : Except Exc Unit → UnitProg Unit) (a : Own) (R : Unit → Own → Prop),
        (∀ v, k (.ok v) = ret v) → J a → R () a →
        ((attempt (UnitOp.sys .unlinkTmp)).bind k).Always PassStep (fun _ => J) R E a := by
      intro k a R hk hJ hR
      refine always_bind.2 (always_attempt.2 ⟨hJ, ?_⟩)
      rintro r a' ⟨⟨⟨v, rfl⟩, rfl⟩, -⟩
      rw [hk]
      exact hR
    refine always_bind.2 (always_ret.2 (always_bind.2 (pass_sys hJ (always_ensure.2 ?_))))
    refine always_bind.2 (pass_sure rfl hJ fun _ _ =>
      always_bind.2 (pass_sure rfl hJ fun _ _ => ?_))
    refine always_bind.2 (always_perform.2 ⟨hJ, ?_, ?_⟩)
    · rintro v a' ⟨hacts, -⟩
      obtain ⟨hJ', hQ⟩ := hok d v a' henc hacts
      refine always_bind.2 (pass_sys hJ' (always_ensure.2 (pass_sure rfl hJ' fun _ _ => ?_)))
      exact pass_sys hJ' (hunlink _ _ _ (fun _ => rfl) hJ' hQ)
    · rintro e a' ⟨hacts, -⟩
      obtain ⟨hJ', hE⟩ := herr d e a' henc hacts
      exact hunlink _ _ _ (fun _ => rfl) hJ' hE

/-- A save of the state. -/
theorem pass_save {d : Dict} (hJ : J a) (hsaved : J (a.saved d)) (hE : ∀ e, E e a) :
    (saveState (dumps d)).Always PassStep (fun _ => J) (fun _ a' => a' = a.saved d) E a := by
  refine pass_write hJ (fun d' v a' hd h => ?_) (fun d' e a' _ h => ?_) fun e _ => hE e
  · obtain rfl := dumps_ok hd
    exact ⟨h.2 ▸ hsaved, h.2⟩
  · cases h.1

end

/-! ## A stop -/

/-- The supervisor has no handle for the child that `pid.json` names. -/
def Handless (a : Own) : Prop := ∀ f d t, a.pid = some f → f.kind ≠ .directory →
    f.content = .doc d → d.get "token" = .str t → a.handle t = none

/-- What a stop keeps. -/
structure KeptByStop (a a' : Own) : Prop where
  state : a'.state = a.state
  pid : a'.pid.isSome = a.pid.isSome
  kids : a'.kids.length = a.kids.length
  handless : Handless a → Handless a'

theorem KeptByStop.refl (a : Own) : KeptByStop a a := ⟨rfl, rfl, rfl, id⟩

theorem KeptByStop.trans {a a' a'' : Own} (h : KeptByStop a a') (h' : KeptByStop a' a'') :
    KeptByStop a a'' :=
  ⟨h'.state.trans h.state, h'.pid.trans h.pid, h'.kids.trans h.kids, h'.handless ∘ h.handless⟩

section
variable {a : Own} {t : String}

theorem handle_see (k : ℕ) (b : Bool) : (a.see k b).handle t = none ↔ a.handle t = none := by
  simp only [Own.handle, Own.see, Option.bind_eq_none_iff, Option.map_eq_none_iff,
    List.getElem?_modify, Option.map_eq_map]

theorem handle_pop {t' : String} (h : a.handle t = none ∨ t = t') :
    ({ a with handles := a.handles.erase t' } : Own).handle t = none := by
  by_cases ht : t = t'
  · subst ht
    simp [Own.handle]
  · have hlookup : (a.handles.erase t').lookup t = a.handles.lookup t := AList.lookup_erase_ne ht
    show ((a.handles.erase t').lookup t).bind _ = none
    rw [hlookup]
    exact h.resolve_right ht

theorem KeptByStop.see (k : ℕ) (b : Bool) : KeptByStop a (a.see k b) where
  state := rfl
  pid := rfl
  kids := List.length_modify ..
  handless := fun h f d t hf hk hd ht => (handle_see k b).2 (h f d t hf hk hd ht)

theorem KeptByStop.pop (t : String) : KeptByStop a { a with handles := a.handles.erase t } where
  state := rfl
  pid := rfl
  kids := rfl
  handless := fun h f d _ hf hk hd ht => handle_pop (.inl (h f d _ hf hk hd ht))

/-- The part of a stop on the handles: it signals a child, or there is none that could be
    signalled afterwards. -/
theorem pass_signalOwned {token pid : Json} :
    (signalOwned token pid).Always PassStep (fun _ a' => KeptByStop a a')
      (fun b a' => KeptByStop a a' ∧ a'.pid = a.pid ∧
        (b = true ∨ ∀ t, token = .str t → a'.handle t = none) ∧
        ((∀ t, token = .str t → a.handle t = none) → b = false)) (fun _ _ => False) a := by
  unfold signalOwned
  split
  swap
  · rename_i hnone
    exact ⟨.refl a, rfl, .inr fun t ht => absurd ht (hnone t), fun _ => rfl⟩
  rename_i t
  have hpop : ∀ {a₁ : Own}, KeptByStop a a₁ → a₁.pid = a.pid →
      ((perform (UnitOp.popHandle t)).bind fun _ => ret false : UnitProg Bool).Always PassStep
        (fun _ a' => KeptByStop a a')
        (fun b a' => KeptByStop a a' ∧ a'.pid = a.pid ∧
          (b = true ∨ ∀ t', Json.str t = .str t' → a'.handle t' = none) ∧
          ((∀ t', Json.str t = .str t' → a.handle t' = none) → b = false))
        (fun _ _ => False) a₁ := by
    intro a₁ hkept hpid
    refine always_bind.2 (always_perform.2 ⟨hkept, ?_, ?_⟩)
    · rintro v a' ⟨⟨-, rfl⟩, -⟩
      refine ⟨hkept.trans (.pop t), hpid, .inr ?_, fun _ => rfl⟩
      rintro t' ⟨⟩
      exact handle_pop (.inr rfl)
    · rintro e a' ⟨⟨he, -⟩, -⟩
      cases he
  refine always_bind.2 (always_perform.2 ⟨.refl a, ?_, ?_⟩)
  swap
  · rintro e a' ⟨⟨he, -⟩, -⟩
    cases he
  rintro h a' ⟨⟨hh, rfl⟩, -⟩
  cases hh
  cases hentry : a'.handle t with
  | none =>
    refine ⟨.refl a', rfl, .inr ?_, fun _ => rfl⟩
    rintro t' ⟨⟩
    exact hentry
  | some h =>
    obtain ⟨k, kid⟩ := h
    dsimp only [Option.map_some]
    split_ifs with heq
    swap
    · exact hpop (.refl a') rfl
    refine always_bind.2 (always_perform.2 ⟨.refl a', ?_, ?_⟩)
    swap
    · rintro e a'' ⟨⟨b, he, -⟩, -⟩
      cases he
    rintro b a'' ⟨⟨b', hb, -, rfl⟩, -⟩
    cases hb
    cases b with
    | true => exact hpop (.see k true) rfl
    | false =>
      refine always_bind.2 (pass_sure rfl (.see k false) fun _ _ =>
        ⟨.see k false, rfl, .inl rfl, fun hnone => ?_⟩)
      cases hentry.symm.trans (hnone t rfl)

/-- The record that a stop leaves names the same child. -/
theorem handless_stopped {d : Dict} {f' : PidFile} (hf' : a.pid = some f')
    (hd' : f'.content = .doc (stoppedRecord d))
    (h : ∀ t, d.get "token" = .str t → a.handle t = none) : Handless a := by
  rintro g e t hg - he ht
  cases hf'.symm.trans hg
  cases hd'.symm.trans he
  refine h t (ht ▸ ?_)
  simp [stoppedRecord, Dict.update, Dict.get_set_ne]

theorem pyInt_ne_tombstone {v : Json} {msg : String} : pyInt v ≠ .error (.tombstone msg) := by
  intro h
  rcases pyInt_error_cases h with h | h <;> cases h

/-- **A stop** signals a child, or there is none that a further stop would signal. -/
theorem pass_stop : stop.Always PassStep (fun _ a' => KeptByStop a a')
    (fun r a' => KeptByStop a a' ∧ (r.signalled = true ∨ Handless a') ∧
      (Handless a → r.signalled = false))
    (fun e a' => KeptByStop a a' ∧ ((∃ msg, e = .tombstone msg) → Handless a')) a := by
  -- the record can be read
  have hdata : ∀ d f, a.pid = some f → f.kind ≠ .directory → f.content = .doc d →
      ((signalOwned (d.get "token") (d.get "pid")).bind fun signalled => do
        writeJsonAtomic .replacePid (dumps (stoppedRecord d))
        return ⟨← liftExcept (pyInt (d.get "pid").orZero), signalled, false, false⟩ :
        UnitProg StopResult).Always PassStep
        (fun _ a' => KeptByStop a a')
        (fun r a' => KeptByStop a a' ∧ (r.signalled = true ∨ Handless a') ∧
          (Handless a → r.signalled = false))
        (fun e a' => KeptByStop a a' ∧ ((∃ msg, e = .tombstone msg) → Handless a')) a := by
    intro d f hf hk hd
    refine always_bind.2 (pass_signalOwned.mono (fun _ _ h => h) ?_ fun _ _ h => h.elim)
    rintro signalled a₁ ⟨hkept, hpid, hsignal, hquiet⟩
    have hwrite : (writeJsonAtomic .replacePid (dumps (stoppedRecord d))).Always PassStep
        (fun _ a' => KeptByStop a a') (fun _ a' =>
          KeptByStop a a' ∧ (signalled = true ∨ Handless a'))
        (fun e a' => KeptByStop a a' ∧ ∀ msg, e ≠ .tombstone msg) a₁ := by
      refine pass_write hkept ?_ ?_ ?_
      · rintro d' v a₂ hdump (⟨hv, -⟩ | ⟨-, -, synced, rfl⟩)
        · cases hv
        obtain rfl := dumps_ok hdump
        have hkept₂ : KeptByStop a₁ { a₁ with
            pid := some ⟨a₁.ino, .regular, .doc (stoppedRecord d), synced⟩, ino := a₁.ino + 1 } :=
          ⟨rfl, by rw [hpid, hf]; rfl, rfl, fun hless =>
            handless_stopped rfl rfl fun t ht => hless f d t (hpid.trans hf) hk hd ht⟩
        exact ⟨hkept.trans hkept₂, hkept.trans hkept₂, hsignal.imp_right fun hless =>
          handless_stopped rfl rfl hless⟩
      · rintro d' e a₂ - (⟨he, rfl, -⟩ | ⟨he, -⟩)
        · cases he
          exact ⟨hkept, hkept, nofun⟩
        · cases he
      · intro e he
        refine ⟨hkept, ?_⟩
        rintro msg rfl
        unfold dumps at he
        split_ifs at he
        cases he
    refine always_bind.2 (hwrite.mono (fun _ _ h => h) ?_ fun e a' h =>
      ⟨h.1, fun ⟨msg, hmsg⟩ => absurd hmsg (h.2 msg)⟩)
    rintro _ a₂ ⟨hkept₂, hsignal₂⟩
    refine always_bind.2 (pass_lift (fun v _ =>
      ⟨hkept₂, hsignal₂, fun hless => hquiet fun t ht => hless f d t hf hk hd ht⟩)
      fun e he => ⟨hkept₂, ?_⟩)
    rintro ⟨msg, rfl⟩
    exact absurd he pyInt_ne_tombstone
  refine always_bind.2 (always_bind.2
    ((always_attempt (G := fun _ a' => KeptByStop a a')).2 ⟨.refl a, ?_⟩))
  rintro r a' ⟨⟨rfl, ⟨hp, rfl⟩ | ⟨f, hf, rfl⟩⟩, -⟩
  · exact ⟨.refl a', fun _ f d t hf => nomatch hp.symm.trans hf⟩
  have hnone : (f.kind = .directory ∨ ∀ d, f.content ≠ .doc d) → Handless a' := by
    intro h g d t hg hk hd
    cases hf.symm.trans hg
    exact h.elim (fun h => absurd h hk) fun h => absurd hd (h d)
  split_ifs with hk
  · exact ⟨.refl a', fun _ => hnone (.inl hk)⟩
  cases hc : f.content with
  | doc d => exact hdata d f hf hk hc
  | undecodable => exact ⟨.refl a', fun ⟨_, h⟩ => nomatch h⟩
  | overlong => exact ⟨.refl a', fun ⟨_, h⟩ => nomatch h⟩
  | value v => exact ⟨.refl a', fun _ => hnone (.inr fun d hd => nomatch hc.symm.trans hd)⟩
  | malformed => exact ⟨.refl a', fun _ => hnone (.inr fun d hd => nomatch hc.symm.trans hd)⟩

end

/-! ## A launch -/

/-- There is a record, and `n` children have been launched. -/
def Launched (n : ℕ) (a : Own) : Prop := a.pid.isSome = true ∧ a.kids.length = n

/-- The operation launches no child, and removes no record. -/
def UnitOp.keepsLaunch : UnitOp → Bool
  | .popen _ | .unlinkPid => false
  | _ => true

/-- The package has raised the exception elsewhere. -/
def Other (e : Exc) : Prop := ∀ msg, e ≠ .tombstone msg

section
variable {α : Type} {a a' : Own} {n : ℕ} {o : UnitOp}

theorem Launched.acts (h : Launched n a) (ho : o.keepsLaunch = true) {r : Except Exc o.Val}
    (hacts : o.acts a r a') :
    Launched n a' := by
  obtain ⟨hpid, hkids⟩ := h
  cases o
  case popen => cases ho
  case unlinkPid => cases ho
  case uuid4 => obtain ⟨_, -, -, rfl⟩ := hacts; exact ⟨hpid, hkids⟩
  case createPid =>
    obtain ⟨-, -, rfl⟩ | ⟨-, -, rfl⟩ := hacts
    · exact ⟨rfl, hkids⟩
    · exact ⟨hpid, hkids⟩
  case writePid => obtain ⟨-, rfl⟩ := hacts; exact ⟨Option.isSome_map.trans hpid, hkids⟩
  case syncPid => obtain ⟨-, rfl⟩ := hacts; exact ⟨Option.isSome_map.trans hpid, hkids⟩
  case replacePid =>
    obtain ⟨-, rfl, -⟩ | ⟨-, -, _, rfl⟩ := hacts
    · exact ⟨hpid, hkids⟩
    · exact ⟨rfl, hkids⟩
  case wait => obtain ⟨-, rfl⟩ := hacts; exact ⟨hpid, (List.length_modify ..).trans hkids⟩
  case poll => obtain ⟨_, -, -, rfl⟩ := hacts; exact ⟨hpid, (List.length_modify ..).trans hkids⟩
  case replaceState | setHandle | popHandle => obtain ⟨-, rfl⟩ := hacts; exact ⟨hpid, hkids⟩
  all_goals rw [UnitOp.acts_quiet rfl hacts]; exact ⟨hpid, hkids⟩

/-- A part of a launch that keeps the record and the children. -/
abbrev LaunchPart (n : ℕ) (p : UnitProg α) (Q : α → Own → Prop) (a : Own) : Prop :=
  p.Always PassStep (fun _ _ => True) Q (fun e a' => Launched n a' ∧ Other e) a

theorem part_op {Q : o.Val → Own → Prop} (ho : o.keepsLaunch = true) (h : Launched n a)
    (hQ : ∀ v a', Launched n a' → Q v a') : LaunchPart n (perform o) Q a := by
  refine always_perform.2 ⟨trivial, fun v a' hs => hQ v a' (h.acts ho hs.1), fun e a' hs => ?_⟩
  exact ⟨h.acts ho hs.1, hs.2.1.not_tombstone⟩

theorem part_lift {x : Except Exc α} {Q : α → Own → Prop} (h : Launched n a)
    (hx : ∀ e, x = .error e → Other e) (hQ : ∀ v, x = .ok v → Q v a) :
    LaunchPart n (liftExcept x) Q a :=
  pass_lift (J := fun _ => True) hQ fun e he => ⟨h, hx e he⟩

theorem part_ensure {p : UnitProg α} {fin : UnitProg Unit} {Q : α → Own → Prop}
    (hfin : ∀ a (R : Unit → Own → Prop), Launched n a →
      (∀ a', Launched n a' → R () a') → LaunchPart n fin R a)
    (hp : LaunchPart n p (fun v a' => Launched n a' ∧ ∀ a'', Launched n a'' → Q v a'') a) :
    LaunchPart n (p.ensure fin) Q a :=
  always_ensure.2 (hp.mono (fun _ _ h => h) (fun _ a' h => hfin a' _ h.1 h.2) fun _ a' h =>
    hfin a' _ h.1 fun _ h' => ⟨h', h.2⟩)

theorem part_write {replace : Dict → UnitOp} {encoded : Except Exc Dict} {Q : Unit → Own → Prop}
    (hrep : ∀ d, (replace d).keepsLaunch = true) (h : Launched n a)
    (henc : ∀ e, encoded = .error e → Other e) (hQ : ∀ a', Launched n a' → Q () a') :
    LaunchPart n (writeJsonAtomic replace encoded) Q a := by
  refine always_bind.2 (part_op rfl h fun _ a₁ h₁ =>
    always_bind.2 (part_lift h₁ henc fun d _ => ?_))
  refine always_bind.2 (part_op rfl h₁ fun _ a₂ h₂ => part_ensure (fun a R ha hR => ?_) ?_)
  · refine always_bind.2 (always_attempt.2 ⟨trivial, ?_⟩)
    rintro r a' ⟨⟨⟨v, rfl⟩, rfl⟩, -⟩
    exact hR a' ha
  · refine always_bind.2 (part_op rfl h₂ fun _ a₃ h₃ =>
      always_bind.2 (part_op rfl h₃ fun _ a₄ h₄ => ?_))
    refine always_bind.2 (part_op (hrep d) h₄ fun _ a₅ h₅ =>
      always_bind.2 (part_op rfl h₅ fun _ a₆ h₆ => ?_))
    exact part_ensure (fun a R ha hR => part_op rfl ha fun _ => hR)
        (part_op rfl h₆ fun _ a₇ h₇ => ⟨h₇, fun a' h' =>
      ⟨h', hQ⟩⟩)

theorem part_sendAll {k : ℕ} {bs : List UInt8} {Q : Unit → Own → Prop} (h : Launched n a)
    (hQ : ∀ a', Launched n a' → Q () a') : LaunchPart n (sendAll k bs) Q a := by
  induction bs generalizing a with
  | nil => exact hQ a h
  | cons b bs ih => exact always_bind.2 (part_op rfl h fun _ a₁ h₁ => ih h₁)

theorem part_probe {k rounds : ℕ} {token : String} {Q : Bool → Own → Prop} (h : Launched n a)
    (hQ : ∀ b a', Launched n a' → Q b a') : LaunchPart n (probe k token rounds) Q a := by
  induction rounds generalizing a with
  | zero => exact hQ true a h
  | succ rounds ih =>
    refine always_bind.2 (part_op rfl h fun b a₁ h₁ => ?_)
    cases b with
    | false => exact always_bind.2 (part_op rfl h₁ fun _ a₂ h₂ => ih h₂)
    | true =>
      refine always_bind.2 (part_op rfl h₁ fun handle a₂ h₂ => ?_)
      split_ifs
      · exact always_bind.2 (part_op rfl h₂ fun _ a₃ h₃ => hQ false a₃ h₃)
      · exact hQ false a₂ h₂

theorem pass_withStream {path : Option String} {p : UnitProg α} {Q : α → Own → Prop}
    {E : Exc → Own → Prop} (hp : p.Always PassStep (fun _ _ => True) Q E a) :
    (withStream path p).Always PassStep (fun _ _ => True) Q E a := by
  have hsys : ∀ {s : Sys} {Q : Unit → Own → Prop} {E : Exc → Own → Prop} {a : Own}, Q () a →
      (sys s).Always PassStep (fun _ _ => True) Q E a := fun hQ =>
        pass_sys (J := fun _ => True) trivial hQ
  unfold withStream
  split_ifs
  · exact hp
  · exact always_bind.2 (hsys
      (always_ensure.2 (hp.mono (fun _ _ h => h) (fun _ _ h => hsys h) fun _ _ h => hsys h)))

/-- `spawn_process` launches one child. -/
theorem pass_spawnProcess {l : Launch} {rounds : ℕ} {persist : ℤ → ℚ → String → UnitProg Unit}
    (hpersist : ∀ pid started a (Q : Unit → Own → Prop), Launched (n + 1) a →
      (∀ a', Launched (n + 1) a' → Q () a') →
      LaunchPart (n + 1) (persist pid started l.token) Q a) (h : Launched n a) :
    (spawnProcess l rounds persist).Always PassStep (fun _ _ => True) (fun _ => Launched (n + 1))
    (fun e _ => Other e) a := by
  refine always_bind.2 (pass_sys (J := fun _ => True) trivial
    (always_bind.2 (always_perform.2 ⟨trivial, ?_, ?_⟩)))
  swap
  · exact fun e a' hs => hs.2.1.not_tombstone
  rintro ⟨k, pid⟩ a₁ ⟨⟨_, hk, rfl⟩, -⟩
  cases hk
  have h₁ : Launched (n + 1) { a with kids := a.kids ++ [⟨l.token, pid, false⟩] } :=
    ⟨h.1, by simp [h.2]⟩
  refine Always.mono (fun _ _ h => h) (fun _ _ h => h) (fun _ _ h => h.2)
    (E := fun e a' => Launched (n + 1) a' ∧ Other e) ?_
  refine always_bind.2 (part_op rfl h₁ fun _ a₂ h₂ =>
    always_bind.2 (part_op rfl h₂ fun started a₃ h₃ => ?_))
  refine always_bind.2 (part_ensure (fun a R ha hR => part_op rfl ha fun _ => hR)
    (always_handle.2 ?_))
  have hend : ∀ (b : Bool) a', Launched (n + 1) a' →
      Launched (n + 1) a' ∧ ∀ a'', Launched (n + 1) a'' →
      LaunchPart (n + 1) (if !b then return ⟨pid, started, false, none, none⟩ else do
        let alive ← probe a.kids.length l.token rounds
        return ⟨pid, started, alive, some l.token, l.generation⟩ : UnitProg SpawnResult) (fun _ =>
        Launched (n + 1)) a'' := by
    intro b a' h'
    refine ⟨h', fun a'' h'' => ?_⟩
    cases b with
    | false => exact h''
    | true => exact always_bind.2 (part_probe h'' fun _ _ h => h)
  refine Always.mono (fun _ _ h => h) (fun _ _ h => h) ?_
    (E := fun e a' => Launched (n + 1) a' ∧ Other e) ?_
  · -- the handler raises on
    rintro e a₄ ⟨h₄, he⟩
    refine always_bind.2 (part_op rfl h₄ fun _ a₅ h₅ =>
      always_bind.2 (always_attempt.2 ⟨trivial, ?_⟩))
    rintro r a₆ ⟨hacts, hans, -⟩
    have h₆ := h₅.acts rfl hacts
    split
    · exact ⟨h₆, he⟩
    · exact ⟨h₆, hans.not_tombstone⟩
    · exact ⟨h₆, he⟩
  · refine always_bind.2 (part_op rfl h₃ fun _ a₄ h₄ =>
      always_bind.2 (part_op rfl h₄ fun got a₅ h₅ => ?_))
    split_ifs
    · exact hend false a₅ h₅
    · refine always_bind.2 (hpersist pid started a₅ _ h₅ fun a₆ h₆ =>
        always_bind.2 (part_op rfl h₆ fun _ a₇ h₇ => ?_))
      exact always_bind.2 (part_sendAll h₇ fun a₈ h₈ => hend true a₈ h₈)

/-- **A launch** over a unit without a record: one child, and a record. -/
theorem pass_spawn {spec : ProcessSpec} {generation : Option ℤ} {rounds : ℕ} (ha : a.pid = none) :
    (spawn spec generation rounds).Always PassStep (fun _ _ => True)
    (fun _ => Launched (a.kids.length + 1)) (fun e _ => Other e) a := by
  refine always_bind.2 (pass_ensureUnitDir (J := fun _ => True) trivial
    (always_bind.2 (always_bind.2 ?_)))
  refine always_attempt.2 ⟨trivial, ?_⟩
  rintro r a' ⟨⟨rfl, ⟨-, rfl⟩ | ⟨f, hf, -⟩⟩, -⟩
  swap
  · cases ha.symm.trans hf
  refine always_bind.2 (pass_lift (J := fun _ => True) (fun t _ => ?_) fun e he =>
    pidPayload_error he)
  refine always_bind.2 (always_perform.2 ⟨trivial, ?_, fun e a' hs => hs.2.1.not_tombstone⟩)
  rintro token a₁ ⟨⟨t', -, htoken, rfl⟩, -⟩
  obtain rfl : token = t' := Except.ok.inj htoken
  refine always_bind.2 (always_bind.2
    (always_perform.2 ⟨trivial, ?_, fun e a' hs => hs.2.1.not_tombstone⟩))
  rintro fd a₂ ⟨⟨-, hfd, rfl⟩ | ⟨-, hfd, -⟩, -⟩
  swap
  · cases hfd
  cases hfd
  have hclose : ∀ {s : Sys} a (R : Unit → Own → Prop), Launched a'.kids.length a →
      (∀ a'', Launched a'.kids.length a'' → R () a'') → LaunchPart a'.kids.length (sys s) R a :=
    fun a R ha hR => part_op rfl ha fun _ => hR
  have hrest : ∀ a₂, Launched a'.kids.length a₂ → LaunchPart a'.kids.length (do
      ensure
        (do
          let intent ← liftExcept (launchIntent spec generation token t)
          perform (UnitOp.writePid a'.ino intent)
          perform (UnitOp.syncPid a'.ino))
        (sys .closePid)
      sys .openDir
      ensure (perform UnitOp.syncDir) (sys .closeDir)) (fun _ => Launched a'.kids.length) a₂ := by
    intro a₂ h₂
    refine always_bind.2 (part_ensure hclose
      (always_bind.2 (part_lift h₂ (fun e he => PidTemplate.dump_error he) ?_)))
    refine fun d _ => always_bind.2 (part_op rfl h₂ fun _ a₃ h₃ => part_op rfl h₃ fun _ a₄ h₄ =>
      ⟨h₄, fun a₅ h₅ => ?_⟩)
    refine always_bind.2 (part_op rfl h₅ fun _ a₆ h₆ =>
      part_ensure hclose (part_op rfl h₆ fun _ a₇ h₇ => ?_))
    exact ⟨h₇, fun _ h => h⟩
  have hstart : Launched a'.kids.length
      { a' with tokens := token :: a'.tokens, pid := some ⟨a'.ino, .regular, .malformed, false⟩,
                ino := a'.ino + 1 } :=
    ⟨rfl, rfl⟩
  refine (hrest _ hstart).mono (fun _ _ h => h) (fun _ a₃ h₃ => ?_) fun _ _ h => And.right h
  refine always_bind.2 (always_perform.2 ⟨trivial, fun environ a₄ hs => ?_, fun e a' hs =>
    hs.2.1.not_tombstone⟩)
  refine pass_withStream (pass_withStream
    (pass_spawnProcess (fun pid started a Q ha hQ => ?_) (h₃.acts rfl hs.1)))
  exact part_write (fun _ => rfl) ha (fun e he => PidTemplate.dump_error he) hQ

end

/-! ## States at rest -/

theorem Filled.set {unit : String} {d : Dict} (h : Filled unit d) {k : String}
    (v : Json) (hk : k ≠ "unit") :
    Filled unit (d.set k v) where
  unit := (Dict.lookup_set_ne _ _ hk.symm).trans h.unit
  core := fun k' hk' => mem_set (h.core k' hk')

theorem filled_stateOf (unit : String) (c : Option Content) : Filled unit (stateOf unit c) := by
  have hdefault : ∀ k ∈ coreStateKeys, ((defaultState unit).lookup k).isSome := fun k hk =>
    isSome_lookup_update.2 (by simpa [coreStateKeys] using hk)
  have hunit : (stateOf unit c).lookup "unit" = some (.str unit) := by
    unfold stateOf backfill
    split <;> exact Dict.lookup_set_self ..
  refine ⟨hunit, fun k hk => AList.lookup_isSome.1 ?_⟩
  by_cases hkey : k = "unit"
  · rw [hkey, hunit]
    rfl
  · unfold stateOf
    cases c.bind Content.asDoc with
    | none => rw [backfill, Dict.lookup_set_ne _ _ hkey, hdefault k hk]
    | some d => rw [lookup_backfill, if_neg hkey, Option.isSome_or, hdefault k hk, Bool.or_true]

theorem Filled.tombstoneState {unit : String} {d : Dict} (h : Filled unit d)
    (actual : String) (b : Bool) :
    Filled unit (tombstoneState d actual b) := by
  have hset := ((h.set (.str actual) (k := "actual") (by decide)).set (.str tombstoneReason)
    (k := "degraded_reason") (by decide)).set (.bool true)
    (k := "operator_verification_required") (by decide)
  cases b with
  | false => exact hset
  | true => exact hset.set (.bool true) (k := "stop_requested") (by decide)

/-- The state after a pass that has found a tombstone. -/
structure Standing (unit : String) (g : ℤ) (d : Dict) : Prop where
  filled : Filled unit d
  generation : pyInt (d.get "generation") = .ok g
  actual : d.lookup "actual" = some (.str "running")
  reason : d.lookup "degraded_reason" = some (.str tombstoneReason)
  flag : d.lookup "operator_verification_required" = some (.bool true)

/-- The state after a pass that has found nothing to stop. -/
structure Stopped (unit : String) (g : ℤ) (d : Dict) : Prop where
  filled : Filled unit d
  generation : pyInt (d.get "generation") = .ok g
  actual : d.lookup "actual" = some (.str "stopped")
  unwanted : honorDesiredState d = .ok false

/-- What a pass over a tombstone reports. -/
def standingOutcome (unit : String) (g : ℤ) (d : Dict) : ReconcileOutcome :=
  ⟨unit, "noop", d.get "desired", "running", g, (d.get "pid").asInt, true, some tombstoneReason⟩

/-- What a pass reports that has found nothing to stop. -/
def stoppedOutcome (unit : String) (g : ℤ) (d : Dict) : ReconcileOutcome :=
  ⟨unit, "noop", d.get "desired", "stopped", g, none, false, none⟩

theorem SameState.standingOutcome {unit : String} {g : ℤ} {d d' : Dict} (h : SameState d d') :
    standingOutcome unit g d = standingOutcome unit g d' := by
  rw [DatasourceKit.standingOutcome, h.get, h.get]
  rfl

theorem SameState.stoppedOutcome {unit : String} {g : ℤ} {d d' : Dict} (h : SameState d d') :
    stoppedOutcome unit g d = stoppedOutcome unit g d' := by
  rw [DatasourceKit.stoppedOutcome, h.get]
  rfl

/-- A further pass signals no child, or has nothing to add. -/
def Spent (d : Dict) (a : Own) : Prop :=
  honorDesiredState d = .ok true ∨ d.lookup "stop_requested" = some (.bool true) ∨ Handless a

/-- The unit is at rest: `n` launches, the state `d`, and passes that report `o`. -/
structure AtRest (unit : String) (n : ℕ) (d : Dict) (o : ReconcileOutcome) (a : Own) : Prop where
  state : ∃ d', a.state = some (.doc d') ∧ SameState d' d
  kids : a.kids.length = n
  rests : (a.pid.isSome = true ∧ Spent d a ∧ ∃ g, Standing unit g d ∧
    o = standingOutcome unit g d) ∨
    (a.pid = none ∧ ∃ g, Stopped unit g d ∧ o = stoppedOutcome unit g d)

theorem tombstoneState_lookup {d : Dict} {actual : String} {b : Bool} :
    (tombstoneState d actual b).lookup "actual" = some (.str actual) ∧
    (tombstoneState d actual b).lookup "degraded_reason" = some (.str tombstoneReason) ∧
    (tombstoneState d actual b).lookup "operator_verification_required" = some (.bool true) ∧
    (b = true → (tombstoneState d actual b).lookup "stop_requested" = some (.bool true)) := by
  cases b <;> simp [tombstoneState, Dict.update, Dict.lookup_set_ne, Dict.lookup_set_self]

/-- A pass over a tombstone changes nothing in a state that it has left. -/
theorem SameState.tombstoneState {unit : String} {g : ℤ} {d d' : Dict} (h : SameState d d')
    (hd : Standing unit g d') {b : Bool}
    (hb : b = true → d'.lookup "stop_requested" = some (.bool true)) :
    SameState (tombstoneState (d.set "actual" (.str "running")) "running" b) d' := by
  have hset := (((h.set hd.actual).set hd.actual).set hd.reason).set hd.flag
  cases b with
  | false => exact hset
  | true => exact hset.set (hb rfl)

/-! ## Passes -/

section
variable {a : Own} {J : Own → Prop} {Q : ReconcileOutcome → Own → Prop} {E : Exc → Own → Prop}
  {spec : ProcessSpec} {s : Dict}

/-- **A pass over a tombstone**, in terms of what the stop keeps. -/
theorem pass_tombstonePass {want : Bool} (hkept : ∀ a', KeptByStop a a' → J a')
    (hsaved : ∀ b a', KeptByStop a a' → (want = true ∨ b = true ∨ Handless a') →
      (b = true → want = false ∧ ¬ Handless a) → J (a'.saved (tombstoneState s "running" b)) ∧
      ∀ g, pyInt ((tombstoneState s "running" b).get "generation") = .ok g →
        Q (standingOutcome spec.unit g (tombstoneState s "running" b))
        (a'.saved (tombstoneState s "running" b)))
    (hE : ∀ e a', J a' → E e a') :
    (tombstonePass spec s "running" want).Always PassStep (fun _ => J) Q E a := by
  have hrest : ∀ (b : Bool) (a' : Own), KeptByStop a a' → (want = true ∨ b = true ∨ Handless a') →
      (b = true → want = false ∧ ¬ Handless a) → (do
        let state := tombstoneState s "running" b
        saveState (dumps state)
        return ⟨spec.unit, "noop", state.get "desired", "running",
          ← liftExcept (pyInt (state.get "generation")), (state.get "pid").asInt,
          "running" = "running", some tombstoneReason⟩ :
          UnitProg ReconcileOutcome).Always PassStep (fun _ => J) Q E a' := by
    intro b a' hk hspent hb
    obtain ⟨hJ, hQ⟩ := hsaved b a' hk hspent hb
    refine always_bind.2 ((pass_save (hkept a' hk) hJ fun e => hE e a' (hkept a' hk)).mono
      (fun _ _ h => h) ?_ fun _ _ h => h)
    rintro _ _ rfl
    exact always_bind.2 (pass_lift (fun g hg => hQ g hg) fun e _ => hE e _ hJ)
  unfold tombstonePass
  cases want with
  | true => exact hrest false a (.refl a) (.inl rfl) nofun
  | false =>
    refine always_bind.2 (always_handle.2
      (always_bind.2 (pass_stop.mono (fun _ _ h => hkept _ h) ?_ ?_)))
    · rintro r a' ⟨hk, hspent, hquiet⟩
      refine hrest r.signalled a' hk (.inr hspent) fun hb => ⟨rfl, fun hless => ?_⟩
      rw [hquiet hless] at hb
      cases hb
    · rintro e a' ⟨hk, hless⟩
      cases e with
      | tombstone msg => exact hrest false a' hk (.inr (.inr (hless ⟨msg, rfl⟩))) nofun
      | _ => exact hE _ a' (hkept a' hk)

/-- **A pass that finds nothing to stop.** -/
theorem pass_stoppedPass (hJ : J a) (hsaved : J (a.saved (s.set "actual" (.str "stopped"))) ∧
      ∀ g, pyInt ((s.set "actual" (.str "stopped")).get "generation") = .ok g →
        Q (stoppedOutcome spec.unit g (s.set "actual" (.str "stopped")))
        (a.saved (s.set "actual" (.str "stopped"))))
    (hE : ∀ e a', J a' → E e a') : (stoppedPass spec s).Always PassStep (fun _ => J) Q E a := by
  refine always_bind.2 ((pass_save hJ hsaved.1 fun e => hE e a hJ).mono (fun _ _ h => h) ?_
    fun _ _ h => h)
  rintro _ _ rfl
  exact always_bind.2 (pass_lift (fun g hg => hsaved.2 g hg) fun e _ => hE e _ hsaved.1)

/-- **A pass**, in terms of its part for what it finds. -/
theorem pass_reconcileUnit {rounds : ℕ} (hJ : J a) (hE : ∀ e a', J a' → E e a')
    (hbody : ∀ want, honorDesiredState (stateOf spec.unit a.state) = .ok want →
      (if a.pid.isSome then
          tombstonePass spec ((stateOf spec.unit a.state).set "actual" (.str "running"))
            "running" want
        else if want then
          launchPass spec ((stateOf spec.unit a.state).set "actual" (.str "stopped")) rounds
        else stoppedPass spec ((stateOf spec.unit a.state).set "actual" (.str "stopped"))).Always
        PassStep (fun _ => J) (fun o a => J a ∧ Q o a) (fun e a => J a ∧ E e a) a) :
    (reconcileUnit spec honorDesiredState rounds).Always PassStep (fun _ => J) Q E a := by
  refine pass_unitLock hJ (always_bind.2 (pass_load hJ ?_ fun e => ⟨hJ, hE e a hJ⟩))
  refine always_bind.2 (pass_lift (fun want hwant => ?_) fun e he => nomatch he)
  refine always_bind.2 (pass_observe hJ ?_)
  have hpass := hbody want hwant
  cases hpid : a.pid with
  | none =>
    rw [hpid] at hpass
    exact hpass
  | some f =>
    rw [hpid] at hpass
    exact hpass

end

/-! ## The first pass, and the others -/

theorem honor_of_get {d d' : Dict} (h : d.get "desired" = d'.get "desired") :
    honorDesiredState d = honorDesiredState d' := by
  rw [honorDesiredState, h, honorDesiredState]

theorem tombstoneState_desired (d : Dict) (actual : String) (b : Bool) :
    (tombstoneState d actual b).get "desired" = d.get "desired" := by
  cases b <;> simp [tombstoneState, Dict.update, Dict.get_set_ne]

section
variable {a : Own} {spec : ProcessSpec} {rounds n : ℕ} {d : Dict} {o : ReconcileOutcome}

/-- A pass over a unit that is to run and has no tombstone launches one child. -/
theorem pass_launchPass {s : Dict} (ha : a.pid = none) :
    (launchPass spec s rounds).Always PassStep (fun _ _ => True)
      (fun o a' => o.action = "spawned" ∧ Launched (a.kids.length + 1) a') (fun _ _ => True) a := by
  refine always_bind.2 (pass_lift (J := fun _ => True) (fun g _ => ?_) fun _ _ => trivial)
  refine always_bind.2 (always_handle.2
    (always_bind.2 ((pass_spawn ha).mono (fun _ _ h => h) ?_ ?_)))
  · intro r a' hlaunched
    refine always_bind.2 (Always.mono (fun _ _ h => h) ?_ (fun _ _ _ => trivial)
      (pass_save (J := fun _ => True) (E := fun _ _ => True) trivial trivial fun _ => trivial))
    rintro _ _ rfl
    exact ⟨rfl, hlaunched⟩
  · intro e a' he
    cases e with
    | tombstone msg => exact absurd rfl (he msg)
    | _ => trivial

/-- **A pass that returns** has launched a child, or it leaves the unit at rest. -/
theorem always_firstPass :
    (reconcileUnit spec honorDesiredState rounds).Always PassStep (fun _ _ => True)
    (fun o a' => (o.action = "noop" ∧ ∃ d, AtRest spec.unit a.kids.length d o a') ∨
      (o.action = "spawned" ∧ a.pid = none ∧ Launched (a.kids.length + 1) a'))
    (fun _ _ => True) a := by
  have hfilled := filled_stateOf spec.unit a.state
  refine pass_reconcileUnit (J := fun _ => True) trivial (fun _ _ _ => trivial) fun want hwant => ?_
  split_ifs with hpid hrun
  · refine pass_tombstonePass (fun _ _ => trivial)
        (fun b a' hkept hspent _ => ⟨trivial, fun g hg => ?_⟩) fun _ _ _ =>
      ⟨trivial, trivial⟩
    refine ⟨trivial, .inl ⟨rfl, _, ⟨_, rfl, fun _ => rfl⟩, hkept.kids,
      .inl ⟨hkept.pid.trans hpid, ?_, g, ?_, rfl⟩⟩⟩
    · rcases hspent with rfl | rfl | hless
      · refine .inl ((honor_of_get ?_).trans hwant)
        rw [tombstoneState_desired, Dict.get_set_ne _ _ (by decide)]
      · exact .inr (.inl (tombstoneState_lookup.2.2.2 rfl))
      · exact .inr (.inr hless)
    · obtain ⟨hactual, hreason, hflag, -⟩ := tombstoneState_lookup
      exact ⟨(hfilled.set _ (by decide)).tombstoneState _ _, hg, hactual, hreason, hflag⟩
  · have hnone : a.pid = none := by simpa using hpid
    exact (pass_launchPass hnone).mono (fun _ _ h => h)
        (fun o a' h => ⟨trivial, .inr ⟨h.1, hnone, h.2⟩⟩) fun _ _ _ =>
      ⟨trivial, trivial⟩
  · have hnone : a.pid = none := by simpa using hpid
    refine pass_stoppedPass trivial ⟨trivial, fun g hg => ?_⟩ fun _ _ _ => ⟨trivial, trivial⟩
    refine ⟨trivial, .inl ⟨rfl, _, ⟨_, rfl, fun _ => rfl⟩, rfl, .inr ⟨hnone, g, ?_, rfl⟩⟩⟩
    refine ⟨(hfilled.set _ (by decide)).set _ (by decide), hg, Dict.lookup_set_self .., ?_⟩
    refine (honor_of_get ?_).trans (hwant.trans (congrArg Except.ok (Bool.eq_false_iff.2 hrun)))
    rw [Dict.get_set_ne _ _ (by decide), Dict.get_set_ne _ _ (by decide)]

/-- **A pass over a unit at rest**, wherever it is cut. -/
theorem always_restingPass (ha : AtRest spec.unit n d o a) :
    (reconcileUnit spec honorDesiredState rounds).Always PassStep (fun _ => AtRest spec.unit n d o)
      (fun o' a' => AtRest spec.unit n d o a' ∧ o' = o) (fun _ => AtRest spec.unit n d o) a := by
  obtain ⟨d', hd', hsame⟩ := ha.state
  refine pass_reconcileUnit ha (fun _ _ h => h) fun want hwant => ?_
  rw [hd'] at hwant ⊢
  obtain ⟨hpid, hspent, g, hg, rfl⟩ | ⟨hpid, g, hg, rfl⟩ := ha.rests
  · have hload := hsame.load hg.filled
    rw [if_pos hpid]
    refine pass_tombstonePass (fun a' hkept => ?_) (fun b a' hkept _ hb => ?_) fun e a' h => ⟨h, h⟩
    · exact ⟨⟨d', hkept.state.trans hd', hsame⟩, hkept.kids.trans ha.kids,
        .inl ⟨hkept.pid.trans hpid,
        hspent.imp_right (Or.imp_right hkept.handless), g, hg, rfl⟩⟩
    · have hstop : b = true → d.lookup "stop_requested" = some (.bool true) := by
        intro hb'
        obtain ⟨hwant', hless⟩ := hb hb'
        rcases hspent with h | h | h
        · rw [honor_of_get (hload.get "desired"), h, hwant'] at hwant
          cases hwant
        · exact h
        · exact absurd h hless
      have hsaved := hload.tombstoneState hg hstop
      have hrests : AtRest spec.unit n d (standingOutcome spec.unit g d) (a'.saved
          (tombstoneState ((stateOf spec.unit (some (.doc d'))).set "actual" (.str "running"))
            "running" b)) :=
        ⟨⟨_, rfl, hsaved⟩, hkept.kids.trans ha.kids, .inl ⟨hkept.pid.trans hpid,
          hspent.imp_right (Or.imp_right hkept.handless), g, hg, rfl⟩⟩
      refine ⟨hrests, fun g' hg' => ⟨hrests, hrests, ?_⟩⟩
      rw [hsaved.get, hg.generation] at hg'
      cases hg'
      exact hsaved.standingOutcome
  · have hload := hsame.load hg.filled
    rw [if_neg (by simp [hpid]), if_neg ?_]
    swap
    · rw [honor_of_get (hload.get "desired"), hg.unwanted] at hwant
      cases hwant
      exact Bool.false_ne_true
    have hsaved := (hload.set hg.actual).set hg.actual
    refine pass_stoppedPass ha ?_ fun e a' h => ⟨h, h⟩
    have hrests : AtRest spec.unit n d (stoppedOutcome spec.unit g d) (a.saved
        (((stateOf spec.unit (some (.doc d'))).set "actual" (.str "stopped")).set
          "actual" (.str "stopped"))) :=
      ⟨⟨_, rfl, hsaved⟩, ha.kids, .inr ⟨hpid, g, hg, rfl⟩⟩
    refine ⟨hrests, fun g' hg' => ⟨hrests, hrests, ?_⟩⟩
    rw [hsaved.get, hg.generation] at hg'
    cases hg'
    exact hsaved.stoppedOutcome

end

/-! ## Any series of passes -/

/-- A pass over the unit, with the default policy, begins. -/
def PassBegins (unit : String) (w : UnitWorld) (p : UnitProg ReconcileOutcome)
    (w' : UnitWorld) : Prop :=
  ∃ spec rounds call, spec.unit = unit ∧ p = reconcileUnit spec honorDesiredState rounds ∧
    w'.own = { w.own with call := call }

/-- A pass over the unit leads from one world to another, and reports `o`. -/
def Passed (unit : String) (w : UnitWorld) (o : ReconcileOutcome) (w' : UnitWorld) : Prop :=
  ∃ p v, PassBegins unit w p v ∧ Steps UnitWorld.Beside p v w' (ret o)

theorem AtRest.call {unit : String} {n : ℕ} {d : Dict} {o : ReconcileOutcome} {a : Own}
    (h : AtRest unit n d o a) (call : Option UnitCall) :
    AtRest unit n d o { a with call := call } := ⟨h.state, h.kids, h.rests⟩

/-- A specification of passes over the supervisor's part holds of the passes over the world. -/
theorem Passed.always {unit : String} {w w' : UnitWorld} {o : ReconcileOutcome}
    (h : Passed unit w o w') (Q : ReconcileOutcome → Own → Prop) {G : UnitOp → Own → Prop}
    {E : Exc → Own → Prop} (hQ : ∀ spec rounds call, spec.unit = unit →
      (reconcileUnit spec honorDesiredState rounds).Always PassStep G Q E
      { w.own with call := call }) : Q o w'.own := by
  obtain ⟨p, v, ⟨spec, rounds, call, hspec, rfl, hv⟩, hsteps⟩ := h
  have hp := hQ spec rounds call hspec
  rw [← hv] at hp
  have hbeside : ∀ o s r s', UnitWorld.Beside o s r s' → PassStep o s.own r s'.own :=
    fun _ _ _ _ hs => hs.pass
  exact (hp.of_view hbeside).steps hsteps

/-- A pass from a unit at rest. -/
theorem Passed.atRest {unit : String} {w w' : UnitWorld} {o o' : ReconcileOutcome} {n : ℕ}
    {d : Dict} (h : Passed unit w o' w') (hs : AtRest unit n d o w.own) :
    AtRest unit n d o w'.own ∧ o' = o := by
  refine h.always (fun o' a => AtRest unit n d o a ∧ o' = o) (G := fun _ => AtRest unit n d o)
    (E := fun _ => AtRest unit n d o) fun spec rounds call hspec => ?_
  subst hspec
  exact always_restingPass (hs.call call)

/-- A pass from any world. -/
theorem Passed.first {unit : String} {w w' : UnitWorld} {o : ReconcileOutcome}
    (h : Passed unit w o w') :
    (o.action = "noop" ∧ ∃ d, AtRest unit w.own.kids.length d o w'.own) ∨
      (o.action = "spawned" ∧ w.own.pid = none ∧ Launched (w.own.kids.length + 1) w'.own) := by
  refine h.always (fun o a' => (o.action = "noop" ∧ ∃ d, AtRest unit w.own.kids.length d o a') ∨
    (o.action = "spawned" ∧ w.own.pid = none ∧ Launched (w.own.kids.length + 1) a'))
    (G := fun _ _ => True) (E := fun _ _ => True) fun spec rounds call hspec => ?_
  subst hspec
  exact always_firstPass

/-- **Passes converge.**  After two passes that have returned, whatever they have found, any
    further passes, each cut anywhere, launch nothing, leave the state with the same values,
    and report what the second one has reported.  Of the two at most the first one has
    launched, one child, and otherwise it has reported what the second one reports. -/
theorem passes_converge {unit : String} {w₀ w₁ w₂ w : UnitWorld} {o₁ o₂ : ReconcileOutcome}
    {q : UnitProg ReconcileOutcome} (h₁ : Passed unit w₀ o₁ w₁) (h₂ : Passed unit w₁ o₂ w₂)
    (h : Serial UnitWorld.Beside (PassBegins unit) w₂ w q) :
    ((o₁ = o₂ ∧ w₁.own.kids.length = w₀.own.kids.length) ∨
      (o₁.action = "spawned" ∧ w₀.own.pid = none ∧ w₁.own.kids.length = w₀.own.kids.length + 1)) ∧
    o₂.action = "noop" ∧ w.own.kids.length = w₁.own.kids.length ∧
    (∃ d₂ d, w₂.own.state = some (.doc d₂) ∧ w.own.state = some (.doc d) ∧ SameState d d₂) ∧
    ∀ o, q = ret o → o = o₂ := by
  -- after the second pass the unit is at rest
  obtain ⟨hfirst, hnoop, d, hrests⟩ : ((o₁ = o₂ ∧ w₁.own.kids.length = w₀.own.kids.length) ∨
      (o₁.action = "spawned" ∧ w₀.own.pid = none ∧ w₁.own.kids.length = w₀.own.kids.length + 1)) ∧
      o₂.action = "noop" ∧ ∃ d, AtRest unit w₁.own.kids.length d o₂ w₂.own := by
    rcases h₁.first with ⟨hnoop, d, hs⟩ | ⟨hspawned, hnone, hpid, hkids⟩
    · obtain ⟨hs', rfl⟩ := h₂.atRest hs
      exact ⟨.inl ⟨rfl, hs.kids⟩, hnoop, d, hs.kids.symm ▸ hs'⟩
    · refine ⟨.inr ⟨hspawned, hnone, hkids⟩, ?_⟩
      rcases h₂.first with ⟨hnoop, d, hs⟩ | ⟨-, hnone', -⟩
      · exact ⟨hnoop, d, hs⟩
      · rw [hnone'] at hpid
        cases hpid
  obtain ⟨hs, hq⟩ := Serial.invariant (J := fun w => AtRest unit w₁.own.kids.length d o₂ w.own)
    (G := fun _ _ => True) (Q := fun o _ => o = o₂) (E := fun _ _ => True) (by
      rintro v p v' hv ⟨spec, rounds, call, rfl, rfl, hv'⟩
      have hcalled := hv.call call
      rw [← hv'] at hcalled
      have hbeside : ∀ o s r s', UnitWorld.Beside o s r s' → PassStep o s.own r s'.own :=
      fun _ _ _ _ hs => hs.pass
      refine ((always_restingPass hcalled).of_view hbeside).mono ?_ ?_ ?_
      · exact fun _ _ h => ⟨h, trivial⟩
      · exact fun _ _ h => h
      · exact fun _ _ h => ⟨h, trivial⟩) hrests h
  obtain ⟨d₂, hd₂, hsame₂⟩ := hrests.state
  obtain ⟨d', hd', hsame⟩ := hs.state
  refine ⟨hfirst, hnoop, hs.kids, ⟨d₂, d', hd₂, hd', hsame.trans hsame₂.symm⟩, ?_⟩
  rintro o rfl
  exact hq.2

/-- A unit that is to run. -/
def enabledWorld : UnitWorld :=
  .init ∅ (fun _ => 0) none (some (.doc ((defaultState "alpha").set "desired" (.str "enabled")))) []

/-- The wrappers have gone. -/
def UnitWorld.forsaken (w : UnitWorld) : UnitWorld :=
  { w with kids := w.kids.map fun kid => { kid with childOpen := false } }

/-- A step of a supervisor whose wrappers exit before they could acknowledge. -/
def forsakenAct (o : UnitOp) (w : UnitWorld) : Option (Except Exc o.Val × UnitWorld) :=
  w.forsaken.op 0 { uuid := "t", pid := 41 } o

theorem beside_of_forsaken (o : UnitOp) (w : UnitWorld) (r : Except Exc o.Val) (w' : UnitWorld)
    (h : forsakenAct o w = some (r, w')) : w.Beside o r w' := by
  refine ⟨w.forsaken, ?_, _, rfl, rfl, h⟩
  simp only [UnitWorld.own, UnitWorld.forsaken, List.map_map]
  rfl

/-- Such a pass over the unit. -/
def forsakenPass (w : UnitWorld) : Option (ReconcileOutcome × UnitWorld) :=
  ((reconcileUnit { command := ["run"], unit := "alpha" } honorDesiredState 0).drive
      forsakenAct w).bind fun x =>
    x.1.toOption.map fun o => (o, x.2)

theorem passed_of_forsaken {w w' : UnitWorld} {o : ReconcileOutcome}
    (h : forsakenPass w = some (o, w')) :
    PassBegins "alpha" w (reconcileUnit { command := ["run"], unit := "alpha" } honorDesiredState 0)
    w ∧ Steps UnitWorld.Beside
    (reconcileUnit { command := ["run"], unit := "alpha" } honorDesiredState 0) w w' (ret o) := by
  obtain ⟨⟨r, v⟩, hd, hr⟩ := Option.bind_eq_some_iff.1 h
  cases r with
  | error e => cases hr
  | ok o' =>
    cases hr
    exact ⟨⟨_, 0, w.own.call, rfl, rfl, rfl⟩, Steps.of_drive beside_of_forsaken hd⟩

/-- The first of three passes launches a child that exits at once; the others leave it at that. -/
theorem passes_converge_run : ∃ w₁ w₂ w₃ o₁ o₂ o₃, Passed "alpha" enabledWorld o₁ w₁ ∧
    Passed "alpha" w₁ o₂ w₂ ∧ Passed "alpha" w₂ o₃ w₃ ∧ o₁.action = "spawned" ∧
    w₃.own.kids.length = 1 ∧ o₃ = o₂ := by
  have hrun : ((forsakenPass enabledWorld).bind fun x => (forsakenPass x.2).bind fun y =>
      (forsakenPass y.2).map fun _ => (x.1.action, x.2.own.kids.length)) = some ("spawned",
      1) := by decide +kernel
  obtain ⟨⟨o₁, w₁⟩, h₁, hrun⟩ := Option.bind_eq_some_iff.1 hrun
  obtain ⟨⟨o₂, w₂⟩, h₂, hrun⟩ := Option.bind_eq_some_iff.1 hrun
  obtain ⟨⟨o₃, w₃⟩, h₃, hend⟩ := Option.map_eq_some_iff.1 hrun
  obtain ⟨haction, hkids⟩ := Prod.mk.inj hend
  have hp₁ := passed_of_forsaken h₁
  have hp₂ := passed_of_forsaken h₂
  have hp₃ := passed_of_forsaken h₃
  have hconv := passes_converge ⟨_, _, hp₁⟩ ⟨_, _, hp₂⟩ (Serial.of_steps hp₃.1 hp₃.2)
  exact ⟨w₁, w₂, w₃, o₁, o₂, o₃, ⟨_, _, hp₁⟩, ⟨_, _, hp₂⟩, ⟨_, _, hp₃⟩, haction,
    hconv.2.2.1.trans hkids, hconv.2.2.2.2 o₃ rfl⟩

end DatasourceKit

/-
  The operations that the functions on a unit perform, beside those that change `pid.json`
  or `state.json`.

  `UnitOp.isPlain` are the operations that change neither file, `UnitOp.isMinor` those of
  them that concern neither the content of `pid.json` nor the children and their handles.
  Where all of these satisfy `A`, a function does as soon as its own writes do:
  `uses_spawn`, `uses_stop`, `uses_clear`.
-/
import DatasourceKit.Fleet.UnitView

namespace DatasourceKit

open Interleave Interleave.Prog

/-- The operation changes neither `pid.json` nor `state.json`. -/
def UnitOp.isPlain : UnitOp → Bool
  | .createPid | .writePid .. | .replacePid _ | .unlinkPid | .replaceState _ => false
  | _ => true

/-- The operation changes neither file, does not read `pid.json`, and does nothing with a
    token, a child or a handle. -/
def UnitOp.isMinor : UnitOp → Bool
  | .createPid | .writePid .. | .replacePid _ | .unlinkPid | .replaceState _ => false
  | .readPid | .uuid4 | .popen _ | .wait _ | .poll _ | .terminate _ | .getHandle _ | .setHandle .. |
      .popHandle _ => false
  | _ => true

theorem UnitOp.isPlain_of_isMinor {o : UnitOp} (h : o.isMinor = true) : o.isPlain = true := by
  cases o <;> first | rfl | cases h

/-- The launch of `spawn`, after the intent has been written. -/
def launchTail (spec : ProcessSpec) (generation : Option ℤ) (rounds : ℕ) (token : String)
    (template : PidTemplate) :
    UnitProg SpawnResult := do
  let environ ← perform UnitOp.environ
  withStream spec.stdoutPath (withStream spec.stderrPath
    (spawnProcess ⟨spec.command, childEnv spec generation environ, spec.unit, generation, token⟩
      rounds fun pid started token => writeJsonAtomic .replacePid (template.dump
        (launchFields (.int pid) (.float started) spec.unit generation token
          "running_or_unknown"))))

section
variable {α β : Type} {A : UnitOp → Prop}

theorem uses_liftExcept (x : Except Exc α) : (liftExcept x).Uses A := by
  cases x <;> trivial

/-- What follows a pure part need do it only for its value. -/
theorem uses_lift {x : Except Exc α} {f : α → UnitProg β} (h : ∀ v, x = .ok v → (f v).Uses A) :
    ((liftExcept x).bind f).Uses A := by
  cases x with
  | ok v => exact h v rfl
  | error e => trivial

end

section
variable {α : Type} {A : UnitOp → Prop} (hA : ∀ o, o.isMinor = true → A o)
include hA

theorem uses_minor {o : UnitOp} (ho : o.isMinor = true) :
    (perform o : UnitProg o.Val).Uses A := uses_perform (hA o ho)

theorem uses_minorAttempt {o : UnitOp} (ho : o.isMinor = true) : (attempt o : UnitProg _).Uses A :=
    uses_attempt (hA o ho)

theorem uses_sys {s : Sys} : (sys s).Uses A := uses_minor hA rfl

theorem uses_ensureUnitDir : ensureUnitDir.Uses A := by
  refine Uses.bind (uses_sys hA) fun _ => Uses.bind (uses_minor hA rfl) fun b => ?_
  cases b <;> trivial

theorem uses_writeJson {replace : Dict → UnitOp} {encoded : Except Exc Dict}
    (h : ∀ d, encoded = .ok d → A (replace d)) : (writeJsonAtomic replace encoded).Uses A := by
  refine Uses.bind (uses_sys hA) fun _ => uses_lift fun d hd => Uses.bind (uses_sys hA) fun _ => ?_
  refine Uses.ensure ?_ (Uses.bind (uses_minorAttempt hA rfl) fun r => ?_)
  · refine Uses.bind (uses_minor hA rfl) fun _ => Uses.bind (uses_minor hA rfl) fun _ => ?_
    refine Uses.bind (uses_perform (h d hd)) fun _ => Uses.bind (uses_sys hA) fun _ => ?_
    exact Uses.ensure (uses_minor hA rfl) (uses_sys hA)
  · split
    · trivial
    · exact uses_liftExcept _

theorem uses_unitLock {body : UnitProg α} (h : body.Uses A) : (unitLock body).Uses A := by
  refine (uses_ensureUnitDir hA).bind fun _ => Uses.bind (uses_sys hA) fun _ =>
    Uses.ensure ?_ (uses_minor hA rfl)
  exact Uses.bind (uses_minor hA rfl) fun _ => Uses.ensure h (uses_minor hA rfl)

theorem uses_sendAll {k : ℕ} {bs : List UInt8} : (sendAll k bs).Uses A := by
  induction bs with
  | nil => trivial
  | cons b bs ih => exact Uses.bind (uses_minor hA rfl) fun _ => ih

theorem uses_withStream {path : Option String} {p : UnitProg α} (hp : p.Uses A) :
    (withStream path p).Uses A := by
  unfold withStream
  split_ifs
  · exact hp
  · exact Uses.bind (uses_sys hA) fun _ => Uses.ensure hp (uses_sys hA)

theorem uses_requireAbsent : requireAbsent.Uses A := by
  refine Uses.bind (uses_minorAttempt hA rfl) fun r => ?_
  split
  · trivial
  · split_ifs <;> trivial
  · trivial

theorem uses_writeIntent {intent : Except Exc Dict} (hc : A .createPid)
    (hw : ∀ n d, intent = .ok d → A (.writePid n d)) : (writeIntent intent).Uses A := by
  refine Uses.bind (uses_perform hc) fun fd => Uses.bind (Uses.ensure ?_ (uses_sys hA)) fun _ => ?_
  · exact uses_lift fun d hd => Uses.bind (uses_perform (hw fd d hd)) fun _ => uses_minor hA rfl
  · exact Uses.bind (uses_sys hA) fun _ => Uses.ensure (uses_minor hA rfl) (uses_sys hA)

end

section
variable {α : Type} {A : UnitOp → Prop} (hA : ∀ o, o.isPlain = true → A o)
include hA

theorem minor_of_plain : ∀ o, o.isMinor = true → A o := fun o ho =>
    hA o (UnitOp.isPlain_of_isMinor ho)

theorem uses_plain {o : UnitOp} (ho : o.isPlain = true) :
    (perform o : UnitProg o.Val).Uses A := uses_perform (hA o ho)

theorem uses_plainAttempt {o : UnitOp} (ho : o.isPlain = true) : (attempt o : UnitProg _).Uses A :=
    uses_attempt (hA o ho)

/-! ## Launching -/

theorem uses_probe {k rounds : ℕ} {token : String} : (probe k token rounds).Uses A := by
  induction rounds with
  | zero => trivial
  | succ rounds ih =>
    refine Uses.bind (uses_plain hA rfl) fun b => ?_
    cases b with
    | false => exact Uses.bind (uses_sys (minor_of_plain hA)) fun _ => ih
    | true =>
      refine Uses.bind (uses_plain hA rfl) fun h => ?_
      split_ifs
      · exact Uses.bind (uses_plain hA rfl) fun _ => trivial
      · trivial

theorem uses_spawnProcess {l : Launch} {rounds : ℕ} {persist : ℤ → ℚ → String → UnitProg Unit}
    (hp : ∀ pid started, (persist pid started l.token).Uses A) :
    (spawnProcess l rounds persist).Uses A := by
  refine Uses.bind (uses_sys (minor_of_plain hA)) fun _ =>
    Uses.bind (uses_plain hA rfl) fun child => ?_
  refine Uses.bind (uses_sys (minor_of_plain hA)) fun _ =>
    Uses.bind (uses_plain hA rfl) fun started => ?_
  refine Uses.bind (Uses.ensure (Uses.handle ?_ fun e => ?_) (uses_plain hA rfl)) fun acked => ?_
  · refine Uses.bind (uses_sys (minor_of_plain hA)) fun _ =>
      Uses.bind (uses_plain hA rfl) fun got => ?_
    split_ifs
    · trivial
    · exact (hp _ _).bind fun _ => Uses.bind (uses_plain hA rfl) fun _ =>
          (uses_sendAll (minor_of_plain hA)).bind fun _ => trivial
  · refine Uses.bind (uses_plain hA rfl) fun _ => Uses.bind (uses_plainAttempt hA rfl) fun r => ?_
    split <;> trivial
  · cases acked with
    | false => trivial
    | true => exact (uses_probe hA).bind fun _ => trivial

theorem uses_launch {spec : ProcessSpec} {generation : Option ℤ} {rounds : ℕ} {token : String}
    {t : PidTemplate} (hr : ∀ pid started d,
      t.dump (launchFields (.int pid) (.float started) spec.unit generation token
      "running_or_unknown") = .ok d → A (.replacePid d)) :
      (launchTail spec generation rounds token t).Uses A :=
  Uses.bind (uses_plain hA rfl) fun _ => uses_withStream (minor_of_plain hA)
      (uses_withStream (minor_of_plain hA) (uses_spawnProcess hA
    fun pid started => uses_writeJson (minor_of_plain hA) fun d hd => hr pid started d hd))

theorem uses_spawn {spec : ProcessSpec} {generation : Option ℤ} {rounds : ℕ}
    (hc : ∀ t, pidPayload spec ⟨0, 0, false, none, none⟩ = .ok t → A .createPid)
    (hw : ∀ t token n d, pidPayload spec ⟨0, 0, false, none, none⟩ = .ok t →
      launchIntent spec generation token t = .ok d → A (.writePid n d))
    (hr : ∀ t pid started token d, pidPayload spec ⟨0, 0, false, none, none⟩ = .ok t →
      t.dump (launchFields (.int pid) (.float started) spec.unit generation token
        "running_or_unknown") = .ok d →
        A (.replacePid d)) : (spawn spec generation rounds).Uses A := by
  refine (uses_ensureUnitDir (minor_of_plain hA)).bind fun _ =>
    (uses_requireAbsent (minor_of_plain hA)).bind fun _ =>
      uses_lift fun t ht => ?_
  refine Uses.bind (uses_plain hA rfl) fun token =>
    (uses_writeIntent (minor_of_plain hA) (hc t ht) fun n d hd =>
      hw t token n d ht hd).bind
    fun _ => uses_launch hA fun pid started d hd => hr t pid started token d ht hd

/-! ## Stopping and clearing -/

theorem uses_signalOwned {token pid : Json} : (signalOwned token pid).Uses A := by
  have hpop : ∀ t, ((perform (UnitOp.popHandle t)).bind fun _ =>
      ret false : UnitProg Bool).Uses A :=
    fun t => Uses.bind (uses_plain hA rfl) fun _ => trivial
  unfold signalOwned
  split
  · refine Uses.bind (uses_plain hA rfl) fun h => ?_
    cases h with
    | none => trivial
    | some h =>
      dsimp only
      split_ifs
      · refine Uses.bind (uses_plain hA rfl) fun b => ?_
        cases b with
        | true => exact hpop _
        | false => exact Uses.bind (uses_plain hA rfl) fun _ => trivial
      · exact hpop _
  · trivial

theorem uses_stop (hr : ∀ d, A (.replacePid d)) : stop.Uses A := by
  refine Uses.bind (uses_readJson (uses_plainAttempt hA rfl)) fun data => ?_
  cases data with
  | none => trivial
  | some data =>
    exact (uses_signalOwned hA).bind fun b =>
      (uses_writeJson (minor_of_plain hA) fun d _ => hr d).bind fun _ =>
      (uses_liftExcept _).bind fun _ => trivial

theorem uses_clear {q : Clearance} (hu : A .unlinkPid) : (clearProcessTombstone q).Uses A := by
  simp only [clearProcessTombstone]
  split_ifs
  · trivial
  refine uses_unitLock (minor_of_plain hA) (Uses.bind (uses_plainAttempt hA rfl) fun r => ?_)
  split
  · split_ifs <;> trivial
  split_ifs
  · trivial
  refine Uses.bind (uses_readJson (uses_plainAttempt hA rfl)) fun data => ?_
  cases data with
  | none => trivial
  | some data =>
    dsimp only
    split_ifs
    · trivial
    refine Uses.bind (uses_plain hA rfl) fun now =>
      Uses.bind (uses_sys (minor_of_plain hA)) fun _ => ?_
    refine Uses.bind (Uses.ensure ?_ (uses_sys (minor_of_plain hA))) fun _ => ?_
    · exact (uses_liftExcept _).bind fun _ => Uses.bind (uses_plain hA rfl) fun _ =>
        uses_sys (minor_of_plain hA)
    refine Uses.bind (uses_perform hu) fun _ => Uses.bind (uses_sys (minor_of_plain hA)) fun _ => ?_
    exact Uses.bind (Uses.ensure (uses_plain hA rfl) (uses_sys (minor_of_plain hA))) fun _ =>
      uses_plain hA rfl

end

end DatasourceKit

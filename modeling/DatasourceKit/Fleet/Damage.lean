/-
  A pass over a unit whose `pid.json` may have any content.

  * `CanGoOn`: an operation is not blocked; a specification with it as the guard is one of
    total correctness;
  * `reconcileAll`: `_reconcile_all`, over the units of a fleet;
  * `Survives`: the pass reports the tombstone, the passes over the later units take place,
    and a `stop` that raises has left the file alone;
  * `survives_iff`: the contents on which it does.
-/
import DatasourceKit.Fleet.Observation

namespace DatasourceKit

open Interleave Interleave.Prog

/-! ## Undisturbed calls that are not blocked -/

/-- The operation is never blocked. -/
def UnitOp.isFree : UnitOp → Bool
  | .uuid4 | .flock | .recv .. | .send .. | .gateWrite .. | .gateRead .. => false
  | _ => true

/-- The operation takes or frees the unit lock. -/
def UnitOp.isLock : UnitOp → Bool
  | .flock | .funlock | .closeLock => true
  | _ => false

/-- A step of the supervisor without a fault, beside the holder of the unit lock. -/
def CalmLock (o : UnitOp) (s : Own × Option ℕ) (r : Except Exc o.Val)
    (s' : Own × Option ℕ) : Prop :=
  CalmStep o s.1 r s'.1 ∧ (o.isLock = false → s'.2 = s.2)

/-- The operation can go on. -/
def Ready (o : UnitOp) (s : Own × Option ℕ) : Prop := o.isFree = true ∨ (o = .flock ∧ s.2 = none)

namespace UnitWorld
variable {w w' : UnitWorld} {o : UnitOp} {r : Except Exc o.Val}

/-- Thread 0 can perform the operation. -/
def CanGoOn (o : UnitOp) (w : UnitWorld) : Prop := ∃ r w', Undisturbed o w r w'

def ownLock (w : UnitWorld) : Own × Option ℕ := (w.own, w.lock)

theorem Undisturbed.calmLock (h : Undisturbed o w r w') : CalmLock o w.ownLock r w'.ownLock := by
  refine ⟨h.calm, fun hl => ?_⟩
  obtain ⟨ch, hch, hdir, h⟩ := h
  rw [op_undisturbed hch] at h
  obtain ⟨⟨r', v⟩, he, hr⟩ := Option.map_eq_some_iff.1 h
  cases hr
  rcases effect_lock he with ⟨rfl, -⟩ | ⟨rfl | rfl, -⟩ | ⟨-, -, -, hv⟩
  · cases hl
  · cases hl
  · cases hl
  · exact hv

theorem canGoOn_of_ready (h : Ready o w.ownLock) : CanGoOn o w := by
  have heff : ∃ x, w.effect 0 {} o = some x := by
    rcases h with h | ⟨rfl, h⟩
    · cases o <;> simp only [UnitOp.isFree, Bool.false_eq_true] at h <;> simp only [effect] <;>
        (try split) <;> (try split) <;> exact ⟨_, rfl⟩
    · simp only [effect, show w.lock = none from h]
      exact ⟨_, rfl⟩
  obtain ⟨⟨r, v⟩, hv⟩ := heff
  refine ⟨r, v.record 0 o r, {}, rfl, rfl, ?_⟩
  rw [op_undisturbed rfl, hv]
  rfl

/-- A specification over the supervisor's part and the lock holds of an undisturbed call,
    which is not blocked. -/
theorem always_going {α : Type} {p : UnitProg α} {Q : α → Own × Option ℕ → Prop}
    {E : Exc → Own × Option ℕ → Prop} (h : p.Always CalmLock Ready Q E w.ownLock) :
    p.Always Undisturbed CanGoOn (fun v w => Q v w.ownLock) (fun e w => E e w.ownLock) w :=
  (h.of_view fun _ _ _ _ hs => hs.calmLock).mono (fun _ _ h => canGoOn_of_ready h) (fun _ _ h => h)
    fun _ _ h => h

end UnitWorld

/-! ## Rules -/

section
variable {o : UnitOp} {a : Own} {l : Option ℕ} {E : Exc → Own × Option ℕ → Prop}

theorem always_free {Q : o.Val → Own × Option ℕ → Prop} (ho : o.isFree = true)
    (hl : o.isLock = false) (hok : ∀ v a', CalmStep o a (.ok v) a' → Q v (a', l))
    (herr : ∀ e a', ¬ CalmStep o a (.error e) a') :
    (perform o).Always CalmLock Ready Q E (a, l) := by
  refine always_perform.2 ⟨.inl ho, ?_, fun e s' h => (herr e _ h.1).elim⟩
  rintro v ⟨a', l'⟩ ⟨h, hl'⟩
  obtain rfl : l' = l := hl' hl
  exact hok v a' h

theorem always_freeAttempt {Q : Except Exc o.Val → Own × Option ℕ → Prop} (ho : o.isFree = true)
    (hl : o.isLock = false) (h : ∀ r a', CalmStep o a r a' → Q r (a', l)) :
    (attempt o).Always CalmLock Ready Q E (a, l) := by
  refine always_attempt.2 ⟨.inl ho, ?_⟩
  rintro r ⟨a', l'⟩ ⟨hr, hl'⟩
  obtain rfl : l' = l := hl' hl
  exact h r a' hr

theorem always_sysFree {s : Sys} {Q : Unit → Own × Option ℕ → Prop} (hQ : Q () (a, l)) :
    (sys s).Always CalmLock Ready Q E (a, l) := by
  refine always_free rfl rfl ?_ fun e a' h => by cases h.1.1.choose_spec
  rintro - a' ⟨⟨-, rfl⟩, -⟩
  exact hQ

/-- Writing and syncing the temporary file. -/
theorem always_tmpFree {α : Type} {p : UnitProg α} {Q : α → Own × Option ℕ → Prop}
    (h : p.Always CalmLock Ready Q E (a, l)) :
    ((perform UnitOp.writeTmp).bind fun _ => (perform UnitOp.syncTmp).bind fun _ => p).Always
      CalmLock Ready Q E (a, l) := by
  refine always_bind.2 (always_free rfl rfl ?_ fun e a' h => by cases h.1.1.choose_spec)
  rintro - a' ⟨⟨-, rfl⟩, -⟩
  refine always_bind.2 (always_free rfl rfl ?_ fun e a' h => by cases h.1.1.choose_spec)
  rintro - a' ⟨⟨-, rfl⟩, -⟩
  exact h

theorem always_unlockFree {Q : Unit → Own × Option ℕ → Prop} (hQ : ∀ l', Q () (a, l')) :
    (perform UnitOp.funlock).Always CalmLock Ready Q E (a, l) := by
  refine always_perform.2 ⟨.inl rfl, ?_, fun e s' h => by cases h.1.1.1.choose_spec⟩
  rintro - ⟨a', l'⟩ ⟨⟨⟨-, h⟩, -⟩, -⟩
  obtain rfl : a' = a := h
  exact hQ l'

theorem always_closeFree {Q : Unit → Own × Option ℕ → Prop} (hQ : ∀ l', Q () (a, l')) :
    (perform UnitOp.closeLock).Always CalmLock Ready Q E (a, l) := by
  refine always_perform.2 ⟨.inl rfl, ?_, fun e s' h => by cases h.1.1.1.choose_spec⟩
  rintro - ⟨a', l'⟩ ⟨⟨⟨-, h⟩, -⟩, -⟩
  obtain rfl : a' = a := h
  exact hQ l'

/-- A program under the unit lock, which is free. -/
theorem always_lockFree {α : Type} {body : UnitProg α} {Q : α → Own → Prop} {E : Exc → Own → Prop}
    (h : ∀ l, body.Always CalmLock Ready (fun v s => Q v s.1) (fun e s => E e s.1) (a, l)) :
    (unitLock body).Always CalmLock Ready (fun v s => Q v s.1) (fun e s => E e s.1) (a, none) := by
  refine always_bind.2 (always_bind.2 (always_sysFree (always_bind.2 ?_)))
  refine always_free rfl rfl ?_ fun e a' h => by cases h.1.1.choose_spec
  rintro b a' ⟨⟨-, rfl⟩, hb⟩
  obtain rfl : b = true := hb
  refine always_bind.2 (always_sysFree (always_ensure.2 (always_bind.2 ?_)))
  refine always_perform.2 ⟨.inr ⟨rfl, rfl⟩, ?_, fun e s' h => by cases h.1.1.1.choose_spec⟩
  rintro - ⟨a', l⟩ ⟨⟨⟨-, ha'⟩, -⟩, -⟩
  obtain rfl : a' = _ := ha'
  refine always_ensure.2 ((h l).mono (fun _ _ h => h) ?_ ?_)
  · rintro v ⟨a, l⟩ hQ
    exact always_unlockFree fun l => always_closeFree fun l => hQ
  · rintro e ⟨a, l⟩ hE
    exact always_unlockFree fun l => always_closeFree fun l => hE

/-- `write_json_atomic` of what can be encoded. -/
theorem always_writeFree {replace : Dict → UnitOp} {d : Dict} {Q : Unit → Own × Option ℕ → Prop}
    (ho : (replace d).isFree = true) (hl : (replace d).isLock = false)
    (hok : ∀ v a', CalmStep (replace d) a (.ok v) a' → Q () (a', l))
        (herr : ∀ e a', ¬ CalmStep (replace d) a (.error e) a') :
    (writeJsonAtomic replace (.ok d)).Always CalmLock Ready Q E (a, l) := by
  refine always_bind.2 (always_sysFree (always_bind.2 (always_ret.2 ?_)))
  refine always_bind.2 (always_sysFree (always_ensure.2 ?_))
  refine always_tmpFree (always_bind.2 ?_)
  refine always_free ho hl (fun v a' h => ?_) herr
  refine always_bind.2 (always_sysFree (always_ensure.2 ?_))
  refine always_free rfl rfl ?_ fun e a' h => by cases h.1.1.choose_spec
  rintro - a'' ⟨⟨-, rfl⟩, -⟩
  refine always_sysFree (always_bind.2 (always_freeAttempt rfl rfl ?_))
  rintro r a''' ⟨⟨⟨u, rfl⟩, rfl⟩, -⟩
  exact hok v _ h

end

/-! ## The contents of a record -/

/-- The pid of an object is one that `int` converts, or none. -/
def IntPid (c : Content) : Prop := ∀ d, c = .doc d → ∃ n, pyInt (d.get "pid").orZero = .ok n

/-- The bytes decode, and no integer literal is over-long. -/
def Content.Readable : Content → Prop
  | .undecodable => False
  | .overlong => False
  | _ => True

/-- What a pass gets through: where it does not want the unit to run, it reads the file. -/
def Passable (want : Bool) (c : Content) : Prop := want = true ∨ (IntPid c ∧ c.Readable)

/-- An object that `json.loads` returns, `json.dumps` encodes: both have the same limit
    for the digits of an integer. -/
def Content.Loaded (c : Content) : Prop := ∀ d, c = .doc d → dumps d = .ok d

/-- Nothing of the files has changed. -/
structure Own.SameFiles (a a' : Own) : Prop where
  pid : a'.pid = a.pid
  state : a'.state = a.state
  ino : a'.ino = a.ino

section
variable {a : Own} {l : Option ℕ} {f : PidFile}

theorem always_signalFree {token pid : Json} : (signalOwned token pid).Always CalmLock Ready
    (fun _ s => a.SameFiles s.1) (fun _ _ => False) (a, l) := by
  have hpop : ∀ (t : String) (a' : Own), a.SameFiles a' →
      ((perform (UnitOp.popHandle t)).bind fun _ => ret false :
      UnitProg Bool).Always CalmLock Ready (fun _ s =>
      a.SameFiles s.1) (fun _ _ => False) (a', l) := by
    intro t a' ha
    refine always_bind.2 (always_free rfl rfl ?_ fun e a'' h => by cases h.1.1)
    rintro - a'' ⟨⟨-, rfl⟩, -⟩
    exact ⟨ha.pid, ha.state, ha.ino⟩
  unfold signalOwned
  split
  · refine always_bind.2 (always_free rfl rfl ?_ fun e a' h => by cases h.1.1)
    rintro h a' ⟨⟨-, rfl⟩, -⟩
    cases h with
    | none => exact ⟨rfl, rfl, rfl⟩
    | some h =>
      dsimp only
      split_ifs
      · refine always_bind.2 (always_free rfl rfl ?_
          fun e a'' h => by obtain ⟨⟨b, hb, -⟩, -⟩ := h; cases hb)
        rintro b a'' ⟨⟨b', -, -, rfl⟩, -⟩
        cases b with
        | true => exact hpop _ _ ⟨rfl, rfl, rfl⟩
        | false =>
          refine always_bind.2 (always_free rfl rfl ?_ fun e a'' h => by cases h.1.1.choose_spec)
          rintro - a'' ⟨⟨-, rfl⟩, -⟩
          exact ⟨rfl, rfl, rfl⟩
      · exact hpop _ _ ⟨rfl, rfl, rfl⟩
  · exact ⟨rfl, rfl, rfl⟩

/-- What `stop` ends with on a regular file: it raises `ProcessTombstoneError` or fails to
    read, and leaves the file; or it has written a new one. -/
structure StopFailure (f : PidFile) (a : Own) (e : Exc) (a' : Own) : Prop where
  state : a'.state = a.state
  kept : IntPid f.content → a'.pid = some f ∧ ∀ d, f.content ≠ .doc d
  replaced : ¬ IntPid f.content → ∃ d synced, a'.pid = some ⟨a.ino, .regular, .doc d, synced⟩
  passed : (∃ msg, e = .tombstone msg) ↔ IntPid f.content ∧ f.content.Readable

theorem always_stopFree (hf : a.pid = some f) (hk : f.kind = .regular) (hload : f.content.Loaded) :
    stop.Always CalmLock Ready (fun _ s => s.1.state = a.state ∧ IntPid f.content ∧
      f.content.Readable ∧ ∃ d synced, f.content = .doc d ∧
      s.1.pid = some ⟨a.ino, .regular, .doc (stoppedRecord d), synced⟩)
      (fun e s => StopFailure f a e s.1) (a, l) := by
  refine always_bind.2 (always_bind.2 (always_freeAttempt rfl rfl fun r a' h => ?_))
  obtain ⟨rfl, rfl⟩ := readPid_calm hf hk h
  have hother : ∀ c, f.content = c → (∀ d, c ≠ .doc d) → IntPid f.content := by
    rintro c rfl hc d hd
    exact absurd hd (hc d)
  cases hcon : f.content with
  | doc d =>
    refine always_bind.2 (always_signalFree.mono (fun _ _ h => h) ?_ fun _ _ h => h.elim)
    rintro signalled ⟨a', l'⟩ ha'
    have hdump : dumps (stoppedRecord d) = .ok (stoppedRecord d) :=
      dumps_update (hload d hcon) (by decide)
    rw [hdump]
    refine always_bind.2 (always_writeFree rfl rfl ?_ ?_)
    · rintro v a'' ⟨⟨hv, -⟩ | ⟨-, -, synced, rfl⟩, -⟩
      · cases hv
      have hpid : IntPid (.doc d) ↔ ∃ n, pyInt (d.get "pid").orZero = .ok n :=
        ⟨fun h => h d rfl, fun h d' hd' => by cases hd'; exact h⟩
      cases hint : pyInt (d.get "pid").orZero with
      | ok n => exact ⟨ha'.state, hpid.2 ⟨n, hint⟩, trivial, d, synced, rfl, by rw [← ha'.ino]⟩
      | error e =>
        have hnot : ¬ IntPid (.doc d) := fun h => by
          obtain ⟨n, hn⟩ := hpid.1 h
          rw [hint] at hn
          cases hn
        refine ⟨ha'.state, fun h => (hnot (hcon ▸ h)).elim, fun _ =>
          ⟨_, synced, by rw [← ha'.ino]⟩, ?_⟩
        rw [hcon]
        exact ⟨fun ⟨msg, he⟩ => (pyInt_error hint msg he).elim, fun h => (hnot h.1).elim⟩
    · rintro e a'' ⟨⟨-, -, f', hf', hd⟩ | ⟨he, -⟩, -⟩
      · rw [ha'.pid, hf] at hf'
        cases hf'
        rw [hk] at hd
        cases hd
      · cases he
  | value v =>
    have hint := hother _ hcon (by simp)
    exact ⟨rfl, fun _ => ⟨hf, by simp [hcon]⟩, fun h => (h hint).elim, fun _ =>
      ⟨hint, hcon ▸ trivial⟩, fun _ => ⟨_, rfl⟩⟩
  | malformed =>
    have hint := hother _ hcon (by simp)
    exact ⟨rfl, fun _ => ⟨hf, by simp [hcon]⟩, fun h => (h hint).elim, fun _ =>
      ⟨hint, hcon ▸ trivial⟩, fun _ => ⟨_, rfl⟩⟩
  | undecodable =>
    have hint := hother _ hcon (by simp)
    refine ⟨rfl, fun _ => ⟨hf, by simp [hcon]⟩, fun h => (h hint).elim, fun ⟨msg, he⟩ =>
      (by cases he), fun h => ?_⟩
    rw [hcon] at h
    exact h.2.elim
  | overlong =>
    have hint := hother _ hcon (by simp)
    refine ⟨rfl, fun _ => ⟨hf, by simp [hcon]⟩, fun h => (h hint).elim, fun ⟨msg, he⟩ =>
      (by cases he), fun h => ?_⟩
    rw [hcon] at h
    exact h.2.elim

/-! ## The pass -/

/-- The outcome reports the tombstone, and the state records it. -/
def Reported (o : ReconcileOutcome) (a : Own) : Prop :=
  o.action = "noop" ∧ o.degradedReason = some tombstoneReason ∧ Recorded o a

theorem always_saveFree {d : Dict} {Q : Unit → Own × Option ℕ → Prop}
    {E : Exc → Own × Option ℕ → Prop} (hd : dumps d = .ok d)
    (hQ : ∀ a', a'.state = some (.doc d) → Q () (a', l)) :
    (saveState (dumps d)).Always CalmLock Ready Q E (a, l) := by
  rw [hd]
  refine always_writeFree rfl rfl ?_ fun e a' h => by cases h.1.1
  rintro v a' ⟨⟨-, rfl⟩, -⟩
  exact hQ _ rfl

theorem dumps_tombstoneState {s : Dict} (hs : dumps s = .ok s) (actual : String) (b : Bool) :
    dumps (tombstoneState s actual b) = .ok (tombstoneState s actual b) := by
  have hmarks := dumps_update
    (l := [("actual", .str actual), ("degraded_reason", .str tombstoneReason),
    ("operator_verification_required", .bool true)]) hs (by simp [Json.digitsOk])
  cases b with
  | false => exact hmarks
  | true => exact dumps_update (l := [("stop_requested", .bool true)]) hmarks (by decide)

/-- The pass over a unit that has a tombstone. -/
theorem always_tombstoneFree {spec : ProcessSpec} {s : Dict} {actual : String} {want : Bool}
    (hs : Numbered s) (hd : dumps s = .ok s) (hf : a.pid = some f) (hk : f.kind = .regular)
    (hload : f.content.Loaded) :
    (tombstonePass spec s actual want).Always CalmLock Ready
      (fun o s' => Passable want f.content ∧ Reported o s'.1)
      (fun _ _ => ¬ Passable want f.content) (a, l) := by
  have hrest : ∀ (b : Bool) (a : Own) (l : Option ℕ), Passable want f.content → (do
      let state := DatasourceKit.tombstoneState s actual b
      saveState (dumps state)
      return ⟨spec.unit, "noop", state.get "desired", actual,
        ← liftExcept (pyInt (state.get "generation")), (state.get "pid").asInt,
        actual = "running", some tombstoneReason⟩ : UnitProg ReconcileOutcome).Always CalmLock Ready
          (fun o s' => Passable want f.content ∧ Reported o s'.1)
              (fun _ _ => ¬ Passable want f.content) (a, l) := by
    intro b a l hpass
    refine always_bind.2 (always_saveFree (dumps_tombstoneState hd actual b) fun a' ha' => ?_)
    obtain ⟨g, hg⟩ := hs.tombstoneState actual b
    rw [hg]
    exact ⟨hpass, rfl, rfl, _, ha', recorded_tombstone rfl rfl hg rfl⟩
  unfold tombstonePass
  cases want with
  | true => exact hrest false a l (.inl rfl)
  | false =>
    refine always_bind.2 (always_handle.2
      (always_bind.2 ((always_stopFree hf hk hload).mono (fun _ _ h => h) ?_ ?_)))
    · rintro r ⟨a', l'⟩ ⟨-, hint, hread, -⟩
      exact hrest r.signalled a' l' (.inr ⟨hint, hread⟩)
    · rintro e ⟨a', l'⟩ he
      have hnot : (∀ msg, e ≠ .tombstone msg) → ¬ Passable false f.content := by
        rintro hne (hw | hp)
        · cases hw
        · obtain ⟨msg, rfl⟩ := he.passed.2 hp
          exact hne msg rfl
      cases e with
      | tombstone msg => exact hrest false a' l' (.inr (he.passed.1 ⟨msg, rfl⟩))
      | _ => exact hnot (by simp)

theorem always_loadFree {unit : String} {Q : Dict → Own × Option ℕ → Prop}
    {E : Exc → Own × Option ℕ → Prop} (ha : StateNumbered a)
    (hQ : Q (stateOf unit a.state) (a, l)) :
    (loadState unit).Always CalmLock Ready Q E (a, l) := by
  refine always_bind.2 (always_bind.2 (always_freeAttempt rfl rfl ?_))
  rintro r a' ⟨⟨rfl, ⟨hs, rfl⟩ | ⟨c, hs, rfl⟩⟩, -⟩ <;> rw [hs] at hQ
  · exact hQ
  · rcases ha with hn | ⟨d, hd, -⟩
    · rw [hs] at hn
      cases hn
    · rw [hs] at hd
      cases hd
      exact hQ

/-- The state that a call works with can be saved. -/
theorem dumps_stateOf {unit : String} (h : ∀ c, a.state = some c → c.Loaded) :
    dumps (stateOf unit a.state) = .ok (stateOf unit a.state) := by
  have hdefault : dumps (defaultState unit) = .ok (defaultState unit) :=
    dumps_update rfl (by simp [Json.digitsOk]; decide)
  have hunit : ∀ d : Dict, dumps d = .ok d →
      dumps (d.set "unit" (.str unit)) = .ok (d.set "unit" (.str unit)) :=
    fun d hd => dumps_update (l := [("unit", .str unit)]) hd (by simp [Json.digitsOk])
  unfold stateOf
  cases hs : a.state.bind Content.asDoc with
  | none => exact hunit _ hdefault
  | some d =>
    obtain ⟨c, hc, hd⟩ := Option.bind_eq_some_iff.1 hs
    cases c <;> cases hd
    have hdumps : dumps d = .ok d := h _ hc d rfl
    refine hunit _ (dumps_update hdefault ?_)
    intro p hp
    obtain ⟨x, hx, rfl⟩ := List.mem_map.1 hp
    exact dumps_iff.1 hdumps x hx

/-- A pass over a unit that has a regular `pid.json`. -/
theorem always_passFree {spec : ProcessSpec} {policy : Dict → Except Exc Bool} (rounds : ℕ)
    {want : Bool} (hf : a.pid = some f) (hk : f.kind = .regular) (hload : f.content.Loaded)
    (ha : StateNumbered a) (hstate : ∀ c, a.state = some c → c.Loaded)
    (hwant : policy (stateOf spec.unit a.state) = .ok want) :
    (reconcileUnit spec policy rounds).Always CalmLock Ready
      (fun o s => Passable want f.content ∧ Reported o s.1)
      (fun _ _ => ¬ Passable want f.content) (a, none) := by
  refine always_lockFree (Q := fun o a => Passable want f.content ∧ Reported o a)
    (E := fun _ _ => ¬ Passable want f.content)
    fun l => always_bind.2 (always_loadFree ha ?_)
  rw [hwant]
  refine always_bind.2 (always_ret.2
    (always_bind.2 (always_bind.2 (always_freeAttempt rfl rfl ?_))))
  rintro r a' ⟨⟨rfl, ⟨hn, -⟩ | ⟨f', -, rfl⟩⟩, -⟩
  · rw [hf] at hn
    cases hn
  obtain ⟨g, hg⟩ := ha.stateOf spec.unit
  have hnum : Numbered ((stateOf spec.unit a'.state).set "actual" (.str "running")) :=
    ⟨g, (Dict.get_set_ne _ _ (by decide)).trans hg⟩
  have hdumps : dumps ((stateOf spec.unit a'.state).set "actual" (.str "running")) = .ok _ :=
    dumps_update (l := [("actual", .str "running")]) (dumps_stateOf hstate) (by decide)
  exact always_tombstoneFree hnum hdumps hf hk hload

end

/-! ## The fleet -/

/-- The steps on the directories of several units. -/
abbrev UnitsProg := Prog (fun o : String × UnitOp => o.2.Val) Exc

/-- A program on the directory of a unit. -/
def inUnit {α : Type} (unit : String) : UnitProg α → UnitsProg α
  | .ret v => .ret v
  | .raise e => .raise e
  | .call o k => .call (unit, o) fun r => inUnit unit (k r)

/-- `_reconcile_all`. -/
def reconcileAll (policy : Dict → Except Exc Bool) (rounds : ℕ) :
    List ProcessSpec → UnitsProg (List ReconcileOutcome)
  | [] => return []
  | spec :: specs => do
    let outcome ← inUnit spec.unit (reconcileUnit spec policy rounds)
    return outcome :: (← reconcileAll policy rounds specs)

/-- The directory of the unit is as before; the handle table and the children, which all
    units share, need not be. -/
structure UnitWorld.SameUnit (w w' : UnitWorld) : Prop where
  pid : w'.pid = w.pid
  state : w'.state = w.state
  lock : w'.lock = w.lock

theorem UnitWorld.SameUnit.trans {w w' w'' : UnitWorld} (h : w.SameUnit w') (h' : w'.SameUnit w'') :
    w.SameUnit w'' :=
  ⟨h'.pid.trans h.pid, h'.state.trans h.state, h'.lock.trans h.lock⟩

/-- Each unit with what a call on it sees. -/
abbrev UnitsWorld := String → UnitWorld

/-- An undisturbed step on the directory of one unit. -/
def UnitsStep (o : String × UnitOp) (W : UnitsWorld) (r : Except Exc o.2.Val)
    (W' : UnitsWorld) : Prop :=
  UnitWorld.Undisturbed o.2 (W o.1) r (W' o.1) ∧ ∀ v ≠ o.1, (W v).SameUnit (W' v)

def UnitsGoOn (o : String × UnitOp) (W : UnitsWorld) : Prop := UnitWorld.CanGoOn o.2 (W o.1)

/-- A call on one unit of a fleet. -/
theorem always_inUnit {α : Type} {unit : String} {p : UnitProg α} {Q : α → UnitWorld → Prop}
    {E : Exc → UnitWorld → Prop} {W₀ W : UnitsWorld} (hW : ∀ v ≠ unit, (W₀ v).SameUnit (W v))
    (h : p.Always UnitWorld.Undisturbed UnitWorld.CanGoOn Q E (W unit)) :
    (inUnit unit p).Always UnitsStep UnitsGoOn
      (fun x W' => Q x (W' unit) ∧ ∀ v ≠ unit, (W₀ v).SameUnit (W' v))
      (fun e W' => E e (W' unit)) W := by
  induction p generalizing W with
  | ret v => exact ⟨h, hW⟩
  | raise e => exact h
  | call o k ih =>
    refine ⟨h.1, fun r W' hstep => ih r (fun v hv => ?_) (h.2 r _ hstep.1)⟩
    exact (hW v hv).trans (hstep.2 v hv)

/-- The tombstone of the unit stops neither the pass over the unit nor those over later
    units, and `stop` raises only with the file as it was. -/
structure Survives (spec : ProcessSpec) (policy : Dict → Except Exc Bool) (rounds : ℕ)
    (w : UnitWorld) : Prop where
  pass : (reconcileUnit spec policy rounds).Always UnitWorld.Undisturbed UnitWorld.CanGoOn
    (fun o w' => Reported o w'.own) (fun _ _ => False) w
  later : ∀ (specs : List ProcessSpec) (W : UnitsWorld)
      (Q : List ReconcileOutcome → UnitsWorld → Prop),
    W spec.unit = w → (∀ W', (∀ v ≠ spec.unit, (W v).SameUnit (W' v)) →
      (reconcileAll policy rounds specs).Always UnitsStep UnitsGoOn Q (fun _ _ => False) W') →
    (reconcileAll policy rounds (spec :: specs)).Always UnitsStep UnitsGoOn
      (fun os W' => ∃ o os', os = o :: os' ∧ o.degradedReason = some tombstoneReason ∧ Q os' W')
        (fun _ _ => False) W
  stop : stop.Always UnitWorld.Undisturbed UnitWorld.CanGoOn (fun _ _ => True)
    (fun _ w' => w'.pid = w.pid) w

/-- A pass that gets through lets the passes over the later units take place. -/
theorem always_later {spec : ProcessSpec} {policy : Dict → Except Exc Bool} {rounds : ℕ}
    {W : UnitsWorld} {specs : List ProcessSpec} {Q : List ReconcileOutcome → UnitsWorld → Prop}
    (hpass : (reconcileUnit spec policy rounds).Always UnitWorld.Undisturbed UnitWorld.CanGoOn
      (fun o w' => Reported o w'.own) (fun _ _ => False) (W spec.unit))
    (hrest : ∀ W', (∀ v ≠ spec.unit, (W v).SameUnit (W' v)) →
      (reconcileAll policy rounds specs).Always UnitsStep UnitsGoOn Q (fun _ _ => False) W') :
    (reconcileAll policy rounds (spec :: specs)).Always UnitsStep UnitsGoOn
      (fun os W' => ∃ o os', os = o :: os' ∧ o.degradedReason = some tombstoneReason ∧
          Q os' W') (fun _ _ => False) W := by
  refine always_bind.2 ((always_inUnit (fun v _ => ⟨rfl, rfl, rfl⟩) hpass).mono (fun _ _ h => h) ?_
    fun _ _ h => h)
  rintro o W' ⟨ho, hW'⟩
  refine always_bind.2 ((hrest W' hW').mono (fun _ _ h => h) (fun os W'' hos => ?_) fun _ _ h => h)
  exact ⟨o, os, rfl, ho.2.1, hos⟩

section
variable {spec : ProcessSpec} {policy : Dict → Except Exc Bool} {rounds : ℕ} {w : UnitWorld}
  {f : PidFile} {want : Bool}

theorem ownLock_of_free (h : w.lock = none) : w.ownLock = (w.own, none) := by
  rw [UnitWorld.ownLock, h]

/-- What a tombstone that is survived must be. -/
theorem Survives.readable (hf : w.pid = some f) (hk : f.kind = .regular) (hino : f.ino < w.ino)
    (hlock : w.lock = none) (hload : f.content.Loaded) (hnum : StateNumbered w.own)
    (hstate : ∀ c, w.state = some c → c.Loaded)
    (hwant : policy (stateOf spec.unit w.state) = .ok want) (h : Survives spec policy rounds w) :
    IntPid f.content ∧ (want = true ∨ f.content.Readable) := by
  have hpass := UnitWorld.always_going (w := w) (ownLock_of_free hlock ▸
    always_passFree rounds (a := w.own) hf hk hload hnum hstate hwant)
  have hstop := UnitWorld.always_going (w := w)
    (ownLock_of_free hlock ▸ always_stopFree (a := w.own) hf hk hload)
  have hgo : ∀ o (w : UnitWorld), UnitWorld.CanGoOn o w →
      ∃ r w', UnitWorld.Undisturbed o w r w' ∧ True :=
    fun o w h => h.imp fun r h => h.imp fun w' h => ⟨h, trivial⟩
  constructor
  · -- a `stop` that raises on another pid has replaced the file
    by_contra hnot
    obtain ⟨_, _, -, hq⟩ | ⟨e, w', hkept, he⟩ :=
      (h.stop.and hstop).exists_end (fun o w _ hg => hgo o w hg.1) trivial
    · exact hnot hq.2.1
    · obtain ⟨d, synced, hd⟩ := he.replaced hnot
      have heq : some f = some (⟨w.ino, .regular, .doc d, synced⟩ : PidFile) :=
        (hkept.trans hf).symm.trans hd
      have := congrArg (Option.map PidFile.ino) heq
      simp only [Option.map_some, Option.some.injEq] at this
      omega
  · obtain ⟨_, _, -, hq⟩ | ⟨_, _, hfalse, -⟩ :=
      (h.pass.and hpass).exists_end (fun o w _ hg => hgo o w hg.1) trivial
    · exact hq.1.imp_right fun h => h.2
    · exact hfalse.elim

/-- **A tombstone is survived exactly if its pid, if it is an object, is one that `int`
    converts, and, if the unit is not wanted, its bytes decode without an over-long
    integer.** -/
theorem survives_iff (hf : w.pid = some f) (hk : f.kind = .regular) (hino : f.ino < w.ino)
    (hlock : w.lock = none) (hload : f.content.Loaded) (hnum : StateNumbered w.own)
    (hstate : ∀ c, w.state = some c → c.Loaded)
    (hwant : policy (stateOf spec.unit w.state) = .ok want) :
    Survives spec policy rounds w ↔ IntPid f.content ∧ (want = true ∨ f.content.Readable) := by
  constructor
  · exact Survives.readable hf hk hino hlock hload hnum hstate hwant
  · rintro ⟨hint, hor⟩
    have hpass := UnitWorld.always_going (w := w) (ownLock_of_free hlock ▸
      always_passFree rounds (a := w.own) hf hk hload hnum hstate hwant)
    have hstop := UnitWorld.always_going (w := w)
      (ownLock_of_free hlock ▸ always_stopFree (a := w.own) hf hk hload)
    have hreport : (reconcileUnit spec policy rounds).Always UnitWorld.Undisturbed UnitWorld.CanGoOn
        (fun o w' => Reported o w'.own) (fun _ _ => False) w :=
      hpass.mono (fun _ _ h => h) (fun _ _ h => h.2) fun _ _ h =>
        h (hor.imp_right fun h => ⟨hint, h⟩)
    refine ⟨hreport, fun specs W Q hW hrest => always_later (hW ▸ hreport) hrest, ?_⟩
    exact hstop.mono (fun _ _ h => h) (fun _ _ _ => trivial) fun e w' he =>
      (he.kept hint).1.trans hf.symm

end

/-- An object with the pid `v`. -/
def pidRecord (v : Json) : Content := .doc (Dict.update ∅ [("pid", v)])

theorem survives_seven :
    Survives consumer (fun _ => .ok false) 1 (.holding (pidRecord (.int 7))) := by
  have hnone : ∀ c, (UnitWorld.holding (pidRecord (.int 7))).state = some c → c.Loaded :=
    fun c hc => nomatch hc
  refine (survives_iff (f := ⟨0, .regular, pidRecord (.int 7), true⟩) rfl rfl (by decide) rfl ?_
    (.inl rfl) hnone rfl).2 ⟨?_, .inr trivial⟩
  · rintro d ⟨⟩
    exact dumps_update rfl (by decide)
  · rintro d ⟨⟩
    exact ⟨7, rfl⟩

/-- **A pid that is no integer stops the fleet**: `stop` raises after it has written the
    file. -/
theorem fleet_stopped :
    ¬ ∀ (spec : ProcessSpec) (policy : Dict → Except Exc Bool) (rounds : ℕ) (w : UnitWorld)
      (f : PidFile) (want : Bool), w.pid = some f → f.kind = .regular → f.ino < w.ino →
      w.lock = none → f.content.Loaded → StateNumbered w.own →
      (∀ c, w.state = some c → c.Loaded) →
        policy (stateOf spec.unit w.state) = .ok want → Survives spec policy rounds w := by
  intro h
  have hload : (pidRecord (.str "x")).Loaded := by
    rintro d ⟨⟩
    exact dumps_update rfl (by decide)
  have hnone : ∀ c, (UnitWorld.holding (pidRecord (.str "x"))).state = some c → c.Loaded :=
    fun c hc => nomatch hc
  have hsurvives := h consumer (fun _ => .ok false) 1 (.holding (pidRecord (.str "x")))
    ⟨0, .regular, pidRecord (.str "x"), true⟩ false rfl rfl (by decide) rfl
      hload (.inl rfl) hnone rfl
  obtain ⟨n, hn⟩ := (hsurvives.readable rfl rfl (by decide) rfl hload (.inl rfl) hnone rfl).1 _ rfl
  have hbad : pyInt (.str "x") = .error (.valueError "invalid literal for int()") := by decide
  rw [show (Dict.get (Dict.update ∅ [("pid", .str "x")]) "pid").orZero =
    .str "x" from rfl, hbad] at hn
  cases hn

end DatasourceKit

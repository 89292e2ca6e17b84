/-
  The run lock of a host: `lock_returned_iff`.

  * `held`: is the lock held after a history?  `LockAnswers`: the answers of a lock;
  * `Tolerated`: the `stopped` event of a run has not raised: neither the clock, nor the
    callback otherwise than by an `Exception`.  The lock is free after a run exactly then;
    `lock_kept`: an event that raises keeps it.
-/
import DatasourceKit.Worker.Telemetry

namespace DatasourceKit

open Interleave Interleave.Prog

section
variable {Obj ε : Type}

/-! ## What a history shows -/

/-- The lock is held. -/
def held : WorkerHist Obj ε → Bool
  | [] => false
  | ⟨.acquire, .ok true⟩ :: _ => true
  | ⟨.release, _⟩ :: _ => false
  | _ :: t => held t

/-- The answers of a lock that no other thread takes. -/
def LockAnswers : (o : WorkerOp Obj ε) → Except (HostExc ε) o.Val → WorkerHist Obj ε → Prop
  | .acquire, r, t => r = .ok !held t
  | .release, r, _ => r = .ok ()
  | _, _, _ => True

/-- The last reading of the clock has raised. -/
def clockFails : WorkerHist Obj ε → Bool
  | [] => false
  | ⟨.now, .ok _⟩ :: _ => false
  | ⟨.now, .error _⟩ :: _ => true
  | _ :: t => clockFails t

/-- Neither the last reading of the clock nor the callback on a `stopped` event raises, except
    that the callback may raise an `Exception`. -/
def Tolerated (h : WorkerHost ε) (t : WorkerHist Obj ε) : Prop :=
  clockFails t = false ∧ ∀ event e, ⟨.heartbeat event, .error e⟩ ∈ t →
    event.state = "stopped" → h.catches e = true

/-- No call finds the lock held. -/
def Admitted (t : WorkerHist Obj ε) : Prop :=
  (⟨.acquire, .ok false⟩ : Event WorkerOp.Val (HostExc ε)) ∉ t

/-- The calls between the lock and the `stopped` event; only a host with a callback reads the
    clock. -/
def WorkerHost.inner (h : WorkerHost ε) : WorkerOp Obj ε → Bool
  | .acquire | .release => false
  | .now => h.heartbeat
  | .heartbeat event => event.state != "stopped"
  | _ => true

variable (h : WorkerHost ε) {v : Loop Obj}

/-! ## The calls of a run -/

theorem inner_emit {state : String} {error : Option (HostExc ε)} {retryIn : Option ℚ}
    (hs : state ≠ "stopped") :
    (h.emit state v error retryIn).Uses (h.inner · = true) := by
  unfold WorkerHost.emit
  split_ifs with hb
  · trivial
  rw [Bool.not_eq_true', Bool.not_eq_false] at hb
  refine Uses.bind (uses_perform (o := WorkerOp.now) hb) fun timestamp =>
    Uses.bind ?_ fun text => ?_
  · cases error with
    | none => trivial
    | some e => exact uses_perform (o := WorkerOp.describe e) rfl
  · refine Uses.handle (uses_perform (o := WorkerOp.heartbeat _) (bne_iff_ne.2 hs)) fun e => ?_
    split_ifs <;> trivial

theorem inner_wait {seconds : ℚ} :
    (h.wait seconds : WorkerProg Obj ε Unit).Uses (h.inner · = true) := by
  unfold WorkerHost.wait
  split_ifs
  · exact uses_perform (o := WorkerOp.stopWait seconds) rfl
  · refine Uses.bind (uses_perform (o := WorkerOp.isSet) rfl) fun b => ?_
    split_ifs
    · exact uses_perform (o := WorkerOp.sleep seconds) rfl
    · trivial

theorem inner_planStage : (WorkerHost.planStage (ε := ε) v).Uses (h.inner · = true) := by
  refine Uses.bind (uses_perform (o := WorkerOp.plan _) rfl) fun planned => ?_
  split <;> trivial

theorem inner_resultStage {y p : Obj} {legacy : Option Obj} :
    (WorkerHost.resultStage (ε := ε) y p legacy).Uses (h.inner · = true) := by
  refine Uses.bind (uses_perform (o := WorkerOp.hasOutput) rfl) fun b => ?_
  split_ifs
  · refine Uses.bind (uses_perform (o := WorkerOp.output y p) rfl) fun output => ?_
    cases output with
    | none => trivial
    | some output =>
      dsimp only
      split_ifs
      · trivial
      · cases output.directive with
        | none => trivial
        | some directive => exact Uses.bind (uses_perform (o := WorkerOp.persist _ _) rfl) fun _ =>
          trivial
  · refine Uses.bind (uses_perform (o := WorkerOp.persist _ _) rfl) fun _ =>
        Uses.bind (uses_perform (o := WorkerOp.hasCheckpoint) rfl) fun b => ?_
    split_ifs
    · exact Uses.bind (uses_perform (o := WorkerOp.checkpoint _ _) rfl) fun _ => trivial
    · cases legacy <;> trivial

theorem inner_workStage {p : Obj} {legacy : Option Obj} :
    (h.workStage v p legacy).Uses (h.inner · = true) :=
  (inner_emit h (by decide)).bind fun _ =>
    Uses.bind (uses_perform (o := WorkerOp.fetch _) rfl) fun _ =>
    Uses.bind (uses_perform (o := WorkerOp.transform _ _) rfl) fun _ =>
      (inner_resultStage h).bind fun _ =>
      Uses.bind (uses_perform (o := WorkerOp.save _) rfl) fun _ => trivial

theorem inner_afterCommit {directive : WorkDirective} :
    (h.afterCommit v directive).Uses (h.inner · = true) := by
  refine (inner_emit h (by decide)).bind fun _ => ?_
  cases directive with
  | stop => trivial
  | cont => trivial
  | idle => exact (inner_emit h (by decide)).bind fun _ => (inner_wait h).bind fun _ => trivial

theorem inner_failed {e : HostExc ε} : (h.failed v e).Uses (h.inner · = true) := by
  unfold WorkerHost.failed
  split_ifs
  · trivial
  dsimp only
  split_ifs
  · refine (inner_emit h (by decide)).catching.bind fun r => ?_
    cases r <;> trivial
  · refine (Uses.catching (Uses.bind ?_ fun _ => (inner_emit h (by decide)).bind fun _ =>
        inner_wait h)).bind fun r =>
        ?_
    · cases h.backoff.delay (v.consecutive + 1) <;> trivial
    · cases r <;> trivial

theorem inner_iteration : (h.iteration v).Uses (h.inner · = true) := by
  refine (inner_planStage h).catching.bind fun r => ?_
  match r with
  | .error e => exact inner_failed h
  | .ok .stop => trivial
  | .ok .idle =>
    refine (Uses.catching ((inner_emit h (by decide)).bind fun _ => inner_wait h)).bind fun r => ?_
    cases r with
    | ok _ => trivial
    | error e => exact inner_failed h
  | .ok (.work p legacy) =>
    refine (inner_workStage h).catching.bind fun r => ?_
    match r with
    | .error e => exact inner_failed h
    | .ok (c, directive) =>
      refine (inner_afterCommit h).catching.bind fun r => ?_
      match r with
      | .error e => exact inner_failed h
      | .ok true => trivial
      | .ok false => trivial

theorem inner_round {maxIterations : Option ℤ} :
    (h.round maxIterations v).Uses (h.inner · = true) := by
  refine Uses.bind (Uses.catching (uses_perform (o := WorkerOp.isSet) rfl)) fun r => ?_
  match r with
  | .error e => trivial
  | .ok true => trivial
  | .ok false =>
    dsimp only
    split_ifs
    · exact inner_iteration h
    · trivial

theorem noRaise_failed {e : HostExc ε} : (h.failed v e).NoRaise := by
  unfold WorkerHost.failed
  split_ifs
  · trivial
  dsimp only
  split_ifs
  · refine noRaise_caught fun r => ?_
    cases r <;> trivial
  · refine noRaise_caught fun r => ?_
    cases r <;> trivial

theorem noRaise_iteration : (h.iteration v).NoRaise := by
  refine noRaise_caught fun r => ?_
  match r with
  | .error e => exact noRaise_failed h
  | .ok .stop => trivial
  | .ok .idle =>
    refine noRaise_caught fun r => ?_
    cases r with
    | ok _ => trivial
    | error e => exact noRaise_failed h
  | .ok (.work p legacy) =>
    refine noRaise_caught fun r => ?_
    match r with
    | .error e => exact noRaise_failed h
    | .ok (c, directive) =>
      refine noRaise_caught fun r => ?_
      match r with
      | .error e => exact noRaise_failed h
      | .ok true => trivial
      | .ok false => trivial

/-- A round catches every exception. -/
theorem noRaise_round {maxIterations : Option ℤ} : (h.round maxIterations v).NoRaise := by
  refine noRaise_caught fun r => ?_
  match r with
  | .error e => trivial
  | .ok true => trivial
  | .ok false =>
    dsimp only
    split_ifs
    · exact noRaise_iteration h
    · trivial

/-! ## One run -/

variable {h} {t₀ t t₁ : WorkerHist Obj ε}

/-- The run that has begun after `t₀` holds the lock, and no `stopped` event has been sent. -/
structure Holds (h : WorkerHost ε) (t₀ t : WorkerHist Obj ε) : Prop where
  held : held t = true
  since : ∃ t₁, t = t₁ ++ t₀ ∧ Admitted t₁ ∧ (h.heartbeat = false → clockFails t₁ = false) ∧
    ∀ event e, ⟨.heartbeat event, .error e⟩ ∈ t₁ → event.state ≠ "stopped"

/-- The run that has begun after `t₀` has given the lock back exactly if its `stopped` event was
    tolerated. -/
def GivesBack (h : WorkerHost ε) (t₀ t : WorkerHist Obj ε) : Prop :=
  ∃ t₁, t = t₁ ++ t₀ ∧ Admitted t₁ ∧ (held t = false ↔ Tolerated h t₁)

theorem Holds.inner {o : WorkerOp Obj ε} {r : Except (HostExc ε) o.Val}
    (ho : h.inner o = true) (ht : Holds h t₀ t) :
    Holds h t₀ (⟨o, r⟩ :: t) := by
  obtain ⟨hheld, t₁, rfl, hentry, hclock, hbeat⟩ := ht
  refine ⟨?_, ⟨o, r⟩ :: t₁, rfl, ?_, ?_, ?_⟩
  · cases o <;> first | exact hheld | cases ho
  · rintro hmem
    rcases List.mem_cons.1 hmem with he | hmem
    · cases he
      cases ho
    · exact hentry hmem
  · intro hb
    cases o <;> first | exact hclock hb | skip
    rw [WorkerHost.inner, hb] at ho
    cases ho
  · rintro event e hmem
    rcases List.mem_cons.1 hmem with he | hmem
    · cases he
      exact bne_iff_ne.1 ho
    · exact hbeat event e hmem

/-- What the calls between the lock and the `stopped` event leave. -/
theorem always_inner {α : Type} {p : WorkerProg Obj ε α}
    (hp : p.Uses (h.inner · = true)) (ht : Holds h t₀ t) :
    p.Always (Records LockAnswers) (fun _ _ => True) (fun _ => Holds h t₀)
    (fun _ => Holds h t₀) t :=
  Always.of_uses hp (fun o t ho ht => ⟨trivial, by rintro r _ ⟨-, rfl⟩; exact ht.inner ho⟩) ht

/-- The `stopped` event has raised. -/
theorem Holds.keeps (ht : Holds h t₀ t) {e : Event WorkerOp.Val (HostExc ε)} {t' : WorkerHist Obj ε}
    (ht' : t' = e :: t) (hheld : DatasourceKit.held t' = true) (hentry : ∀ r, e ≠ ⟨.acquire, r⟩)
    (hraise : ∀ t₁, ¬ Tolerated h (e :: t₁)) : GivesBack h t₀ t' := by
  obtain ⟨-, t₁, rfl, hentry', -⟩ := ht
  subst ht'
  refine ⟨e :: t₁, rfl, ?_, ?_⟩
  · rintro hmem
    rcases List.mem_cons.1 hmem with he | hmem
    · exact hentry _ he.symm
    · exact hentry' hmem
  · rw [hheld]
    exact ⟨fun h => (by cases h), fun h => absurd h (hraise t₁)⟩

theorem givesBack_of_release (ht : t = t₁ ++ t₀) (hentry : Admitted t₁) (htol : Tolerated h t₁) :
    GivesBack h t₀ (⟨.release, .ok ()⟩ :: t) := by
  subst ht
  refine ⟨⟨.release, .ok ()⟩ :: t₁, rfl, ?_, ⟨fun _ => ⟨htol.1, ?_⟩, fun _ => rfl⟩⟩
  · rintro hmem
    rcases List.mem_cons.1 hmem with he | hmem
    · cases he
    · exact hentry hmem
  · intro event e hmem
    rcases List.mem_cons.1 hmem with he | hmem
    · cases he
    · exact htol.2 event e hmem

/-- The `finally` block, before what the run returns or raises. -/
theorem always_stopped {v : Loop Obj} {q : WorkerProg Obj ε (Option (WorkerRun Obj))}
    (ht : Holds h t₀ t) (hq : ∀ t, GivesBack h t₀ t →
      q.Always (Records LockAnswers) (fun _ _ => True) (fun _ => GivesBack h t₀)
      (fun _ => GivesBack h t₀) t) :
    ((h.emit "stopped" v none none).bind fun _ => (perform WorkerOp.release).bind fun _ => q).Always
      (Records LockAnswers) (fun _ _ => True) (fun _ => GivesBack h t₀)
      (fun _ => GivesBack h t₀) t := by
  have hrest : ∀ t, GivesBack h t₀ (⟨.release, .ok ()⟩ :: t) →
      ((perform WorkerOp.release).bind fun _ => q).Always (Records LockAnswers) (fun _ _ => True)
      (fun _ => GivesBack h t₀) (fun _ => GivesBack h t₀) t := fun t ht =>
    always_bind.2 (always_event trivial (fun _ _ => hq _ ht) fun _ he => by cases he)
  have hsince := ht.since
  obtain ⟨t₁, hsplit, hentry, hclock, hbeat⟩ := hsince
  refine always_bind.2 ?_
  unfold WorkerHost.emit
  split_ifs with hb
  · -- no callback: the release is the next call
    rw [Bool.not_eq_true'] at hb
    exact hrest t (givesBack_of_release hsplit hentry ⟨hclock hb, fun event e hmem hs =>
        absurd hs (hbeat event e hmem)⟩)
  rw [Bool.not_eq_true', Bool.not_eq_false] at hb
  refine always_bind.2 (always_event trivial (fun time _ => ?_) fun e _ => ?_)
  swap
  · exact ht.keeps rfl ht.held (fun r he => by cases he) fun t₁ htol => by cases htol.1
  refine always_bind.2 (always_ret.2 (always_handle.2 ?_))
  have hnow : Holds h t₀ (⟨.now, .ok time⟩ :: t) := ht.inner (o := .now) hb
  have hentry' : ∀ r, Admitted
      (⟨.heartbeat ⟨"stopped", time, v.checkpoint, v.completed, v.failures, v.consecutive,
      "", none⟩, r⟩ :: ⟨.now, .ok time⟩ :: t₁) := by
    rintro r hmem
    rcases List.mem_cons.1 hmem with he | hmem
    · cases he
    · rcases List.mem_cons.1 hmem with he | hmem
      · cases he
      · exact hentry hmem
  have htol : ∀ r, (∀ x, r = .error x → h.catches x = true) →
      Tolerated h (⟨.heartbeat ⟨"stopped", time, v.checkpoint,
      v.completed, v.failures, v.consecutive, "", none⟩, r⟩ :: ⟨.now, .ok time⟩ :: t₁) := by
    intro r hr
    refine ⟨rfl, fun event x hmem hs => ?_⟩
    rcases List.mem_cons.1 hmem with he | hmem
    · cases he
      exact hr x rfl
    · rcases List.mem_cons.1 hmem with he | hmem
      · cases he
      · exact absurd hs (hbeat event x hmem)
  refine always_event (G := fun _ _ => True) trivial (fun u _ => ?_) fun x _ => ?_
  · refine hrest _ (givesBack_of_release ?_ (hentry' (.ok u))
      (htol (.ok u) fun x hx => by cases hx))
    rw [hsplit]
    rfl
  · split_ifs with hx
    · refine hrest _ (givesBack_of_release ?_ (hentry' (.error x))
        (htol (.error x) fun x' hx' => ?_))
      · rw [hsplit]
        rfl
      · cases hx'
        exact hx
    · exact hnow.keeps rfl hnow.held (fun r he => by cases he)
        fun t₁ htol => hx (htol.2 _ x (List.mem_cons_self ..) rfl)

theorem always_giveBack {e : LoopEnd Obj ε} (ht : Holds h t₀ t) :
    (h.finish e).Always (Records LockAnswers) (fun _ _ => True) (fun _ => GivesBack h t₀)
      (fun _ => GivesBack h t₀) t := by
  refine always_stopped ht fun t ht => ?_
  obtain ⟨v, r⟩ := e
  cases r with
  | ok _ => exact ht
  | error e => exact ht

theorem always_serve {maxIterations : Option ℤ} {rounds : ℕ} {v : Loop Obj} (ht : Holds h t₀ t) :
    (h.serve maxIterations rounds v).Always (Records LockAnswers) (fun _ _ => True)
      (fun w t => w.isSome → GivesBack h t₀ t) (fun _ => GivesBack h t₀) t := by
  have hfinish : ∀ e t, Holds h t₀ t → (h.finish e).Always (Records LockAnswers) (fun _ _ => True)
      (fun w t => w.isSome → GivesBack h t₀ t) (fun _ => GivesBack h t₀) t := fun e t ht =>
    (always_giveBack ht).mono (fun _ _ h => h) (fun _ _ h _ => h) fun _ _ h => h
  refine always_bind.2 (always_catching.2
    ((always_inner (inner_emit h (by decide)) ht).mono (fun _ _ h => h) ?_ ?_))
  · intro _ t ht
    have hloop : (iterate (h.round maxIterations) rounds v).Always (Records LockAnswers)
        (fun _ _ => True) (fun _ => Holds h t₀) (fun _ _ => False) t := by
      refine always_iterate (I := fun _ => Holds h t₀) (fun v t ht => ?_) (fun _ _ ht => ht) ht
      refine ((always_inner (inner_round h) ht).noRaise (noRaise_round h)).mono (fun _ _ h => h)
        (fun x t ht => ?_) fun _ _ h => h
      cases x with
      | inl v' => exact ht
      | inr e => exact ht
    refine always_bind.2 (hloop.mono (fun _ _ h => h) (fun x t ht => ?_) fun e t ht => ht.elim)
    cases x with
    | none => exact fun hn => by cases hn
    | some e => exact hfinish e t ht
  · intro e t ht
    exact hfinish _ _ ht

theorem always_lockedRun [Inhabited Obj] {maxIterations : Option ℤ} {rounds : ℕ}
    (hfree : held t₀ = false) :
    (h.run maxIterations rounds : WorkerProg Obj ε (Option (WorkerRun Obj))).Always
    (Records LockAnswers) (fun _ _ => True)
      (fun w t => w.isSome → GivesBack h t₀ t) (fun _ => GivesBack h t₀) t₀ := by
  have hself : GivesBack h t₀ t₀ := by
    refine ⟨[], rfl, fun hmem => (by cases hmem),
      ⟨fun _ => ⟨rfl, fun _ _ hmem => ?_⟩, fun _ => hfree⟩⟩
    cases hmem
  unfold WorkerHost.run
  split_ifs
  · exact hself
  refine always_bind.2 (always_event trivial (fun b hb => ?_) fun e he => by cases he)
  obtain rfl : b = true := by
    rw [LockAnswers, hfree] at hb
    exact Except.ok.inj hb
  have hholds : Holds h t₀ (⟨.acquire, .ok true⟩ :: t₀) := by
    refine ⟨rfl, [⟨.acquire, .ok true⟩], rfl, ?_, fun _ => rfl, ?_⟩
    · rintro hmem
      cases List.mem_singleton.1 hmem
    · rintro event e hmem
      cases List.mem_singleton.1 hmem
  refine always_bind.2 (always_catching.2 (always_event trivial (fun c _ => ?_) fun e _ => ?_))
  · exact always_serve (hholds.inner rfl)
  · exact (always_giveBack (hholds.inner rfl)).mono (fun _ _ h => h) (fun _ _ h _ => h)
      fun _ _ h => h

/-- The run has ended. -/
def HasEnded {α : Type} : WorkerProg Obj ε (Option α) → Prop
  | .ret w => w.isSome
  | .raise _ => True
  | .call _ _ => False

theorem run_givesBack [Inhabited Obj] {maxIterations : Option ℤ} {rounds : ℕ}
    {p : WorkerProg Obj ε (Option (WorkerRun Obj))} (hfree : held t₀ = false)
    (hr : Reaches LockAnswers (h.run maxIterations rounds) t₀ (t₁ ++ t₀) p) (hend : HasEnded p) :
    Admitted t₁ ∧ (held (t₁ ++ t₀) = false ↔ Tolerated h t₁) := by
  have hp := (always_lockedRun hfree).reaches hr
  have hback : GivesBack h t₀ (t₁ ++ t₀) := by
    cases p with
    | ret w => exact hp hend
    | raise e => exact hp
    | call o k => exact hend.elim
  obtain ⟨t₂, ht, hentry, hiff⟩ := hback
  obtain rfl := List.append_cancel_right ht
  exact ⟨hentry, hiff⟩

/-- Runs of the host, one after the other, each to its end and with a tolerated `stopped`
    event. -/
inductive Served [Inhabited Obj] (h : WorkerHost ε) : WorkerHist Obj ε → Prop
  | nil : Served h []
  | run {t₀ t₁ maxIterations rounds} {p : WorkerProg Obj ε (Option (WorkerRun Obj))} : Served h t₀ →
      Reaches LockAnswers (h.run maxIterations rounds) t₀ (t₁ ++ t₀) p → HasEnded p →
        Tolerated h t₁ → Served h (t₁ ++ t₀)

/-- **The run lock is given back** by a run exactly if its `stopped` event is tolerated; after
    any number of such runs the lock is free, and none of them was turned away. -/
theorem lock_returned_iff [Inhabited Obj] (h : WorkerHost ε) :
    (∀ (t₀ t₁ : WorkerHist Obj ε) (maxIterations : Option ℤ) (rounds : ℕ)
      (p : WorkerProg Obj ε (Option (WorkerRun Obj))),
      held t₀ = false → Reaches LockAnswers (h.run maxIterations rounds) t₀ (t₁ ++ t₀) p →
      HasEnded p → (held (t₁ ++ t₀) = false ↔ Tolerated h t₁)) ∧
    ∀ t : WorkerHist Obj ε, Served h t → held t = false ∧ Admitted t := by
  refine ⟨fun t₀ t₁ maxIterations rounds p hfree hr hend =>
    (run_givesBack hfree hr hend).2, fun t ht => ?_⟩
  induction ht with
  | nil => exact ⟨rfl, fun hmem => by cases hmem⟩
  | run _ hr hend htol ih =>
    obtain ⟨hentry, hiff⟩ := run_givesBack ih.1 hr hend
    refine ⟨hiff.2 htol, fun hmem => ?_⟩
    rcases List.mem_append.1 hmem with hmem | hmem
    · exact hentry hmem
    · exact ih.2 hmem

end

/-- An intent that works once, a lock, and a clock that works or not. -/
def clocked (works : Bool) : (o : WorkerOp ℕ Unit) → WorkerHist ℕ Unit → Except (HostExc Unit) o.Val
  | .acquire, t => .ok !held t
  | .release, _ => .ok ()
  | .now, _ => if works then .ok "" else .error (.consumer ())
  | o, t => workOnce o t

theorem clocked_env (works : Bool) (o : WorkerOp ℕ Unit) (t : WorkerHist ℕ Unit) :
    LockAnswers o (clocked works o t) t := by
  cases o <;> first | rfl | trivial

/-- A host with a callback. -/
def watched : WorkerHost Unit := { plainHost with heartbeat := true }

/-- The run of a host with a callback. -/
theorem lock_returned_run : ∃ t : WorkerHist ℕ Unit,
    Reaches LockAnswers (watched.run none 3) [] (t ++ []) (.ret (some ⟨1, 1, 0, 2⟩)) ∧
    held (t ++ []) = false := by
  have hr : Reaches LockAnswers (watched.run none 3) []
      (((watched.run none 3).exec (clocked true) []).2 ++ []) (.ret (some ⟨1, 1, 0, 2⟩)) := by
    rw [List.append_nil]
    exact exec_reaches (clocked true) (clocked_env true) (watched.run none 3) []
  refine ⟨_, hr, ((lock_returned_iff watched).1 [] _ none 3 _ rfl hr rfl).2 ⟨rfl, ?_⟩⟩
  have htells : ∀ (o : WorkerOp ℕ Unit) t, o.isTelemetry = true →
      watched.Tells o (clocked true o t) := by
    intro o t ho
    cases o <;> first | exact ⟨_, rfl⟩ | trivial
  have hall : ∀ e ∈ ((watched.run none 3).exec (clocked true) []).2,
      WorkerOp.isTelemetry e.1 = true → watched.Tells e.1 e.2 :=
    exec_answers (clocked true) htells _
  exact fun event e hmem _ => hall _ hmem rfl

/-- **The lock can be kept**: the clock fails, and with it the `stopped` event. -/
theorem lock_kept : ¬ ∀ (h : WorkerHost Unit) (t : WorkerHist ℕ Unit) (maxIterations : Option ℤ)
    (rounds : ℕ) (p : WorkerProg ℕ Unit (Option (WorkerRun ℕ))),
    Reaches LockAnswers (h.run maxIterations rounds) [] t p → HasEnded p → held t = false := by
  intro h
  have hr := exec_reaches (clocked false) (clocked_env false) (watched.run none 3) []
  have hkept : held ((watched.run none 3).exec (clocked false) []).2 = true := rfl
  have hfree := h watched _ none 3 _ hr trivial
  rw [hkept] at hfree
  cases hfree

end DatasourceKit

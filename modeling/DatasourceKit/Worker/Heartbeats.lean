/-
  The heartbeats of a run (`WorkerHost.run`, `WorkerHost._emit`, `WorkerHeartbeat`).

  * `comesAfter`, `Follows`: which beat may come after which, and how their counters go on;
    `Lifecycle`: a series of beats that keeps to it;
  * `Pulse`: the last beat and the content of the store, and what a call does to them;
  * `heartbeat_lifecycle`: the beats of a run keep to their lifecycle, each with the
    checkpoint that is stored, and the last one tells what the run returns.
-/
import DatasourceKit.Worker.Telemetry

namespace DatasourceKit

open Interleave Interleave.Prog

/-! ## The lifecycle -/

/-- Between two iterations. -/
def betweenBeats : List String := ["starting", "idle", "checkpointed", "backoff"]

/-- The beats that a beat may come after. -/
def comesAfter (state : String) : List String :=
  if state = "idle" ∨ state = "working" then betweenBeats
  else if state = "checkpointed" then ["working"]
  else if state = "backoff" ∨ state = "failed" then "working" :: betweenBeats
  else if state = "stopped" then "failed" :: "working" :: betweenBeats
  else []

/-- The beats about a failure. -/
def failedBeats : List String := ["backoff", "failed"]

section
variable {Obj ε : Type}

/-- How the failures in a row go on. -/
def Streak (prev b : WorkerHeartbeat Obj) : Prop :=
  if b.state ∈ failedBeats then b.consecutiveFailures = prev.consecutiveFailures + 1
  else if b.state = "checkpointed" ∨ b.state = "idle" then b.consecutiveFailures = 0
  else b.consecutiveFailures = prev.consecutiveFailures ∨ b.state = "stopped" ∧
    b.consecutiveFailures = 0

/-- `b` comes after `prev`. -/
structure Follows (h : WorkerHost ε) (prev b : WorkerHeartbeat Obj) : Prop where
  order : prev.state ∈ comesAfter b.state
  completed : b.completed = prev.completed + if b.state = "checkpointed" then 1 else 0
  failures : b.failures = prev.failures + if b.state ∈ failedBeats then 1 else 0
  streak : Streak prev b
  kept : b.state ≠ "checkpointed" → b.checkpoint = prev.checkpoint
  quiet : b.state ∉ failedBeats → b.error = ""
  limit : b.state ∈ failedBeats →
    (b.state = "failed" ↔ h.backoff.maxConsecutiveFailures.any (· ≤ b.consecutiveFailures) = true)
  retry : b.retryIn = if b.state = "backoff" then
    (h.backoff.delay (ε := ε) b.consecutiveFailures).toOption else none

/-- The first beat: the run starts, or its checkpoint cannot be loaded. -/
structure First (b : WorkerHeartbeat Obj) : Prop where
  order : b.state = "starting" ∨ b.state = "stopped"
  completed : b.completed = 0
  failures : b.failures = 0
  streak : b.consecutiveFailures = 0
  quiet : b.error = ""
  retry : b.retryIn = none

/-- `b` may come after what was the last beat. -/
def Comes (h : WorkerHost ε) : Option (WorkerHeartbeat Obj) → WorkerHeartbeat Obj → Prop
  | none, b => First b
  | some prev, b => Follows h prev b

/-- A series of beats, the last one first. -/
def Lifecycle (h : WorkerHost ε) : List (WorkerHeartbeat Obj) → Prop
  | [] => True
  | b :: bs => Comes h bs.head? b ∧ Lifecycle h bs

/-- The beats of a history, the last one first. -/
def beats : WorkerHist Obj ε → List (WorkerHeartbeat Obj)
  | [] => []
  | ⟨.heartbeat b, _⟩ :: t => b :: beats t
  | _ :: t => beats t

/-! ## What a call does -/

/-- The last beat, and the content of the store. -/
structure Pulse (Obj : Type) where
  last : Option (WorkerHeartbeat Obj)
  store : Obj

/-- What the history shows of it. -/
def pulse (c₀ : Obj) (t : WorkerHist Obj ε) : Pulse Obj := ⟨(beats t).head?, content c₀ t⟩

/-- What a call does; the telemetry answers, and the store its content. -/
def PulseStep (h : WorkerHost ε) : (o : WorkerOp Obj ε) → Pulse Obj →
    Except (HostExc ε) o.Val → Pulse Obj → Prop
  | .load, l, .ok c, l' => c = l.store ∧ l' = l
  | .save c, l, .ok _, l' => l' = { l with store := c }
  | .heartbeat b, l, r, l' => h.Tells (.heartbeat b) r ∧ l' = { l with last := some b }
  | o, l, r, l' => h.Tells o r ∧ l' = l

/-- When a beat is sent. -/
def PulseGuard (h : WorkerHost ε) : WorkerOp Obj ε → Pulse Obj → Prop
  | .heartbeat b, l => Comes h l.last b ∧
    (b.checkpoint = l.store ∨ l.last = none ∧ b.state = "stopped")
  | _, _ => True

/-- The call sends no beat, and does not store. -/
def WorkerOp.isStill : WorkerOp Obj ε → Bool
  | .heartbeat _ | .save _ => false
  | _ => true

theorem pulseStep_still {h : WorkerHost ε} {o : WorkerOp Obj ε} {l l' : Pulse Obj}
    {r : Except (HostExc ε) o.Val} (ho : o.isStill = true)
    (hs : PulseStep h o l r l') : l' = l := by
  cases o with
  | heartbeat b => cases ho
  | save c => cases ho
  | load => cases r <;> exact hs.2
  | _ => exact hs.2

/-- The state of a run with the variables `v`: its last beat is one of `states`, and says so. -/
structure LastBeat (states : List String) (v : Loop Obj) (l : Pulse Obj) : Prop where
  store : l.store = v.checkpoint
  last : ∃ b, l.last = some b ∧ b.state ∈ states ∧ b.checkpoint = v.checkpoint ∧
    b.completed = v.completed ∧ b.failures = v.failures ∧ b.consecutiveFailures = v.consecutive

theorem LastBeat.mono {states states' : List String} {v : Loop Obj} {l : Pulse Obj}
    (h : LastBeat states v l) (hs : ∀ x ∈ states, x ∈ states') : LastBeat states' v l := by
  obtain ⟨hstore, b, hlast, hb, hrest⟩ := h
  exact ⟨hstore, b, hlast, hs _ hb, hrest⟩

variable {h : WorkerHost ε}

/-- The program keeps to the lifecycle. -/
abbrev PulseRun {α : Type} (h : WorkerHost ε) (q : WorkerProg Obj ε α) (Q : α → Pulse Obj → Prop)
    (E : HostExc ε → Pulse Obj → Prop) (l : Pulse Obj) : Prop :=
  q.Always (PulseStep h) (PulseGuard h) Q E l

/-- **Sending a beat** that may come. -/
theorem pulse_emit (hb : h.heartbeat = true) {state : String} {v : Loop Obj}
    {error : Option (HostExc ε)} {retryIn : Option ℚ} {l : Pulse Obj}
    (hcomes : ∀ timestamp text, (error = none → text = "") → Comes h l.last
      ⟨state, timestamp, v.checkpoint, v.completed, v.failures, v.consecutive, text, retryIn⟩)
    (hstore : l.store = v.checkpoint ∨ l.last = none ∧ state = "stopped")
    {E : HostExc ε → Pulse Obj → Prop} :
    PulseRun h (h.emit state v error retryIn)
    (fun _ l' => l'.store = l.store ∧ ∃ b, l'.last = some b ∧ b.state = state ∧
      b.checkpoint = v.checkpoint ∧ b.completed = v.completed ∧ b.failures = v.failures ∧
      b.consecutiveFailures = v.consecutive) E l := by
  have hsend : ∀ timestamp text, (error = none → text = "") → PulseRun h
      (handle (perform (WorkerOp.heartbeat
        ⟨state, timestamp, v.checkpoint, v.completed, v.failures, v.consecutive, text, retryIn⟩))
        (fun e => if h.catches e then ret () else raise e)) (fun _ l' =>
        l'.store = l.store ∧ ∃ b, l'.last = some b ∧ b.state = state ∧ b.checkpoint = v.checkpoint ∧
        b.completed = v.completed ∧ b.failures = v.failures ∧
        b.consecutiveFailures = v.consecutive) E l := by
    intro timestamp text htext
    refine always_handle.2 (always_perform.2
      ⟨⟨hcomes timestamp text htext, hstore.imp_left Eq.symm⟩, ?_, ?_⟩)
    · rintro v' l' ⟨-, rfl⟩
      exact ⟨rfl, _, rfl, rfl, rfl, rfl, rfl, rfl⟩
    · rintro e l' ⟨hcatch, rfl⟩
      rw [if_pos (show h.catches e = true from hcatch)]
      exact ⟨rfl, _, rfl, rfl, rfl, rfl, rfl, rfl⟩
  unfold WorkerHost.emit
  rw [if_neg (by simp [hb])]
  refine always_bind.2 (always_perform.2 ⟨trivial, ?_, ?_⟩)
  · rintro timestamp _ ⟨-, rfl⟩
    cases error with
    | none => exact hsend timestamp "" fun _ => rfl
    | some e =>
      refine always_bind.2 (always_perform.2 ⟨trivial, ?_, ?_⟩)
      · rintro text _ ⟨-, rfl⟩
        exact hsend timestamp text fun he => nomatch he
      · rintro e _ ⟨⟨v, hv⟩, -⟩
        cases hv
  · rintro e _ ⟨⟨v, hv⟩, -⟩
    cases hv

/-- A beat in the course of a run. -/
theorem pulse_beat (hb : h.heartbeat = true) {state : String} {v : Loop Obj}
    {error : Option (HostExc ε)} {retryIn : Option ℚ} {l : Pulse Obj}
    (hstore : l.store = v.checkpoint)
    (hcomes : ∀ timestamp text, (error = none → text = "") → Comes h l.last
      ⟨state, timestamp, v.checkpoint, v.completed, v.failures, v.consecutive, text, retryIn⟩)
    {E : HostExc ε → Pulse Obj → Prop} :
    PulseRun h (h.emit state v error retryIn) (fun _ => LastBeat [state] v) E l := by
  refine Always.mono (fun _ _ h => h) ?_ (fun _ _ h => h) (pulse_emit hb hcomes (.inl hstore))
  rintro - l' ⟨hs, b, hlast, hstate, hrest⟩
  exact ⟨hs.trans hstore, b, hlast, List.mem_singleton.2 hstate, hrest⟩

/-- The program sends no beat, and does not store. -/
abbrev Still {α : Type} (q : WorkerProg Obj ε α) : Prop := q.Uses fun o => WorkerOp.isStill o = true

theorem pulse_still {α : Type} {q : WorkerProg Obj ε α} {Q : α → Pulse Obj → Prop}
    {E : HostExc ε → Pulse Obj → Prop} {l : Pulse Obj} (hq : Still q) (hQ : ∀ a, Q a l)
    (hE : ∀ e, E e l) : PulseRun h q Q E l := by
  have hkeep : PulseRun h q (fun _ l' => l' = l) (fun _ l' => l' = l) l := by
    refine Always.of_uses (J := fun l' => l' = l) hq
      (fun o l' ho hl => ⟨?_, fun r l'' hs => ?_⟩) rfl
    · cases o <;> trivial
    · exact (pulseStep_still ho hs).trans hl
  refine hkeep.mono (fun _ _ h => h) ?_ ?_
  · rintro a _ rfl
    exact hQ a
  · rintro e _ rfl
    exact hE e

theorem Still.bind {α β : Type} {q : WorkerProg Obj ε α} {f : α → WorkerProg Obj ε β} (hq : Still q)
    (hf : ∀ a, Still (f a)) : Still (q.bind f) := Uses.bind hq hf

theorem still_perform {o : WorkerOp Obj ε} (ho : o.isStill = true) :
    Still (perform o) := uses_perform ho

theorem still_wait {seconds : ℚ} : Still (h.wait seconds : WorkerProg Obj ε Unit) :=
  wait_uses (A := fun o => WorkerOp.isStill o = true) h (fun _ => rfl) rfl fun _ => rfl

theorem still_planStage {v : Loop Obj} : Still (WorkerHost.planStage (ε := ε) v) := by
  refine Still.bind (still_perform rfl) fun planned => ?_
  split <;> trivial

theorem still_resultStage {transformed plan : Obj} {legacy : Option Obj} :
    Still (WorkerHost.resultStage (ε := ε) transformed plan legacy) := by
  refine Still.bind (still_perform rfl) fun hasOutput => ?_
  split_ifs
  · refine Still.bind (still_perform rfl) fun output => ?_
    cases output with
    | none => trivial
    | some output =>
      dsimp only
      split_ifs
      · trivial
      · cases output.directive with
        | none => trivial
        | some directive => exact Still.bind (still_perform rfl) fun _ => trivial
  · refine Still.bind (still_perform rfl) fun _ =>
      Still.bind (still_perform rfl) fun hasCheckpoint => ?_
    split_ifs
    · exact Still.bind (still_perform rfl) fun _ => trivial
    · cases legacy <;> trivial

/-! ## A run -/

/-- The states in which a round may end a run. -/
def lastBeats : List String := "failed" :: "working" :: betweenBeats

/-- The run is over with the variables `v`; a planned stop has forgotten the failures in a row. -/
def Over (v : Loop Obj) (l : Pulse Obj) : Prop :=
  ∃ n, LastBeat lastBeats { v with consecutive := n } l ∧ (v.consecutive = n ∨ v.consecutive = 0)

theorem between_last : ∀ x ∈ betweenBeats, x ∈ lastBeats := fun _ hx =>
  List.mem_cons_of_mem _ (List.mem_cons_of_mem _ hx)

theorem LastBeat.over {states : List String} {v : Loop Obj} {l : Pulse Obj}
    (h : LastBeat states v l) (hs : ∀ x ∈ states, x ∈ lastBeats) :
    Over v l := ⟨v.consecutive, h.mono hs, .inl rfl⟩

/-- What a round leaves. -/
def Turned : Loop Obj ⊕ LoopEnd Obj ε → Pulse Obj → Prop
  | .inl v, l => LastBeat betweenBeats v l
  | .inr e, l => Over e.1 l

section
variable {v : Loop Obj} {l : Pulse Obj}

/-- **Work** begins between two iterations. -/
theorem pulse_working (hb : h.heartbeat = true) (hv : LastBeat betweenBeats v l)
    {E : HostExc ε → Pulse Obj → Prop} :
    PulseRun h (h.emit "working" v none none) (fun _ => LastBeat ["working"] v) E l := by
  obtain ⟨hstore, b, hlast, hstate, hc, hd, hf, hk⟩ := hv
  refine pulse_beat hb hstore fun timestamp text htext => ?_
  rw [hlast]
  exact ⟨by simpa [comesAfter] using hstate, by simp [hd], by simp [hf,
    failedBeats], by simp [Streak, failedBeats, hk],
    fun _ => hc.symm, fun _ => htext rfl, by simp [failedBeats], by simp⟩

/-- **Idling** ends the failures in a row. -/
theorem pulse_idle (hb : h.heartbeat = true) (hv : LastBeat betweenBeats v l)
    {E : HostExc ε → Pulse Obj → Prop} :
    PulseRun h (h.emit "idle" { v with consecutive := 0 } none none)
    (fun _ => LastBeat ["idle"] { v with consecutive := 0 }) E l := by
  obtain ⟨hstore, b, hlast, hstate, hc, hd, hf, hk⟩ := hv
  refine pulse_beat (v := { v with consecutive := 0 }) hb hstore fun timestamp text htext => ?_
  rw [hlast]
  exact ⟨by simpa [comesAfter] using hstate, by simp [hd], by simp [hf,
    failedBeats], by simp [Streak, failedBeats],
    fun _ => hc.symm, fun _ => htext rfl, by simp [failedBeats], by simp⟩

/-- **The commit** follows the work. -/
theorem pulse_checkpointed (hb : h.heartbeat = true) {c : Obj} (hv : LastBeat ["working"] v l)
    {E : HostExc ε → Pulse Obj → Prop} :
    PulseRun h (h.emit "checkpointed"
      { v with checkpoint := c, completed := v.completed + 1, consecutive := 0 } none none)
      (fun _ => LastBeat ["checkpointed"]
        { v with checkpoint := c, completed := v.completed + 1, consecutive := 0 })
      E { l with store := c } := by
  obtain ⟨hstore, b, hlast, hstate, hc, hd, hf, hk⟩ := hv
  refine pulse_beat hb rfl fun timestamp text htext => ?_
  rw [show ({ l with store := c } : Pulse Obj).last = some b from hlast]
  exact ⟨by simpa [comesAfter] using hstate, by simp [hd], by simp [hf,
    failedBeats], by simp [Streak, failedBeats],
    fun h => absurd rfl h, fun _ => htext rfl, by simp [failedBeats], by simp⟩

/-- **A failure** counts, and says when it is tried again, or that the limit is reached. -/
theorem pulse_failure (state : String) (retryIn : Option ℚ) (hb : h.heartbeat = true)
    {e : HostExc ε} (hv : LastBeat ("working" :: betweenBeats) v l) (hstate : state ∈ failedBeats)
    (hlimit : state = "failed" ↔
      h.backoff.maxConsecutiveFailures.any (· ≤ v.consecutive + 1) = true)
    (hretry : retryIn = if state = "backoff" then
      (h.backoff.delay (ε := ε) (v.consecutive + 1)).toOption else none)
    {E : HostExc ε → Pulse Obj → Prop} :
    PulseRun h (h.emit state { v with failures := v.failures + 1, consecutive := v.consecutive + 1 }
      (some e) retryIn)
      (fun _ => LastBeat [state]
        { v with failures := v.failures + 1, consecutive := v.consecutive + 1 }) E l := by
  obtain ⟨hstore, b, hlast, hbstate, hc, hd, hf, hk⟩ := hv
  refine pulse_beat (v := { v with failures := v.failures + 1, consecutive := v.consecutive + 1 })
    hb hstore fun timestamp text _ => ?_
  rw [hlast]
  have hnot : state ≠ "checkpointed" ∧ comesAfter state = "working" :: betweenBeats := by
    simp only [failedBeats, List.mem_cons, List.not_mem_nil, or_false] at hstate
    obtain rfl | rfl := hstate <;> simp [comesAfter]
  exact ⟨by rw [hnot.2]; exact hbstate, by simp [hd, hnot.1], by simp [hf, hstate], by simp [Streak,
    hstate, hk],
    fun _ => hc.symm, fun h => absurd hstate h, fun _ => hlimit, hretry⟩

/-- **The end** of a run that has begun. -/
theorem pulse_stopped (hb : h.heartbeat = true) (hv : Over v l) {E : HostExc ε → Pulse Obj → Prop} :
    PulseRun h (h.emit "stopped" v none none) (fun _ => LastBeat ["stopped"] v) E l := by
  obtain ⟨n, ⟨hstore, b, hlast, hstate, hc, hd, hf, hk⟩, hn⟩ := hv
  refine pulse_beat (v := v) hb hstore fun timestamp text htext => ?_
  rw [hlast]
  have hstreak : v.consecutive = b.consecutiveFailures ∨ v.consecutive = 0 :=
    hn.imp_left fun h => h.trans hk.symm
  exact ⟨by simpa [comesAfter, lastBeats] using hstate, by simp [hd], by simp [hf, failedBeats],
    by simpa [Streak, failedBeats] using hstreak, fun _ => hc.symm, fun _ => htext rfl,
    by simp [failedBeats], by simp⟩

/-- **Work**: the beat says so, and what is saved is stored. -/
theorem pulse_workStage (hb : h.heartbeat = true) {plan : Obj} {legacy : Option Obj}
    (hv : LastBeat betweenBeats v l) :
    PulseRun h (h.workStage v plan legacy)
      (fun next l' => ∃ l₁, LastBeat ["working"] v l₁ ∧ l' = { l₁ with store := next.1 })
      (fun _ => LastBeat ["working"] v) l := by
  refine always_bind.2 (Always.mono (fun _ _ h => h) ?_ (fun _ _ h => h) (pulse_working hb hv))
  intro _ l₁ hl₁
  refine always_bind.2 (pulse_still (still_perform rfl) (fun payload => ?_) fun _ => hl₁)
  refine always_bind.2 (pulse_still (still_perform rfl) (fun transformed => ?_) fun _ => hl₁)
  refine always_bind.2 (pulse_still still_resultStage (fun next => ?_) fun _ => hl₁)
  refine always_bind.2 (always_perform.2 ⟨trivial, ?_, ?_⟩)
  · rintro _ l' rfl
    exact ⟨_, hl₁, rfl⟩
  · rintro e l' ⟨-, rfl⟩
    exact hl₁

/-- What follows a commit. -/
theorem pulse_afterCommit (hb : h.heartbeat = true) {c : Obj} {directive : WorkDirective}
    (hv : LastBeat ["working"] v l) :
    PulseRun h (h.afterCommit
      { v with checkpoint := c, completed := v.completed + 1, consecutive := 0 } directive)
      (fun _ => LastBeat betweenBeats
        { v with checkpoint := c, completed := v.completed + 1, consecutive := 0 })
      (fun _ => LastBeat betweenBeats
        { v with checkpoint := c, completed := v.completed + 1, consecutive := 0 })
      { l with store := c } := by
  refine always_bind.2 (Always.mono (fun _ _ h => h) ?_ (fun _ _ h => h) (pulse_checkpointed hb hv))
  intro _ l₁ hl₁
  have hbetween : LastBeat betweenBeats _ _ := hl₁.mono (by simp [betweenBeats])
  cases directive with
  | stop => exact hbetween
  | cont => exact hbetween
  | idle =>
    refine always_bind.2 (Always.mono (fun _ _ h => h) ?_ (fun _ _ h => h) (pulse_idle hb hbetween))
    intro _ l₂ hl₂
    have hidle : LastBeat betweenBeats _ _ := hl₂.mono (by simp [betweenBeats])
    exact always_bind.2 (pulse_still still_wait (fun _ => hidle) fun _ => hidle)

/-- **The handler** counts the failure, and goes on or ends the run. -/
theorem pulse_failed (hb : h.heartbeat = true) {e : HostExc ε}
    (hv : LastBeat ("working" :: betweenBeats) v l) {E : HostExc ε → Pulse Obj → Prop} :
    PulseRun h (h.failed v e) Turned E l := by
  unfold WorkerHost.failed
  split_ifs with hcatch
  · exact hv.over fun _ => List.mem_cons_of_mem _
  dsimp only
  split_ifs with hlimit
  · refine always_bind.2 (always_catching.2 (Always.mono (fun _ _ h => h) ?_ (fun _ _ h => h.elim)
      (pulse_failure "failed" none (E := fun _ _ => False) hb hv (by simp [failedBeats])
        (by simpa using hlimit) (by simp))))
    exact fun _ l' hl' => hl'.over (by simp [lastBeats])
  · obtain ⟨delay, hdelay⟩ : ∃ delay, h.backoff.delay (ε := ε) (v.consecutive + 1) = .ok delay := by
      simp [BackoffPolicy.delay]
    rw [hdelay]
    have hbeat := pulse_failure "backoff" (some delay) (e := e) (E := fun _ _ => False) hb hv
      (by simp [failedBeats]) (by simpa using hlimit) (by simp [hdelay, Except.toOption])
    refine always_bind.2 (always_catching.2 (always_bind.2 (always_bind.2 ?_)))
    refine Always.mono (fun _ _ h => h) ?_ ?_ hbeat
    · intro _ l₁ hl₁
      have hbackoff : LastBeat betweenBeats _ _ := hl₁.mono (by simp [betweenBeats])
      exact pulse_still still_wait (fun _ => hbackoff) fun _ => hbackoff.over between_last
    · exact fun _ _ h => h.elim

/-- **An iteration.** -/
theorem pulse_iteration (hb : h.heartbeat = true) (hv : LastBeat betweenBeats v l)
    {E : HostExc ε → Pulse Obj → Prop} :
    PulseRun h (h.iteration v) Turned E l := by
  have hworking : ∀ {v : Loop Obj} {l}, LastBeat betweenBeats v l →
      LastBeat ("working" :: betweenBeats) v l :=
    fun hv => hv.mono fun _ => List.mem_cons_of_mem _
  refine always_bind.2 (always_catching.2 (pulse_still still_planStage (fun d => ?_) fun e =>
    pulse_failed hb (hworking hv)))
  cases d with
  | stop => exact ⟨v.consecutive, hv.mono between_last, .inr rfl⟩
  | idle =>
    refine always_bind.2 (always_catching.2
      (always_bind.2 (Always.mono (fun _ _ h => h) ?_ (fun _ _ h => h)
      (pulse_idle hb hv))))
    intro _ l₁ hl₁
    have hidle : LastBeat betweenBeats _ _ := hl₁.mono (by simp [betweenBeats])
    exact pulse_still still_wait (fun _ => hidle) fun _ => pulse_failed hb (hworking hidle)
  | work plan legacy =>
    refine always_bind.2 (always_catching.2
      (Always.mono (fun _ _ h => h) ?_ ?_ (pulse_workStage hb hv)))
    · rintro ⟨c, directive⟩ _ ⟨l₁, hl₁, rfl⟩
      refine always_bind.2 (always_catching.2
        (Always.mono (fun _ _ h => h) ?_ ?_ (pulse_afterCommit hb hl₁)))
      · intro stop l₂ hl₂
        cases stop with
        | true => exact hl₂.over between_last
        | false => exact hl₂
      · exact fun _ _ hl₂ => pulse_failed hb (hworking hl₂)
    · exact fun _ _ hl₁ => pulse_failed hb (hl₁.mono (by simp))

/-- **A round.** -/
theorem pulse_round (hb : h.heartbeat = true) {maxIterations : Option ℤ}
    (hv : LastBeat betweenBeats v l) {E : HostExc ε → Pulse Obj → Prop} :
    PulseRun h (h.round maxIterations v) Turned E l := by
  refine always_bind.2 (always_catching.2 (pulse_still (still_perform rfl) (fun b => ?_) fun e =>
    hv.over between_last))
  cases b with
  | true => exact hv.over between_last
  | false =>
    dsimp only
    split_ifs
    · exact pulse_iteration (v := { v with iterations := v.iterations + 1 }) hb ⟨hv.store, hv.last⟩
    · exact hv.over between_last

end

/-- The last beat of a run: it has stopped, and what it returns is what it has told. -/
def Final (w : Option (WorkerRun Obj)) (l : Pulse Obj) : Prop := ∀ w', w = some w' →
  ∃ b, l.last = some b ∧ b.state = "stopped" ∧ b.checkpoint = w'.checkpoint ∧
    b.completed = w'.completed ∧ b.failures = w'.failures

/-- The last beat of a run that raises, if it has sent any. -/
def Silenced (l : Pulse Obj) : Prop := ∀ b, l.last = some b → b.state = "stopped"

/-- **The end**: the last beat is sent, and then the lock released. -/
theorem pulse_finish (hb : h.heartbeat = true) {e : LoopEnd Obj ε} {l : Pulse Obj}
    (hv : Over e.1 l ∨ l.last = none ∧ e.1.completed = 0 ∧ e.1.failures = 0 ∧ e.1.consecutive = 0) :
    PulseRun h (h.finish e) Final (fun _ => Silenced) l := by
  have hemit : PulseRun h (h.emit "stopped" e.1 none none)
      (fun _ l' => ∃ b, l'.last = some b ∧ b.state = "stopped" ∧
      b.checkpoint = e.1.checkpoint ∧ b.completed = e.1.completed ∧
      b.failures = e.1.failures) (fun _ => Silenced) l := by
    rcases hv with hv | ⟨hlast, hd, hf, hk⟩
    · refine Always.mono (fun _ _ h => h) ?_ (fun _ _ h => h) (pulse_stopped hb hv)
      rintro - l' ⟨-, b, hlast, hstate, hc, hd, hf, -⟩
      exact ⟨b, hlast, List.mem_singleton.1 hstate, hc, hd, hf⟩
    · refine Always.mono (fun _ _ h => h) ?_ (fun _ _ h => h)
        (pulse_emit hb (fun timestamp text htext => ?_)
        (.inr ⟨hlast, rfl⟩))
      · rintro - l' ⟨-, b, hlast, hstate, hc, hd, hf, -⟩
        exact ⟨b, hlast, hstate, hc, hd, hf⟩
      · rw [hlast]
        exact ⟨.inr rfl, hd, hf, hk, htext rfl, rfl⟩
  refine always_bind.2 (Always.mono (fun _ _ h => h) ?_ (fun _ _ h => h) hemit)
  rintro _ l' ⟨b, hlast, hstate, hrest⟩
  have hended : Silenced l' := by
    intro b' hb'
    rw [hlast] at hb'
    cases hb'
    exact hstate
  refine always_bind.2 (pulse_still (still_perform rfl) (fun _ => ?_) fun _ => hended)
  obtain ⟨v, r⟩ := e
  cases r with
  | error e => exact hended
  | ok _ =>
    rintro w' ⟨⟩
    exact ⟨b, hlast, hstate, hrest⟩

/-- **A run** sends its beats in order. -/
theorem pulse_run [Inhabited Obj] (hb : h.heartbeat = true) {maxIterations : Option ℤ} {rounds : ℕ}
    {l : Pulse Obj} (hl : l.last = none) :
    PulseRun h (h.run maxIterations rounds : WorkerProg Obj ε (Option (WorkerRun Obj))) Final
    (fun _ => Silenced) l := by
  have hnone : Silenced l := fun b hb => by rw [hl] at hb; cases hb
  unfold WorkerHost.run
  split_ifs
  · exact hnone
  refine always_bind.2 (pulse_still (still_perform rfl) (fun b => ?_) fun _ => hnone)
  split_ifs
  · exact hnone
  refine always_bind.2 (always_catching.2 (always_perform.2 ⟨trivial, ?_, ?_⟩))
  · rintro c l' ⟨hc, rfl⟩
    have hstarting : PulseRun h (h.emit "starting" ({ checkpoint := c } : Loop Obj) none none)
        (fun _ => LastBeat ["starting"] { checkpoint := c }) (fun _ _ => False) l' := by
      refine pulse_beat (v := { checkpoint := c }) hb hc.symm fun timestamp text htext => ?_
      rw [hl]
      exact ⟨.inl rfl, rfl, rfl, rfl, htext rfl, rfl⟩
    refine always_bind.2 (always_catching.2
      (Always.mono (fun _ _ h => h) ?_ (fun _ _ h => h.elim) hstarting))
    intro _ l₁ hl₁
    have hloop : PulseRun h (iterate (h.round maxIterations) rounds { checkpoint := c })
        (fun x l => ∀ e, x = some e → Over e.1 l) (fun _ _ => False) l₁ := by
      refine always_iterate (I := fun v l => LastBeat betweenBeats v l) (fun v l₂ hv => ?_)
        (fun _ _ _ e h => nomatch h) (hl₁.mono (by simp [betweenBeats]))
      refine (pulse_round hb hv).mono (fun _ _ h => h) (fun x l₃ hx => ?_) fun _ _ h => h
      cases x with
      | inl v' => exact hx
      | inr e =>
        rintro _ ⟨⟩
        exact hx
    refine always_bind.2 (Always.mono (fun _ _ h => h) ?_ (fun _ _ h => h.elim) hloop)
    intro x l₂ hx
    cases x with
    | none => exact fun w' h => nomatch h
    | some e => exact pulse_finish hb (.inl (hx e rfl))
  · rintro e l' ⟨-, rfl⟩
    exact pulse_finish hb (.inr ⟨hl, rfl, rfl, rfl⟩)

/-! ## The history -/

/-- The calls of a run move what its history shows as `PulseStep` says. -/
theorem pulseStep_of_env
    {env : (o : WorkerOp Obj ε) → Except (HostExc ε) o.Val → WorkerHist Obj ε → Prop} {c₀ : Obj}
    (henv : ∀ o r t, env o r t → StoreEnv c₀ o r t ∧ h.Tells o r) (o : WorkerOp Obj ε)
    (t : WorkerHist Obj ε) (r : Except (HostExc ε) o.Val) (t' : WorkerHist Obj ε)
    (hs : Records env o t r t') :
    PulseStep h o (pulse c₀ t) r (pulse c₀ t') := by
  obtain ⟨hans, rfl⟩ := hs
  obtain ⟨hstore, htells⟩ := henv o r t hans
  cases o with
  | load =>
    cases r with
    | ok c => exact ⟨hstore, rfl⟩
    | error e => exact ⟨htells, rfl⟩
  | save c =>
    cases r with
    | ok _ => rfl
    | error e => exact ⟨htells, rfl⟩
  | _ => exact ⟨htells, rfl⟩

/-- The beats of a history whose beats could come keep to the lifecycle. -/
theorem lifecycle_of_each {c₀ : Obj} {t : WorkerHist Obj ε}
    (ht : Each (fun o _ t => PulseGuard h o (pulse c₀ t)) t) : Lifecycle h (beats t) := by
  induction t with
  | nil => trivial
  | cons e t ih =>
    obtain ⟨hguard, hrest⟩ := ht
    obtain ⟨o, r⟩ := e
    cases o with
    | heartbeat b => exact ⟨hguard.1, ih hrest⟩
    | _ => exact ih hrest

/-- **The heartbeats of a run**, in an environment whose store loads what was saved last, and in
    which every event can be built and the callback raises nothing but `Exception`s: wherever the
    run has got to, its beats keep to the lifecycle, and each one tells the checkpoint that is
    stored when it is sent, or is the only one of a run that could not load it.  The last beat of
    a run that has ended says `stopped`, and tells what the run returns. -/
theorem heartbeat_lifecycle [Inhabited Obj] {maxIterations : Option ℤ} {rounds : ℕ}
    {env : (o : WorkerOp Obj ε) → Except (HostExc ε) o.Val → WorkerHist Obj ε → Prop} {c₀ : Obj}
    {t : WorkerHist Obj ε} {p : WorkerProg Obj ε (Option (WorkerRun Obj))} (hb : h.heartbeat = true)
    (henv : ∀ o r t, env o r t → StoreEnv c₀ o r t ∧ h.Tells o r)
    (hr : Reaches env (h.run maxIterations rounds) [] t p) :
    Lifecycle h (beats t) ∧
    Each (fun o _ t => ∀ b, o = .heartbeat b → b.checkpoint = content c₀ t ∨
      beats t = [] ∧ b.state = "stopped") t ∧
    (∀ w, p = ret (some w) → ∃ b bs, beats t = b :: bs ∧ b.state = "stopped" ∧
      b.checkpoint = w.checkpoint ∧ b.completed = w.completed ∧ b.failures = w.failures) ∧
    ∀ e, p = raise e → ∀ b bs, beats t = b :: bs → b.state = "stopped" := by
  have hrun : (h.run maxIterations rounds : WorkerProg Obj ε (Option (WorkerRun Obj))).Always
      (Records env) (fun o t => PulseGuard h o (pulse c₀ t)) (fun w t => Final w (pulse c₀ t))
      (fun _ t => Silenced (pulse c₀ t)) [] :=
    Always.of_view (pulseStep_of_env henv) (pulse_run hb rfl)
  have heach : Each (fun o _ t => PulseGuard h o (pulse c₀ t)) t :=
    ((Always.mono (fun _ _ h => h) (fun _ _ _ => trivial) (fun _ _ _ => trivial) hrun).each hr
      trivial).mono
      fun _ _ _ h => h.2
  refine ⟨lifecycle_of_each heach, heach.mono ?_, ?_, ?_⟩
  · rintro _ _ t hguard b rfl
    refine hguard.2.imp_right fun ⟨hlast, hstate⟩ => ⟨?_, hstate⟩
    exact List.head?_eq_none_iff.1 hlast
  · rintro w rfl
    obtain ⟨b, hlast, hrest⟩ := hrun.reaches hr w rfl
    obtain ⟨bs, hbs⟩ := List.head?_eq_some_iff.1 hlast
    exact ⟨b, bs, hbs, hrest⟩
  · rintro e rfl b bs hbs
    have hend : Silenced (pulse c₀ t) := hrun.reaches hr
    exact hend b (by rw [show (pulse c₀ t).last = (beats t).head? from rfl, hbs]; rfl)

end

/-- A run with a failure and a commit, and its beats. -/
theorem heartbeat_lifecycle_run : ∃ (t : WorkerHist ℕ Unit) (w : WorkerRun ℕ),
    Reaches (fun o r t => StoreEnv 0 o r t ∧ beating.Tells o r) (beating.run none 4)
    [] t (.ret (some w)) ∧ w.completed = 1 ∧
    (beats t).map (·.state) =
    ["stopped", "checkpointed", "working", "backoff", "working", "starting"] ∧
    Lifecycle beating (beats t) := by
  have henv : ∀ (o : WorkerOp ℕ Unit) t, StoreEnv 0 o (failOnce o t) t ∧
      beating.Tells o (failOnce o t) := by
    intro o t
    cases o with
    | load => exact ⟨rfl, trivial⟩
    | now => exact ⟨trivial, _, rfl⟩
    | describe e => exact ⟨trivial, _, rfl⟩
    | _ => exact ⟨trivial, trivial⟩
  have hr : Reaches (fun o r t => StoreEnv 0 o r t ∧ beating.Tells o r)
      (beating.run none 4) [] _ _ :=
    exec_reaches failOnce henv (beating.run none 4) []
  exact ⟨_, ⟨1, 1, 1, 3⟩, hr, rfl, by decide, (heartbeat_lifecycle rfl (fun _ _ _ h => h) hr).1⟩

end DatasourceKit

/-
  What each function on a unit does, seen from its own call.

  `UnitOp.ok` says of every operation when the code performs it, in terms of what the
  call has read and done (`Mem`): which state it writes, which record it leaves in
  `pid.json`, what it has verified before it unlinks, launches, acknowledges or
  executes.  `always_code`: every call performs its operations only so, whatever
  they answer.  The invariants of all interleavings are derived from this.
-/
import DatasourceKit.Fleet.UnitWorld

namespace DatasourceKit

open Interleave Interleave.Prog Interleave.Machine

/-! ## When operations are performed -/

/-- The state that a call works with after reading `c` from `state.json`. -/
def stateOf (unit : String) (c : Option Content) : Dict := backfill unit (c.bind Content.asDoc)

/-- The record names the launch. -/
structure Launch.NamedIn (l : Launch) (d : Dict) : Prop where
  unit : d.get "unit" = .str l.unit
  generation : d.get "generation" = generationJson l.generation
  token : d.get "token" = .str l.token

/-- The record of an acknowledged launch whose child has the pid. -/
structure Launch.Provenance (l : Launch) (pid : ℤ) (d : Dict) : Prop extends l.NamedIn d where
  pid : d.get "pid" = .int pid
  status : d.get "status" = .str "running_or_unknown"

/-- What a pass with the state `s` saves. -/
inductive PassWrite (m : Mem) (s : Dict) : Dict → Prop where
  | noop (a : String) : m.kid = none →
    PassWrite m s ((s.set "actual" (.str a)).set "actual" (.str "stopped"))
  | tombstone (a actual : String) (b : Bool) : m.kid = none →
      PassWrite m s (tombstoneState (s.set "actual" (.str a)) actual b)
  | launched (g k pid l a r) : pyInt (s.get "generation") = .ok g → m.kid = some (k, pid, l) →
      l.generation = some (g + 1) →
        PassWrite m s (launchedState (s.set "actual" (.str a)) (g + 1) r)

/-- What a call saves in `state.json`. -/
def StateWrite (unit : String) (m : Mem) (d : Dict) : Prop :=
  match m.call with
  | some (.setDesired v) => ∃ c, m.loaded = some c ∧ d = (stateOf unit c).set "desired" (.str v)
  | some (.heartbeat hb) => ∃ c g, m.loaded = some c ∧ (hb.get "generation").asInt = some g ∧
      pyInt ((stateOf unit c).get "generation") = .ok g ∧
      dumpsWith true (stateOf unit c) (opaqueEntries hb) = .ok d
  | some (.reconcile spec _ _) =>
      m.locked = true ∧ m.saved = false ∧ ∃ c, m.loaded = some c ∧
        PassWrite m (stateOf spec.unit c) d
  | _ => False

/-- The call may launch `l`: a pass with the generation after the one it has read. -/
def LaunchOf (m : Mem) (l : Launch) : Prop :=
  match m.call with
  | some (.spawn spec generation _) => l.unit = spec.unit ∧ l.generation = generation
  | some (.reconcile spec _ _) => m.locked = true ∧ m.saved = false ∧ l.unit = spec.unit ∧
      ∃ c g, m.loaded = some c ∧ pyInt ((stateOf spec.unit c).get "generation") = .ok g ∧
        l.generation = some (g + 1)
  | _ => False

/-- `d` is the encoded intent of a launch with the token. -/
def EncodedIntent (spec : ProcessSpec) (generation : Option ℤ) (token : String) (d : Dict) : Prop :=
  ∃ t, pidPayload spec ⟨0, 0, false, none, none⟩ = .ok t ∧
    launchIntent spec generation token t = .ok d

/-- A call of `spawn` writes the intent of its launch. -/
def IntentOf (m : Mem) (token : String) (d : Dict) : Prop :=
  ∀ spec generation rounds, m.call = some (.spawn spec generation rounds) →
    EncodedIntent spec generation token d

/-- When the code performs an operation. -/
def UnitOp.ok (unit : String) : UnitOp → Mem → Prop
  | .uuid4, m => m.fence = none
  | .flock, m => m.loaded = none ∧ m.pidRead = none
  | .replaceState d, m => StateWrite unit m d
  | .createPid, m => m.fence = none ∧ m.intent = none ∧ m.kid = none ∧ m.record = none
  | .writePid n d, m => m.fence = some n ∧ m.intent = none ∧ m.kid = none ∧ m.record = none ∧
      ∃ l : Launch, m.token = some l.token ∧ l.NamedIn d ∧ IntentOf m l.token d ∧ LaunchOf m l
  | .syncPid n, m => m.fence = some n
  | .popen l, m => m.fence.isSome ∧ m.kid = none ∧ m.record = none ∧ m.sent = [] ∧
      m.token = some l.token ∧ (∃ d, m.intent = some d ∧ l.NamedIn d) ∧ LaunchOf m l
  | .replacePid d, m => m.flushed = true ∧
      ((∃ d₀, m.pidRead = some (.doc d₀) ∧ m.kid = none ∧ d = stoppedRecord d₀ ∧
        ∀ spec generation rounds, m.call ≠ some (.spawn spec generation rounds)) ∨
      ∃ k pid l, m.kid = some (k, pid, l) ∧ m.fence.isSome ∧
      (∃ d₀, m.intent = some d₀ ∧ l.NamedIn d₀) ∧ m.sent = [] ∧
      m.token = some l.token ∧ l.Provenance pid d)
  | .unlinkPid, m => m.locked = true ∧ m.audited = true ∧ m.unlinked = false ∧
      ∃ q d, m.call = some (.clear q) ∧ m.pidRead = some (.doc d) ∧ q.Matches d = true
  | .appendAudit record, m => ∃ q now, m.call = some (.clear q) ∧ record = q.record now
  | .recv k _, m => ∃ pid l, m.kid = some (k, pid, l) ∧ m.sent = []
  | .closeSocket k, m => ∃ pid l, m.kid = some (k, pid, l)
  | .send k b, m => m.sent ++ [b] <+: ack ∧ m.synced = true ∧
      ∃ pid l d, m.kid = some (k, pid, l) ∧ m.record = some d ∧ l.Provenance pid d
  | .gateWrite k _, m => ∃ fuel, m.call = some (.gate k fuel)
  | .gateRead k _, m => ∃ fuel, m.call = some (.gate k fuel)
  | .gateClose k, m => ∃ fuel, m.call = some (.gate k fuel)
  | .execvpe k, m => ∃ fuel, m.call = some (.gate k fuel) ∧ m.got = ack ∧ m.executed = false
  | _, _ => True

/-- The operations of a wrapper. -/
def UnitOp.ofGate : UnitOp → Bool
  | .gateWrite .. | .gateRead .. | .gateClose _ | .execvpe _ => true
  | _ => false

/-- A call performs an operation when `UnitOp.ok`, and a wrapper only its own ones. -/
structure UnitOp.Allowed (unit : String) (o : UnitOp) (m : Mem) : Prop where
  ok : o.ok unit m
  busy : m.call ≠ none
  gate : ∀ k fuel, m.call = some (.gate k fuel) → o.ofGate = true

/-! ## Rules -/

/-- `m'` is the record `m₀` up to the steps on `pid.json` and the launch. -/
structure Mem.Same (m₀ m : Mem) : Prop where
  call : m.call = m₀.call
  locked : m.locked = m₀.locked
  loaded : m.loaded = m₀.loaded
  saved : m.saved = m₀.saved

/-- An exception that is no `ProcessTombstoneError`, where `J` holds. -/
def Err (J : Mem → Prop) (e : Exc) (m : Mem) : Prop := J m ∧ ∀ msg, e ≠ .tombstone msg

/-- The operation keeps `call`, `locked`, `loaded`, `saved`. -/
def UnitOp.isLocal : UnitOp → Bool
  | .flock | .funlock | .closeLock | .readState | .replaceState _ => false
  | _ => true

theorem Mem.Same.refl (m : Mem) : m.Same m := ⟨rfl, rfl, rfl, rfl⟩

theorem Mem.Same.note {m₀ m : Mem} (h : m₀.Same m) {o : UnitOp} (ho : o.isLocal = true)
    (r : Except Exc o.Val) : m₀.Same (m.note o r) := by
  cases o <;> first
    | (cases r <;> exact ⟨h.call, h.locked, h.loaded, h.saved⟩)
    | simp [UnitOp.isLocal] at ho

section
variable {unit : String} {m : Mem} {J : Mem → Prop}

theorem always_op {o : UnitOp} {Q : o.Val → Mem → Prop} {E : Exc → Mem → Prop} (hok : o.ok unit m)
    (hQ : ∀ v, Q v (m.note o (.ok v)))
    (hE : ∀ e m', (∀ msg, e ≠ .tombstone msg) → (m' = m ∨ ∃ r, m' = m.note o r) → E e m') :
    (perform o).Always UnitOp.upd (UnitOp.ok unit) Q E m := by
  refine always_perform.2 ⟨hok, ?_, ?_⟩
  · rintro v m' ⟨-, rfl | ⟨f, hf, -⟩⟩
    · exact hQ v
    · cases hf
  · rintro e m' ⟨ht, h⟩
    refine hE e m' ht.not_tombstone ?_
    rcases h with rfl | ⟨f, -, rfl | ⟨r, rfl⟩⟩
    · exact .inr ⟨_, rfl⟩
    · exact .inl rfl
    · exact .inr ⟨r, rfl⟩

/-- An operation whose step keeps `J`. -/
theorem always_keep {o : UnitOp} {Q : o.Val → Mem → Prop} (hJ : ∀ r, J (m.note o r)) (hm : J m)
    (hok : o.ok unit m) (hQ : ∀ v, Q v (m.note o (.ok v))) :
    (perform o).Always UnitOp.upd (UnitOp.ok unit) Q (Err J) m := by
  refine always_op hok hQ fun e m' he h => ⟨?_, he⟩
  rcases h with rfl | ⟨r, rfl⟩
  · exact hm
  · exact hJ r

/-- An operation on `pid.json` or the launch. -/
theorem always_local {m₀ : Mem} {o : UnitOp} {Q : o.Val → Mem → Prop} (ho : o.isLocal = true)
    (hm : m₀.Same m) (hok : o.ok unit m) (hQ : ∀ v, Q v (m.note o (.ok v))) :
    (perform o).Always UnitOp.upd (UnitOp.ok unit) Q (Err m₀.Same) m :=
  always_keep (fun r => hm.note ho r) hm hok hQ

theorem always_sys {s : Sys} {Q : Unit → Mem → Prop} (hm : J m) (hQ : Q () m) :
    (sys s).Always UnitOp.upd (UnitOp.ok unit) Q (Err J) m :=
  always_keep (fun _ => hm) hm trivial fun _ => hQ

theorem always_liftExcept {α : Type} {x : Except Exc α} {Q : α → Mem → Prop} (hm : J m)
    (hx : ∀ e, x = .error e → ∀ msg, e ≠ .tombstone msg) (hQ : ∀ a, x = .ok a → Q a m) :
    (liftExcept x).Always UnitOp.upd (UnitOp.ok unit) Q (Err J) m := by
  cases x with
  | ok a => exact hQ a rfl
  | error e => exact ⟨hm, hx e rfl⟩

/-- `fin` runs after `p`, however `p` ends. -/
theorem always_finally {α : Type} {p : UnitProg α} {fin : UnitProg Unit} {Q : α → Mem → Prop}
    (hfin : ∀ m (Q : Unit → Mem → Prop), J m → Q () m →
      fin.Always UnitOp.upd (UnitOp.ok unit) Q (Err J) m)
    (h : p.Always UnitOp.upd (UnitOp.ok unit) (fun a m => J m ∧ Q a m) (Err J) m) :
    (p.ensure fin).Always UnitOp.upd (UnitOp.ok unit) Q (Err J) m := by
  refine always_ensure.2 (h.mono (fun _ _ h => h) (fun a m h => ?_) fun e m h => ?_)
  · exact hfin m _ h.1 h.2
  · exact hfin m _ h.1 h

/-- `replace` is performed after the temporary file has been synced. -/
theorem always_writeJsonAtomic {replace : Dict → UnitOp} {encoded : Except Exc Dict}
    {Q : Unit → Mem → Prop} (hm : ∀ b, J { m with flushed := b })
    (henc : ∀ e, encoded = .error e → ∀ msg, e ≠ .tombstone msg)
    (hrep : ∀ d, encoded = .ok d → (replace d).ok unit { m with flushed := true } ∧
      ∀ r, J (({ m with flushed := true } : Mem).note (replace d) r))
    (hsync : ∀ m r, J m → J (m.note .syncDir r))
    (hQ : ∀ d v, encoded = .ok d →
      Q () ((({ m with flushed := true } : Mem).note (replace d) (.ok v)).note .syncDir (.ok ()))) :
    (writeJsonAtomic replace encoded).Always UnitOp.upd (UnitOp.ok unit) Q (Err J) m := by
  have hm₀ : J m := hm m.flushed
  have hwrite : ∀ r, J (m.note .writeTmp r) := fun r => by
    cases r with
    | ok v => exact hm false
    | error e => exact hm₀
  have hflush : ∀ r, J (({ m with flushed := false } : Mem).note .syncTmp r) := fun r => by
    cases r with
    | ok v => exact hm true
    | error e => exact hm false
  refine always_bind.2 (always_sys hm₀ (always_bind.2 (always_liftExcept hm₀ henc fun d hd => ?_)))
  obtain ⟨hok, hJ⟩ := hrep d hd
  refine always_bind.2 (always_sys hm₀ (always_finally (fun m Q hm hQ => ?_) ?_))
  · refine always_bind.2 (always_attempt.2 ⟨trivial, fun r m' hr => ?_⟩)
    have hm' : m' = m := by
      rcases hr.2 with rfl | ⟨f, -, rfl | ⟨r, rfl⟩⟩ <;> rfl
    subst hm'
    split
    · exact hQ
    · exact always_liftExcept hm (fun e he => (he ▸ hr.1).not_tombstone) fun _ _ => hQ
  · refine always_bind.2 (always_keep hwrite hm₀ trivial fun _ => always_bind.2
      (always_keep hflush (hm false) trivial fun _ => ?_))
    refine always_bind.2 (always_keep hJ (hm true) hok fun v =>
      always_bind.2 (always_sys (hJ _) ?_))
    refine always_finally (fun m Q hm hQ => always_sys hm hQ) ?_
    refine always_keep (fun r => hsync _ _ (hJ _)) (hJ _) trivial fun _ => ⟨hsync _ _ (hJ _), ?_⟩
    exact ⟨hsync _ _ (hJ _), hQ d v hd⟩

end

/-! ## Records -/

theorem PidTemplate.dump_error {t : PidTemplate} {fields : List (String × Json)} {e : Exc}
    (h : t.dump fields = .error e) (msg : String) : e ≠ .tombstone msg := by
  simp only [PidTemplate.dump] at h
  cases hd : dumpsWith true t.base _ with
  | error e' => rw [hd] at h; cases h; exact dumpsWith_error hd msg
  | ok d => rw [hd] at h; exact dumps_error h msg

/-- A record of `spawn` names its launch. -/
theorem PidTemplate.get_dump {t : PidTemplate} {pid started : Json} {unit token status : String}
    {generation : Option ℤ} {d : Dict}
    (h : t.dump (launchFields pid started unit generation token status) = .ok d) :
    d.get "pid" = pid ∧ d.get "unit" = .str unit ∧ d.get "generation" = generationJson generation ∧
      d.get "token" = .str token ∧ d.get "status" = .str status := by
  simp only [PidTemplate.dump] at h
  cases hd : dumpsWith true t.base _ with
  | error e' => rw [hd] at h; cases h
  | ok d' =>
    rw [hd] at h
    rw [dumps_ok h]
    simp [launchFields, Dict.update, Dict.get_set_ne]

theorem pidPayload_error {spec : ProcessSpec} {r : SpawnResult} {e : Exc}
    (h : pidPayload spec r = .error e) (msg : String) : e ≠ .tombstone msg := by
  simp only [pidPayload] at h
  split_ifs at h
  · cases h; simp
  · cases hd : dumpsWith false _ spec.pidMetadata with
    | error e' => rw [hd] at h; cases h; exact dumpsWith_error hd msg
    | ok d => rw [hd] at h; cases h

/-! ## The functions on `pid.json` -/

section
variable {unit : String} {m : Mem}

/-- Reading `pid.json` gives the object in it. -/
theorem always_readPid {Q : Option Dict → Mem → Prop} {J : Mem → Prop}
    (hJ : ∀ c, J { m with pidRead := c }) (hm : J m)
    (hsome : ∀ d, Q (some d) { m with pidRead := some (.doc d) })
    (hnone : ∀ c, Q none { m with pidRead := c }) :
    (readJson (attempt UnitOp.readPid)).Always UnitOp.upd (UnitOp.ok unit) Q (fun _ => J) m := by
  have hcase : ∀ r m', UnitOp.readPid.upd m r m' → (∃ c, m' = { m with pidRead := c }) ∧
      ∀ d, r = .ok (.doc d) → m' = { m with pidRead := some (.doc d) } := by
    rintro r m' ⟨-, rfl | ⟨f, rfl, rfl | ⟨r', rfl⟩⟩⟩
    · refine ⟨?_, fun d hd => by rw [hd]; rfl⟩
      cases r with
      | ok c => exact ⟨some c, rfl⟩
      | error e => exact ⟨none, rfl⟩
    · exact ⟨⟨m'.pidRead, rfl⟩, fun d hd => by cases hd⟩
    · refine ⟨?_, fun d hd => by cases hd⟩
      cases r' with
      | ok c => exact ⟨some c, rfl⟩
      | error e => exact ⟨none, rfl⟩
  refine always_readJson (always_attempt.2 ⟨trivial, fun r m' hr => ?_⟩)
  obtain ⟨⟨c, hc⟩, hdoc⟩ := hcase r m' hr
  refine ⟨fun d hd => ?_, fun _ => ⟨?_, fun _ => ?_⟩⟩
  · rw [hdoc d hd]; exact hsome d
  · rw [hc]; exact hnone c
  · rw [hc]; exact hJ c

theorem always_signalOwned {token pid : Json} {Q : Bool → Mem → Prop} {J : Mem → Prop} (hm : J m)
    (hQ : ∀ b, Q b m) :
    (signalOwned token pid).Always UnitOp.upd (UnitOp.ok unit) Q (Err J) m := by
  unfold signalOwned
  split
  · refine always_bind.2 (always_keep (fun _ => hm) hm trivial fun h => ?_)
    cases h with
    | none => exact hQ _
    | some h =>
      have hpop : ∀ t, ((perform (UnitOp.popHandle t)).bind fun _ => ret false).Always UnitOp.upd
          (UnitOp.ok unit) Q (Err J) m := fun t =>
        always_bind.2 (always_keep (fun _ => hm) hm trivial fun _ => hQ _)
      dsimp only
      split_ifs
      · refine always_bind.2 (always_keep (fun _ => hm) hm trivial fun b => ?_)
        cases b with
        | true => exact hpop _
        | false => exact always_bind.2 (always_keep (fun _ => hm) hm trivial fun _ => hQ _)
      · exact hpop _
  · exact hQ _

/-- The calls `stop` is part of launch nothing before it. -/
theorem always_stop {Q : StopResult → Mem → Prop} (hk : m.kid = none)
    (hc : ∀ spec generation rounds, m.call ≠ some (.spawn spec generation rounds))
    (hQ : ∀ r m', m.Same m' → m'.kid = m.kid → Q r m') :
    stop.Always UnitOp.upd (UnitOp.ok unit) Q (fun _ m' => m.Same m' ∧ m'.kid = m.kid) m := by
  have hsame : ∀ {m₁ : Mem} {o : UnitOp} (r : Except Exc o.Val), o.isLocal = true →
      (m₁.note o r).kid = m₁.kid → m.Same m₁ ∧ m₁.kid = m.kid →
      m.Same (m₁.note o r) ∧ (m₁.note o r).kid = m.kid :=
    fun r ho hk h => ⟨h.1.note ho r, hk.trans h.2⟩
  have hread : ∀ c b, m.Same { m with pidRead := c, flushed := b } ∧
      { m with pidRead := c, flushed := b }.kid = m.kid :=
    fun c b => ⟨⟨rfl, rfl, rfl, rfl⟩, rfl⟩
  refine always_bind.2 (always_readPid (fun c => hread c m.flushed) ⟨.refl m, rfl⟩ (fun data => ?_)
    fun c => hread c m.flushed)
  refine Always.mono (fun _ _ h => h) (fun _ _ h => h) (fun _ _ h => h.1) (E := Err _) ?_
  refine always_bind.2 (always_signalOwned (hread _ m.flushed) fun signalled => ?_)
  refine always_bind.2 (always_writeJsonAtomic (hread _) (fun e he => dumps_error he)
    (fun d hd => ⟨⟨rfl, .inl ⟨data, rfl, hk, dumps_ok hd, hc⟩⟩, fun r => ?_⟩) (fun m₁ r h => ?_)
    fun d v hd => ?_)
  · exact hsame r rfl (by cases r <;> rfl) (hread _ true)
  · exact hsame r rfl (by cases r <;> rfl) h
  · have hrep := hsame (o := .replacePid d) (.ok v) rfl rfl (hread (some (.doc data)) true)
    have hend := hsame (o := .syncDir) (.ok ()) rfl rfl hrep
    exact always_bind.2 (always_liftExcept hend (fun e he => pyInt_error he) fun _ _ =>
      hQ _ _ hend.1 hend.2)

theorem always_sendAll {J : Mem → Prop} {k : ℕ} {bs : List UInt8} {Q : Unit → Mem → Prop}
    (hJ : ∀ m b, J m → J { m with sent := m.sent ++ [b] }) (hm : J m) (hsent : m.sent ++ bs = ack)
    (hsync : m.synced = true)
    (hrec : ∃ pid l d, m.kid = some (k, pid, l) ∧ m.record = some d ∧ l.Provenance pid d)
    (hQ : ∀ m', J m' → Q () m') :
    (sendAll k bs).Always UnitOp.upd (UnitOp.ok unit) Q (Err J) m := by
  induction bs generalizing m with
  | nil => exact hQ m hm
  | cons b bs ih =>
    have hnote : ∀ r, J (m.note (.send k b) r) := fun r => by
      cases r with
      | ok v => exact hJ m b hm
      | error e => exact hm
    have happ : m.sent ++ [b] ++ bs = ack := by simpa using hsent
    exact always_bind.2 (always_keep hnote hm ⟨⟨bs, happ⟩, hsync, hrec⟩ fun v =>
      ih (hJ m b hm) happ hsync hrec)

theorem always_probe {J : Mem → Prop} {k rounds : ℕ} {token : String} {Q : Bool → Mem → Prop}
    (hm : J m) (hQ : ∀ b, Q b m) :
    (probe k token rounds).Always UnitOp.upd (UnitOp.ok unit) Q (Err J) m := by
  induction rounds with
  | zero => exact hQ _
  | succ n ih =>
    refine always_bind.2 (always_keep (fun _ => hm) hm trivial fun b => ?_)
    cases b with
    | true =>
      refine always_bind.2 (always_keep (fun _ => hm) hm trivial fun h => ?_)
      split_ifs
      · exact always_bind.2 (always_keep (fun _ => hm) hm trivial fun _ => hQ _)
      · exact hQ _
    | false => exact always_bind.2 (always_sys hm ih)

/-- The launch of a call that has written its intent: `persist` leaves a record of the
    child, and only then the child is acknowledged. -/
theorem always_spawnProcess {m₀ : Mem} {l : Launch} {rounds : ℕ}
    {persist : ℤ → ℚ → String → UnitProg Unit} {Q : SpawnResult → Mem → Prop} (hm : m₀.Same m)
    (hpop : (UnitOp.popen l).ok unit m)
    (hpersist : ∀ k pid started (Q : Unit → Mem → Prop),
      (∀ d, l.Provenance pid d →
        Q () { m with kid := some (k, pid, l), record := some d,
                      flushed := true, synced := true }) →
      (persist pid started l.token).Always UnitOp.upd (UnitOp.ok unit) Q
        (Err fun m' => m₀.Same m' ∧ m'.kid = some (k, pid, l)) { m with kid := some (k, pid, l) })
    (hQ : ∀ r m' k pid, m₀.Same m' → m'.kid = some (k, pid, l) → Q r m') :
    (spawnProcess l rounds persist).Always UnitOp.upd (UnitOp.ok unit) Q (Err m₀.Same) m := by
  refine always_bind.2 (always_sys hm (always_bind.2 (always_local rfl hm hpop fun v => ?_)))
  obtain ⟨k, pid⟩ := v
  have hm₁ : m₀.Same { m with kid := some (k, pid, l) } ∧
      { m with kid := some (k, pid, l) }.kid = some (k, pid, l) := ⟨⟨hm.1, hm.2, hm.3, hm.4⟩, rfl⟩
  refine Always.mono (fun _ _ h => h) (fun _ _ h => h) (fun e m' h => ⟨h.1.1, h.2⟩)
    (E := Err fun m' => m₀.Same m' ∧ m'.kid = some (k, pid, l)) ?_
  have hclose : ∀ m₁ (Q : Unit → Mem → Prop), m₀.Same m₁ ∧ m₁.kid = some (k, pid, l) → Q () m₁ →
      (perform (UnitOp.closeSocket k)).Always UnitOp.upd (UnitOp.ok unit) Q
        (Err fun m' => m₀.Same m' ∧ m'.kid = some (k, pid, l)) m₁ :=
    fun m₁ Q h hq => always_keep (fun _ => h) h ⟨pid, l, h.2⟩ fun _ => hq
  refine always_bind.2 (always_sys hm₁ (always_bind.2 (always_keep (fun _ => hm₁) hm₁ trivial
    fun started => ?_)))
  refine always_bind.2 (always_finally hclose (always_handle.2 ?_))
  refine Always.mono (fun _ _ h => h) (fun _ _ h => h) (fun e m₂ he => ?_)
    (E := Err fun m' => m₀.Same m' ∧ m'.kid = some (k, pid, l)) ?_
  · refine always_bind.2 (hclose m₂ _ he.1 (always_bind.2 (always_attempt.2 ⟨trivial, ?_⟩)))
    rintro r m₃ ⟨ht, h⟩
    obtain rfl : m₃ = m₂ := by
      rcases h with rfl | ⟨f, -, rfl | ⟨r, rfl⟩⟩ <;> rfl
    split
    · exact he
    · exact ⟨he.1, ht.not_tombstone⟩
    · exact he
  · have hdone : ∀ m₂, m₀.Same m₂ ∧ m₂.kid = some (k, pid, l) →
        Q ⟨pid, started, false, none, none⟩ m₂ :=
      fun m₂ h => hQ _ m₂ k pid h.1 h.2
    refine always_bind.2 (always_sys hm₁ (always_bind.2 (always_keep (fun _ => hm₁) hm₁
      ⟨pid, l, rfl, hpop.2.2.2.1⟩ fun bs => ?_)))
    split_ifs
    · exact ⟨hm₁, hdone _ hm₁⟩
    · refine always_bind.2 (hpersist k pid started _ fun d hd => ?_)
      have hm₂ : m₀.Same { m with
          kid := some (k, pid, l), record := some d, flushed := true, synced := true } ∧
          some (k, pid, l) = some (k, pid, l) := ⟨⟨hm.1, hm.2, hm.3, hm.4⟩, rfl⟩
      refine always_bind.2 (always_keep (fun _ => hm₂) hm₂ trivial fun _ => ?_)
      refine always_bind.2 (always_sendAll (fun m₃ b h => ⟨⟨h.1.1, h.1.2, h.1.3, h.1.4⟩, h.2⟩) hm₂
        (by rw [hpop.2.2.2.1]; rfl) rfl ⟨pid, l, d, rfl, rfl, hd⟩ fun m₃ h => ⟨h, ?_⟩)
      exact always_bind.2 (always_probe h fun alive => hQ _ m₃ k pid h.1 h.2)

/-- An operation that `Mem` does not record. -/
theorem always_quiet {o : UnitOp} {Q : o.Val → Mem → Prop} {E : Exc → Mem → Prop}
    (ho : ∀ r, m.note o r = m) (hok : o.ok unit m) (hQ : ∀ v, Q v m) (hE : ∀ e, E e m) :
    (perform o).Always UnitOp.upd (UnitOp.ok unit) Q E m := by
  refine always_op hok (fun v => by rw [ho]; exact hQ v) fun e m' _ h => ?_
  rcases h with rfl | ⟨r, rfl⟩
  · exact hE e
  · rw [ho]; exact hE e

theorem always_ensureUnitDir {Q : Unit → Mem → Prop} {E : Exc → Mem → Prop} (hQ : Q () m)
    (hE : ∀ e, E e m) : ensureUnitDir.Always UnitOp.upd (UnitOp.ok unit) Q E m := by
  refine always_bind.2 (always_quiet (fun _ => rfl) trivial (fun _ => ?_) hE)
  refine always_bind.2 (always_quiet (fun _ => rfl) trivial (fun b => ?_) hE)
  cases b with
  | true => exact hQ
  | false => exact hE _

theorem always_attempt_quiet {o : UnitOp} {Q : Except Exc o.Val → Mem → Prop}
    {E : Exc → Mem → Prop} (ho : ∀ r, m.note o r = m) (hok : o.ok unit m) (hQ : ∀ r, Q r m) :
    (attempt o).Always UnitOp.upd (UnitOp.ok unit) Q E m := by
  refine always_attempt.2 ⟨hok, fun r m' hr => ?_⟩
  obtain rfl : m' = m := by
    rcases hr.2 with rfl | ⟨f, -, rfl | ⟨r, rfl⟩⟩
    · exact ho _
    · rfl
    · exact ho _
  exact hQ r

theorem LaunchOf.mono {m₀ m : Mem} {l : Launch} (h : LaunchOf m₀ l) (hm : m₀.Same m) :
    LaunchOf m l := by
  unfold LaunchOf at h ⊢
  rwa [hm.call, hm.locked, hm.saved, hm.loaded]

theorem IntentOf.mono {m₀ m : Mem} {token : String} {d : Dict}
    (h : IntentOf m₀ token d) (hm : m₀.Same m) :
    IntentOf m token d := fun spec generation rounds hc => h spec generation rounds (hm.call ▸ hc)

theorem always_requireAbsent {Q : Unit → Mem → Prop} {E : Exc → Mem → Prop} (hQ : Q () m)
    (hE : ∀ e, E e m) : requireAbsent.Always UnitOp.upd (UnitOp.ok unit) Q E m := by
  refine always_bind.2 (always_attempt_quiet (fun _ => rfl) trivial fun r => ?_)
  split
  · exact hQ
  · split_ifs <;> exact hE _
  · exact hE _

theorem always_withStream {α : Type} {J : Mem → Prop} {path : Option String} {p : UnitProg α}
    {Q : α → Mem → Prop} (hm : J m)
    (h : p.Always UnitOp.upd (UnitOp.ok unit) (fun a m => J m ∧ Q a m) (Err J) m) :
    (withStream path p).Always UnitOp.upd (UnitOp.ok unit) (fun a m => J m ∧ Q a m) (Err J) m := by
  unfold withStream
  split_ifs
  · exact h
  · refine always_bind.2 (always_sys hm (always_finally (fun m Q hm hq => always_sys hm hq) ?_))
    exact h.mono (fun _ _ h => h) (fun a m h => ⟨h.1, h⟩) fun _ _ h => h

/-- The call has not touched `pid.json` yet. -/
structure Mem.Fresh (m : Mem) : Prop where
  fence : m.fence = none
  intent : m.intent = none
  kid : m.kid = none
  record : m.record = none
  sent : m.sent = []

theorem always_writeIntent {m₀ : Mem} {intent : Except Exc Dict} {l : Launch} (hs : m₀.Same m)
    (hm : m.Fresh) (htok : m.token = some l.token)
    (hl : ∀ d, intent = .ok d → l.NamedIn d ∧ IntentOf m₀ l.token d) (hof : LaunchOf m₀ l)
    (herr : ∀ e, intent = .error e → ∀ msg, e ≠ .tombstone msg) {Q : Unit → Mem → Prop}
    (hQ : ∀ n d, l.NamedIn d →
      Q () { m with fence := some n, intent := some d, synced := true }) :
    (writeIntent intent).Always UnitOp.upd (UnitOp.ok unit) Q (Err m₀.Same) m := by
  refine always_bind.2 (always_local rfl hs ⟨hm.fence, hm.intent, hm.kid, hm.record⟩ fun n => ?_)
  have hs₁ : m₀.Same { m with fence := some n } := ⟨hs.1, hs.2, hs.3, hs.4⟩
  refine always_bind.2 (always_finally (fun m Q hm hQ => always_sys hm hQ) ?_)
  refine always_bind.2 (always_liftExcept hs₁ herr fun d hd => ?_)
  have hs₂ : m₀.Same { m with fence := some n, intent := some d, synced := false } :=
    ⟨hs.1, hs.2, hs.3, hs.4⟩
  refine always_bind.2 (always_local rfl hs₁
    ⟨rfl, hm.intent, hm.kid, hm.record, l, htok, (hl d hd).1,
      (hl d hd).2.mono hs₁, hof.mono hs₁⟩
    fun _ => always_local rfl hs₂ rfl fun _ => ⟨hs₂, ?_⟩)
  refine always_bind.2 (always_sys hs₂ (always_finally (fun m Q hm hQ => always_sys hm hQ) ?_))
  exact always_local rfl hs₂ trivial fun _ => ⟨⟨hs.1, hs.2, hs.3, hs.4⟩, hQ n d (hl d hd).1⟩

theorem always_spawn {spec : ProcessSpec} {generation : Option ℤ} {rounds : ℕ}
    {Q : SpawnResult → Mem → Prop} (hm : m.Fresh)
    (hof : ∀ l : Launch, l.unit = spec.unit → l.generation = generation → LaunchOf m l)
    (hin : ∀ token d, EncodedIntent spec generation token d → IntentOf m token d)
    (hQ : ∀ r m' k pid l, m.Same m' → m'.kid = some (k, pid, l) →
      l.generation = generation → Q r m') :
    (spawn spec generation rounds).Always UnitOp.upd (UnitOp.ok unit) Q
      (fun e m' => m.Same m' ∧ ∀ msg, e = .tombstone msg → m'.kid = none) m := by
  have hstart : ∀ e : Exc, m.Same m ∧ ∀ msg, e = .tombstone msg → m.kid = none :=
    fun _ => ⟨.refl m, fun _ _ => hm.kid⟩
  refine always_bind.2 (always_ensureUnitDir
    (always_bind.2 (always_requireAbsent ?_ hstart)) hstart)
  refine Always.mono (fun _ _ h => h) (fun _ _ h => h)
    (fun e _ h => ⟨h.1, fun msg he => absurd he (h.2 msg)⟩) (E := Err m.Same) ?_
  refine always_bind.2 (always_liftExcept (.refl m) (fun e he => pidPayload_error he)
    fun t ht => ?_)
  refine always_bind.2 (always_local rfl (.refl m) hm.fence fun token => ?_)
  have hs : m.Same { m with token := some token } := ⟨rfl, rfl, rfl, rfl⟩
  refine always_bind.2 (always_writeIntent (l := ⟨[], ∅, spec.unit, generation, token⟩) hs
    ⟨hm.1, hm.2, hm.3, hm.4, hm.5⟩ rfl (fun d hd => ?_) (hof _ rfl rfl)
    (fun e he => PidTemplate.dump_error he) fun n d hd => ?_)
  · obtain ⟨-, hu, hg, htok, -⟩ := PidTemplate.get_dump hd
    exact ⟨⟨hu, hg, htok⟩, hin token d ⟨t, ht, hd⟩⟩
  · have hs₁ : m.Same { m with
        token := some token, fence := some n, intent := some d, synced := true } :=
      ⟨rfl, rfl, rfl, rfl⟩
    refine always_bind.2 (always_local rfl hs₁ trivial fun environ => ?_)
    refine Always.mono (fun _ _ h => h) (fun _ _ h => h.2) (fun _ _ h => h)
      (always_withStream (J := m.Same) hs₁ (always_withStream hs₁ (always_spawnProcess hs₁
        ⟨rfl, hm.kid, hm.record, hm.sent, rfl, ⟨d, rfl, hd.1, hd.2, hd.3⟩, ?_⟩ ?_ ?_)))
    · exact (hof _ rfl rfl).mono hs₁
    · intro k pid started Q hQ
      refine always_writeJsonAtomic (fun _ => ⟨⟨rfl, rfl, rfl, rfl⟩, rfl⟩)
        (fun e he => PidTemplate.dump_error he) (fun d' hd' => ?_)
        (fun m₁ r h => ⟨h.1.note rfl r, by cases r <;> exact h.2⟩) fun d' v hd' => ?_
      · obtain ⟨hp, hu, hg, ht, hst⟩ := PidTemplate.get_dump hd'
        refine ⟨⟨rfl, .inr ⟨k, pid, _, rfl, rfl, ⟨d, rfl, hd.1, hd.2, hd.3⟩, hm.sent, rfl,
          ⟨hu, hg, ht⟩, hp, hst⟩⟩,
          fun r => ?_⟩
        cases r <;> exact ⟨⟨rfl, rfl, rfl, rfl⟩, rfl⟩
      · obtain ⟨hp, hu, hg, ht, hst⟩ := PidTemplate.get_dump hd'
        exact hQ d' ⟨⟨hu, hg, ht⟩, hp, hst⟩
    · exact fun r m' k pid hs' hk => ⟨hs', hQ r m' k pid _ hs' hk rfl⟩

end

/-! ## Clearing and the state file -/

section
variable {unit : String} {m : Mem}

/-- A program performs its operations only when `UnitOp.ok`, and its returns satisfy `Q`. -/
def Heeds (unit : String) {α : Type} (Q : Mem → Prop) (p : UnitProg α) (m : Mem) : Prop :=
  p.Always UnitOp.upd (UnitOp.ok unit) (fun _ => Q) (fun _ _ => True) m

theorem heeds_op {o : UnitOp} (hok : o.ok unit m) : Heeds unit (fun _ => True) (perform o) m :=
  always_op hok (fun _ => trivial) fun _ _ _ _ => trivial

theorem heeds_liftExcept {α β : Type} {x : Except Exc α} {k : α → UnitProg β} {Q : Mem → Prop}
    (h : ∀ a, x = .ok a → Heeds unit Q (k a) m) : Heeds unit Q ((liftExcept x).bind k) m := by
  cases x with
  | ok a => exact h a rfl
  | error e => exact trivial

theorem heeds_unitLock {α : Type} {body : UnitProg α} {Q : Mem → Prop}
    (hl : m.loaded = none ∧ m.pidRead = none)
    (hQ : ∀ m, Q m → Q { m with locked := false })
    (h : Heeds unit Q body { m with locked := true }) : Heeds unit Q (unitLock body) m := by
  refine always_bind.2 (always_ensureUnitDir ?_ fun _ => trivial)
  refine always_bind.2 (always_quiet (fun _ => rfl) trivial (fun _ => ?_) fun _ => trivial)
  refine always_ensure.2 (Always.mono (fun _ _ h => h) (fun _ m hm => ?_) (fun _ m _ => ?_)
    (Q := fun _ => Q) (E := fun _ _ => True) ?_)
  · exact always_op trivial (fun _ => hQ m hm) fun _ _ _ _ => trivial
  · exact always_op trivial (fun _ => trivial) fun _ _ _ _ => trivial
  · refine always_bind.2 (always_op hl (fun _ => always_ensure.2 ?_) fun _ _ _ _ => trivial)
    refine h.mono (fun _ _ h => h) (fun _ m hm => ?_) fun _ m _ => ?_
    · exact always_op trivial (fun _ => hQ m hm) fun _ _ _ _ => trivial
    · exact always_op trivial (fun _ => trivial) fun _ _ _ _ => trivial

theorem heeds_clear {q : Clearance} (hc : m.call = some (.clear q))
    (hl : m.loaded = none ∧ m.pidRead = none) (hu : m.unlinked = false) :
    Heeds unit (fun _ => True) (clearProcessTombstone q) m := by
  simp only [clearProcessTombstone]
  split_ifs
  · exact trivial
  refine heeds_unitLock hl (fun _ _ => trivial) (always_bind.2
      (always_attempt_quiet (fun _ => rfl) trivial fun r => ?_))
  split
  · split_ifs <;> exact trivial
  split_ifs
  · exact trivial
  refine always_bind.2 (always_readPid (J := fun _ => True) (fun _ => trivial) trivial
    (fun data => ?_) fun _ => trivial)
  dsimp only
  split_ifs with hmatch
  · exact trivial
  simp only [Bool.not_eq_true', Bool.not_eq_false] at hmatch
  refine always_bind.2 (always_quiet (fun _ => rfl) trivial (fun now => ?_) fun _ => trivial)
  refine always_bind.2 (always_quiet (fun _ => rfl) trivial (fun _ => ?_) fun _ => trivial)
  refine always_bind.2 (Always.mono (fun _ _ h => h) (fun _ _ h => h) (fun _ _ _ => trivial)
    (E := Err fun _ => True) (always_finally (fun m Q hm hq => always_sys hm hq) ?_))
  refine always_bind.2 (always_liftExcept trivial (fun e he => dumps_error he) fun record hr => ?_)
  refine always_bind.2 (always_keep (fun _ => trivial) trivial ⟨q, now, hc, dumps_ok hr⟩
    fun _ => ?_)
  refine always_sys trivial ⟨trivial, ?_⟩
  refine always_bind.2 (always_op ⟨rfl, rfl, hu, q, data, hc, rfl, hmatch⟩ (fun _ => ?_)
    fun _ _ _ _ => trivial)
  refine always_bind.2 (always_quiet (fun _ => rfl) trivial (fun _ => ?_) fun _ => trivial)
  refine always_bind.2 (Always.mono (fun _ _ h => h) (fun _ _ h => h) (fun _ _ _ => trivial)
    (E := Err fun _ => True) (always_finally (fun m Q hm hq => always_sys hm hq) ?_))
  exact always_keep (fun _ => trivial) trivial trivial fun _ => ⟨trivial, heeds_op trivial⟩

theorem always_loadState {Q : Dict → Mem → Prop} {u : String}
    (hQ : ∀ c, Q (stateOf u c) { m with loaded := some c }) :
    (loadState u).Always UnitOp.upd (UnitOp.ok unit) Q (fun _ _ => True) m := by
  refine always_bind.2 (Always.mono (fun _ _ h => h) (fun _ _ h => h) (fun _ _ _ => trivial)
    (E := fun _ _ => True) ?_)
  refine always_bind.2 (always_attempt.2 ⟨trivial, fun r m' ⟨ha, h⟩ => ?_⟩)
  rcases r with e | c
  · rcases ha with rfl | ⟨f, rfl, hf⟩
    · rcases h with rfl | ⟨f, hf, -⟩
      · exact hQ none
      · cases hf
    · cases f <;> first | exact trivial | exact absurd rfl hf
  · rcases h with rfl | ⟨f, hf, -⟩
    · cases c with
      | doc d => exact hQ (some (.doc d))
      | value v => exact hQ (some (.value v))
      | malformed => exact hQ (some .malformed)
      | _ => exact trivial
    · cases hf

/-- What a call saves does not depend on its temporary file. -/
theorem StateWrite.flush {d : Dict} (h : StateWrite unit m d) (b : Bool) :
    StateWrite unit { m with flushed := b } d := by
  unfold StateWrite at h ⊢
  dsimp only
  split at h
  · exact h
  · exact h
  · obtain ⟨hl, hs, c, hc, hd⟩ := h
    refine ⟨hl, hs, c, hc, ?_⟩
    cases hd with
    | noop a hk => exact .noop a hk
    | tombstone a actual b hk => exact .tombstone a actual b hk
    | launched g k pid l a r hg hk hl => exact .launched g k pid l a r hg hk hl
  · exact h

theorem always_saveState {encoded : Except Exc Dict} {Q : Unit → Mem → Prop}
    (henc : ∀ e, encoded = .error e → ∀ msg, e ≠ .tombstone msg)
    (hok : ∀ d, encoded = .ok d → StateWrite unit m d) (hQ : ∀ m', m'.saved = true → Q () m') :
    (saveState encoded).Always UnitOp.upd (UnitOp.ok unit) Q (fun _ _ => True) m :=
  Always.mono (fun _ _ h => h) (fun _ _ h => h) (fun _ _ _ => trivial)
    (always_writeJsonAtomic (J := fun _ => True) (fun _ => trivial) henc
      (fun d hd => ⟨(hok d hd).flush true, fun _ => trivial⟩) (fun _ _ _ => trivial)
      fun _ _ _ => hQ _ rfl)

theorem heeds_setDesired {desired : String} (hc : m.call = some (.setDesired desired)) :
    Heeds unit (fun _ => True) (setDesired unit desired) m := by
  simp only [setDesired]
  split_ifs
  swap
  · exact trivial
  refine always_bind.2 (always_loadState fun c => ?_)
  refine always_bind.2 (always_saveState (fun e he => dumps_error he) (fun d hd => ?_)
    fun _ _ => trivial)
  simp only [StateWrite, hc]
  exact ⟨c, rfl, dumps_ok hd⟩

theorem heeds_mergeHeartbeat {hb : PyDict} (hc : m.call = some (.heartbeat hb)) :
    Heeds unit (fun _ => True) (mergeHeartbeat unit hb) m := by
  refine always_bind.2 (always_loadState fun c => ?_)
  split
  · exact trivial
  rename_i g hg
  refine heeds_liftExcept fun n hn => ?_
  split_ifs with hne
  · exact trivial
  simp only [ne_eq, not_not] at hne
  refine always_bind.2 (always_saveState (fun e he => dumpsWith_error he) (fun d hd => ?_)
    fun m' _ => ?_)
  · simp only [StateWrite, hc]
    exact ⟨c, g, rfl, hg, hne ▸ hn, hd⟩
  · exact Always.mono (fun _ _ h => h) (fun _ _ h => h) (fun _ _ _ => trivial)
      (always_liftExcept (J := fun _ => True) trivial (fun e he => dumpsWith_error he)
        fun _ _ => trivial)

theorem always_observeActual {Q : String → Mem → Prop} (hQ : ∀ a, Q a m) :
    observeActual.Always UnitOp.upd (UnitOp.ok unit) Q (fun _ _ => True) m := by
  refine always_bind.2 (always_attempt_quiet (fun _ => rfl) trivial fun r => ?_)
  split
  · exact hQ _
  · split_ifs
    · exact hQ _
    · exact trivial
  · exact hQ _

end

/-! ## Passes, wrappers, and all calls -/

section
variable {unit : String} {m : Mem}

/-- A pass that has loaded the state `c` under the unit lock. -/
structure Mem.InPass (m : Mem) (spec : ProcessSpec) (c : Option Content) : Prop where
  call : ∃ policy rounds, m.call = some (.reconcile spec policy rounds)
  locked : m.locked = true
  saved : m.saved = false
  loaded : m.loaded = some c

theorem Mem.InPass.same {m m' : Mem} {spec : ProcessSpec} {c : Option Content} (h : m.InPass spec c)
    (hs : m.Same m') : m'.InPass spec c :=
  ⟨hs.call ▸ h.call, hs.locked ▸ h.locked, hs.saved ▸ h.saved, hs.loaded ▸ h.loaded⟩

theorem Mem.InPass.write {spec : ProcessSpec} {c : Option Content} {d : Dict}
    (h : m.InPass spec c) (hd : PassWrite m (stateOf spec.unit c) d) : StateWrite unit m d := by
  obtain ⟨policy, rounds, hc⟩ := h.call
  simp only [StateWrite, hc]
  exact ⟨h.locked, h.saved, c, h.loaded, hd⟩

theorem heeds_save_pass {spec : ProcessSpec} {c : Option Content} {d : Dict} {α : Type}
    {k : Unit → UnitProg α} (h : m.InPass spec c) (hd : PassWrite m (stateOf spec.unit c) d)
    (hk : ∀ m' : Mem, m'.saved = true → Heeds unit (·.saved = true) (k ()) m') :
    Heeds unit (·.saved = true) ((saveState (dumps d)).bind k) m :=
  always_bind.2 (always_saveState (fun e he => dumps_error he)
    (fun d' hd' => by rw [dumps_ok hd']; exact h.write hd) hk)

theorem heeds_tombstonePass {spec : ProcessSpec} {c : Option Content} {a actual : String} {b : Bool}
    (h : m.InPass spec c) (hm : m.Fresh) :
    Heeds unit (·.saved = true)
    (tombstonePass spec ((stateOf spec.unit c).set "actual" (.str a)) actual b) m := by
  have hend : ∀ signalled m', m.Same m' → m'.kid = m.kid → Heeds unit (·.saved = true) (do
      let state := tombstoneState ((stateOf spec.unit c).set "actual" (.str a)) actual signalled
      saveState (dumps state)
      return (⟨spec.unit, "noop", state.get "desired", actual,
        ← liftExcept (pyInt (state.get "generation")), (state.get "pid").asInt,
        actual = "running", some tombstoneReason⟩ : ReconcileOutcome)) m' :=
    fun signalled m' hs hk => heeds_save_pass (h.same hs)
      (.tombstone a actual signalled (hk.trans hm.kid)) fun _ hsaved =>
        heeds_liftExcept fun _ _ => hsaved
  unfold tombstonePass
  cases b with
  | true => exact hend false m (.refl m) rfl
  | false =>
    obtain ⟨_, _, hc⟩ := h.call
    refine always_bind.2 (always_handle.2 (always_bind.2 ?_))
    refine Always.mono (fun _ _ h => h) (fun _ _ h => h) (fun e m' he => ?_)
      (always_stop hm.kid (by simp [hc]) fun r m' hs hk => hend r.signalled m' hs hk)
    cases e <;> first | exact hend false m' he.1 he.2 | exact trivial

theorem heeds_launchPass {spec : ProcessSpec} {c : Option Content} {a : String} {rounds : ℕ}
    (h : m.InPass spec c) (hm : m.Fresh) :
    Heeds unit (·.saved = true)
    (launchPass spec ((stateOf spec.unit c).set "actual" (.str a)) rounds) m := by
  refine heeds_liftExcept fun g hg => ?_
  rw [Dict.get_set_ne _ _ (by decide)] at hg
  have hof : ∀ l : Launch, l.unit = spec.unit → l.generation = some (g + 1) → LaunchOf m l := by
    intro l hu hl
    obtain ⟨_, _, hc⟩ := h.call
    simp only [LaunchOf, hc]
    exact ⟨h.locked, h.saved, hu, c, g, h.loaded, hg, hl⟩
  have hin : ∀ token d, EncodedIntent spec (some (g + 1)) token d → IntentOf m token d := by
    intro token d _ spec' generation' rounds' hn
    obtain ⟨_, _, hc⟩ := h.call
    rw [hc] at hn
    cases hn
  refine always_bind.2 (always_handle.2 (always_bind.2 ?_))
  refine Always.mono (fun _ _ h => h) (fun _ _ h => h) (fun e m' he => ?_)
    (always_spawn hm hof hin fun r m' k pid l hs hk hl => ?_)
  · cases e with
    | tombstone msg =>
      exact heeds_save_pass (h.same he.1) (.tombstone a _ _ (he.2 msg rfl)) fun _ hsaved =>
        heeds_liftExcept fun _ _ => hsaved
    | _ => exact trivial
  · exact heeds_save_pass (h.same hs) (.launched g k pid l a r hg hk hl) fun _ hsaved => hsaved

theorem heeds_reconcileUnit {spec : ProcessSpec} {policy : Dict → Except Exc Bool} {rounds : ℕ}
    (hc : m.call = some (.reconcile spec policy rounds)) (hm : m.Fresh)
    (hl : m.loaded = none ∧ m.pidRead = none) (hs : m.saved = false) :
    Heeds unit (·.saved = true) (reconcileUnit spec policy rounds) m := by
  refine heeds_unitLock hl (fun _ h => h) (always_bind.2 (always_loadState fun c => ?_))
  have h : Mem.InPass { m with locked := true, loaded := some c } spec c :=
    ⟨⟨policy, rounds, hc⟩, rfl, hs, rfl⟩
  have hm' : Mem.Fresh { m with locked := true, loaded := some c } := ⟨hm.1, hm.2, hm.3, hm.4, hm.5⟩
  refine heeds_liftExcept fun want _ => always_bind.2 (always_observeActual fun actual => ?_)
  dsimp only
  split_ifs
  · exact heeds_tombstonePass h hm'
  · exact heeds_launchPass h hm'
  · exact heeds_save_pass h (.noop _ hm.kid) fun _ hsaved => heeds_liftExcept fun _ _ => hsaved

theorem heeds_readAck {k fuel n : ℕ} {Q : Option (List UInt8) → Mem → Prop}
    (hc : m.call = some (.gate k fuel))
    (hQ : ∀ r m', m'.call = m.call ∧ m'.executed = m.executed →
      (∀ got, r = some got → m'.got = got) → Q r m') :
    (readAck k m.got n).Always UnitOp.upd (UnitOp.ok unit) Q (fun _ _ => True) m := by
  induction n generalizing m with
  | zero => exact trivial
  | succ n ih =>
    unfold readAck
    split_ifs
    · exact hQ _ m ⟨rfl, rfl⟩ fun got h => by cases h; rfl
    · refine always_bind.2 (always_op ⟨fuel, hc⟩ (fun chunk => ?_) fun _ _ _ _ => trivial)
      split_ifs
      · exact hQ none _ ⟨rfl, rfl⟩ fun got h => by cases h
      · exact ih (m := { m with got := m.got ++ chunk }) hc hQ

theorem heeds_execGate {k fuel : ℕ} (hc : m.call = some (.gate k fuel)) (hg : m.got = [])
    (he : m.executed = false) :
    Heeds unit (fun _ => True) (execGate k fuel) m := by
  refine always_bind.2 (always_op ⟨fuel, hc⟩ (fun _ => always_bind.2 ?_) fun _ _ _ _ => trivial)
  refine hg ▸ heeds_readAck (m := m) hc fun r m' ⟨hc', he'⟩ hr => ?_
  cases r with
  | none => exact trivial
  | some got =>
    have hcall : m'.call = some (.gate k fuel) := hc'.trans hc
    refine always_bind.2 (always_op ⟨fuel, hcall⟩ (fun _ => ?_) fun _ _ _ _ => trivial)
    split_ifs with hack
    · exact trivial
    · refine always_bind.2 (always_op ⟨fuel, hcall, ?_⟩ (fun _ => trivial) fun _ _ _ _ => trivial)
      exact ⟨(hr got rfl).trans (not_not.1 hack), he'.trans he⟩

/-- What a call that returns has done: a pass has saved the state. -/
def UnitCall.fin : UnitCall → Except Exc UnitAnswer → Mem → Prop
  | .reconcile _ _ _, .ok _, m => m.saved = true
  | _, _, _ => True

theorem heeds_code (k : UnitCall) :
    (k.code unit).Always UnitOp.upd (UnitOp.ok unit) (fun v => k.fin (.ok v))
      (fun e => k.fin (.error e)) { call := some k } := by
  have hm : Mem.Fresh { call := some k } := ⟨rfl, rfl, rfl, rfl, rfl⟩
  have hE : ∀ e m, k.fin (.error e) m := fun e m => by cases k <;> exact trivial
  refine Always.mono (fun _ _ h => h) (fun _ _ h => h) (fun e m _ => hE e m)
    (E := fun _ _ => True) ?_
  cases k with
  | reconcile spec policy rounds => exact always_bind.2 (heeds_reconcileUnit rfl hm ⟨rfl, rfl⟩ rfl)
  | setDesired desired => exact always_bind.2 (heeds_setDesired rfl)
  | heartbeat hb => exact always_bind.2 (heeds_mergeHeartbeat rfl)
  | spawn spec generation rounds =>
    have hin : ∀ token d, EncodedIntent spec generation token d →
        IntentOf { call := some (.spawn spec generation rounds) } token d := by
      intro token d hd spec' generation' rounds' hc
      cases hc
      exact hd
    refine always_bind.2 (Always.mono (fun _ _ h => h) (fun _ _ h => h) (fun _ _ _ => trivial)
      (always_spawn hm (fun l hu hg => ⟨hu, hg⟩) hin fun _ _ _ _ _ _ _ _ => trivial))
  | stop =>
    exact always_bind.2 (Always.mono (fun _ _ h => h) (fun _ _ h => h) (fun _ _ _ => trivial)
      (always_stop rfl (by simp) fun _ _ _ _ => trivial))
  | clear q => exact always_bind.2 (heeds_clear rfl ⟨rfl, rfl⟩ rfl)
  | gate k fuel => exact always_bind.2 (heeds_execGate rfl rfl rfl)

theorem uses_readAck {k n : ℕ} {got : List UInt8} : (readAck k got n).Uses (·.ofGate = true) := by
  induction n generalizing got with
  | zero => trivial
  | succ n ih =>
    unfold readAck
    split_ifs
    · trivial
    · refine Uses.bind (A := fun o => UnitOp.ofGate o = true) (uses_perform rfl) fun chunk => ?_
      split_ifs
      · trivial
      · exact ih

theorem uses_execGate {k fuel : ℕ} : (execGate k fuel).Uses (·.ofGate = true) := by
  refine Uses.bind (A := fun o => UnitOp.ofGate o = true) (uses_perform rfl) fun _ =>
    uses_readAck.bind fun r => ?_
  cases r with
  | none => trivial
  | some got =>
    refine Uses.bind (A := fun o => UnitOp.ofGate o = true) (uses_perform rfl) fun _ => ?_
    split_ifs
    · trivial
    · exact Uses.bind (A := fun o => UnitOp.ofGate o = true) (uses_perform rfl) fun _ => trivial

theorem UnitOp.upd.call {o : UnitOp} {m m' : Mem} {r : Except Exc o.Val} (h : o.upd m r m') :
    m'.call = m.call := by
  rcases h.2 with rfl | ⟨f, -, rfl | ⟨r', rfl⟩⟩
  · exact Mem.note_call r
  · rfl
  · exact Mem.note_call r'

/-- Every operation of a program satisfies `True`. -/
theorem uses_true {α : Type} (p : UnitProg α) : p.Uses fun _ => True := by
  induction p with
  | ret a => trivial
  | raise e => trivial
  | call o k ih => exact ⟨trivial, ih⟩

theorem always_ofGate (k : UnitCall) :
    (k.code unit).Always UnitOp.upd
      (fun o m => m.call ≠ none ∧ ∀ i fuel, m.call = some (.gate i fuel) → o.ofGate = true)
      (fun _ m => m.call = some k) (fun _ m => m.call = some k) { call := some k } := by
  have hcall : ∀ o m, m.call = some k → ∀ r m', UnitOp.upd o m r m' → m'.call = some k :=
    fun o m hm r m' h => h.call.trans hm
  cases k with
  | gate k fuel =>
    have huses : (UnitCall.code unit (.gate k fuel)).Uses (·.ofGate = true) :=
      uses_execGate.bind fun _ => trivial
    refine Always.of_uses huses (fun o m ho hm =>
      ⟨⟨by simp [hm], fun _ _ _ => ho⟩, hcall o m hm⟩) rfl
  | _ =>
    refine Always.of_uses (uses_true _)
      (fun o m _ hm => ⟨⟨by simp [hm], fun i fuel h => ?_⟩, hcall o m hm⟩) rfl
    rw [hm] at h
    cases h

/-- **Every call performs its operations only when allowed**, whatever they answer. -/
theorem always_code (k : UnitCall) :
    (k.code unit).Always UnitOp.upd (UnitOp.Allowed unit) (fun v => k.fin (.ok v))
      (fun e => k.fin (.error e)) { call := some k } :=
  ((heeds_code k).and (always_ofGate k)).mono (fun _ _ h => ⟨h.1, h.2.1, h.2.2⟩) (fun _ _ h => h.1)
    fun _ _ h => h.1

/-- The obligations of an invariant of the unit: it is kept by starting and ending
    calls, and by every operation where it is allowed. -/
theorem fleet_rely {P : UnitCfg → UnitAct → Prop} {I : UnitWorld → Prop}
    (hstart : ∀ c i k w, P c (.start i k) → I c.sh → c.run i = none →
      c.sh.start unit i k = some w → I w)
    (hop : ∀ c i ch k o f r w, P c (.op i ch) → I c.sh → c.run i = some (k, .call o f) →
      o.Allowed unit (c.sh.mem i) → c.sh.op i ch o = some (r, w) → I w)
    (hfinish : ∀ c i k r, P c (.finish i) → I c.sh → c.run i = some (k, .ofExcept r) →
      k.fin r (c.sh.mem i) → I (c.sh.close i))
    (hkill : ∀ c i, P c (.kill i) → I c.sh → I (c.sh.close i)) :
    Machine.Rely (fleet unit) P I (fun i w => w.mem i) UnitOp.upd
    (UnitOp.Allowed unit) UnitCall.fin where
  start := by
    intro c i k w hp hI hr hs
    obtain ⟨hm, hj⟩ := UnitWorld.start_view hs
    exact ⟨hstart c i k w hp hI hr hs, hm ▸ always_code k, hj⟩
  op := by
    intro c i ch k o f r w hp hI hr hok hop'
    exact ⟨hop c i ch k o f r w hp hI hr hok hop', UnitWorld.op_view hop'⟩
  finish := fun c i k r hp hI hr hf => ⟨hfinish c i k r hp hI hr hf, UnitWorld.close_view⟩
  die := fun c i hp hI => ⟨hkill c i hp hI, UnitWorld.close_view⟩

/-- A busy thread is in the call that its record names. -/
theorem call_of_run {P : UnitCfg → UnitAct → Prop} {s₀ : UnitWorld} {c : UnitCfg}
    (h : (fleet unit).Reach P (idle s₀) c) :
    ∀ i k p, c.run i = some (k, p) → (c.sh.mem i).call = some k := by
  induction h with
  | refl => intro i k p hr; cases hr
  | @step c c' a _ _ hs ih =>
    -- the other threads keep their call, and their record
    have hkeep : ∀ (j : ℕ) (s : UnitWorld) x, (∀ i ≠ j, s.mem i = c.sh.mem i) →
        (∀ k p, x = some (k, p) → (s.mem j).call = some k) →
        ∀ i k p, Function.update c.run j x i = some (k, p) → (s.mem i).call = some k := by
      intro j s x hother hself i k p hr
      by_cases hij : i = j
      · subst hij
        exact hself k p (by simpa using hr)
      · rw [Function.update_of_ne hij] at hr
        rw [hother i hij]
        exact ih i k p hr
    rcases step_cases hs with ⟨j, k, s, rfl, -, hst, rfl⟩ |
      ⟨j, ch, k, o, f, r, s, rfl, hr, hop, rfl⟩ | ⟨j, k, r, rfl, -, rfl⟩ | ⟨j, rfl, rfl⟩
    · obtain ⟨hm, hj⟩ := UnitWorld.start_view hst
      exact hkeep j s _ hj fun k' p hx => by cases hx; rw [hm]
    · obtain ⟨hu, hj⟩ := UnitWorld.op_view hop
      exact hkeep j s _ hj fun k' p hx => by cases hx; rw [hu.call, ih j k _ hr]
    · exact hkeep j _ _ (fun i hi => UnitWorld.close_view i hi) fun _ _ hx => by cases hx
    · exact hkeep j _ _ (fun i hi => UnitWorld.close_view i hi) fun _ _ hx => by cases hx

end

end DatasourceKit

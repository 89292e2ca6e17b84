/-
  `state.json` under any interleaving: the operator's desired state and the
  generation.

  Every writer loads the whole state, changes some keys and saves it; only passes
  hold the unit lock meanwhile.

  * `desired_kept`: the persisted desired state is the one of the last `set_desired`
    write, if no pass and no heartbeat saves a copy loaded before that write;
    `desired_lost`: otherwise it may be an older one;
  * `generation_kept`: the persisted generation never decreases, and a heartbeat of an
    older generation overwrites nothing, if `set_desired` and heartbeats save only
    copies with the generation still persisted; `generation_lost`: otherwise it may.
-/
import DatasourceKit.Fleet.UnitView

namespace DatasourceKit

open Interleave Interleave.Prog Interleave.Machine

/-! ## States -/

theorem get_foldl_set {l : List (String × Json)} (hl : (l.map Prod.fst).Nodup) {k : String}
    {v : Json} (h : (k, v) ∈ l) (d : Dict) : (d.update l).get k = v := by
  induction l generalizing d with
  | nil => cases h
  | cons p l ih =>
    obtain ⟨hp, hl⟩ := List.nodup_cons.1 hl
    rcases List.mem_cons.1 h with rfl | h
    · rw [Dict.update, List.foldl_cons, ← Dict.update, Dict.get_update_of_notMem, Dict.get_set_self]
      rintro q hq rfl
      exact hp (List.mem_map.2 ⟨q, hq, rfl⟩)
    · exact ih hl h _

/-- A key of the persisted object is the one a call works with. -/
theorem get_backfill {unit k : String} {d : Dict} {v : Json} (hk : k ≠ "unit")
    (h : d.lookup k = some v) : (backfill unit (some d)).get k = v := by
  rw [backfill, Dict.get_set_ne _ _ hk]
  refine get_foldl_set ?_ ?_ _
  · rw [List.map_map]
    exact d.nodupKeys
  · exact List.mem_map.2 ⟨⟨k, v⟩, AList.mem_lookup_iff.1 h, rfl⟩

theorem lookup_of_get {d : Dict} {k : String} {v : Json} (h : d.get k = v) (hv : v ≠ .null) :
    d.lookup k = some v := by
  unfold Dict.get at h
  cases hl : d.lookup k with
  | none => rw [hl] at h; exact absurd h.symm hv
  | some u => rw [hl] at h; exact congrArg some h

theorem get_tombstoneState {s : Dict} {actual k : String} {b : Bool}
    (hk : k ∉ ["actual", "degraded_reason", "operator_verification_required", "stop_requested"]) :
    (tombstoneState s actual b).get k = s.get k := by
  simp only [List.mem_cons, List.not_mem_nil, or_false, not_or] at hk
  obtain ⟨h₁, h₂, h₃, h₄⟩ := hk
  cases b <;> simp [tombstoneState, Dict.update, Dict.get_set_ne, h₁, h₂, h₃, h₄]

theorem get_launchedState {s : Dict} {g : ℤ} {r : SpawnResult} {k : String}
    (hk : k ∉ ["generation", "pid", "actual", "process_token", "operator_verification_required",
      "degraded_reason"]) : (launchedState s g r).get k = s.get k := by
  simp only [List.mem_cons, List.not_mem_nil, or_false, not_or] at hk
  obtain ⟨h₁, h₂, h₃, h₄, h₅, h₆⟩ := hk
  simp only [launchedState]
  split_ifs <;> simp [Dict.update, Dict.get_set_ne, h₁, h₂, h₃, h₄, h₅, h₆]

theorem generation_launchedState {s : Dict} {g : ℤ} {r : SpawnResult} :
    (launchedState s g r).get "generation" = .int g := by
  simp only [launchedState]
  split_ifs <;> simp [Dict.update, Dict.get_set_ne]

/-- A pass keeps the desired state of its copy. -/
theorem PassWrite.desired {m : Mem} {s d : Dict} (h : PassWrite m s d) :
    d.get "desired" = s.get "desired" := by
  cases h with
  | noop a => rw [Dict.get_set_ne _ _ (by decide), Dict.get_set_ne _ _ (by decide)]
  | tombstone a actual b => rw [get_tombstoneState (by decide), Dict.get_set_ne _ _ (by decide)]
  | launched g k pid l a r => rw [get_launchedState (by decide), Dict.get_set_ne _ _ (by decide)]

/-- A pass keeps the generation of its copy, or has launched with the next one. -/
theorem PassWrite.generation {m : Mem} {s d : Dict} (h : PassWrite m s d) :
    m.kid = none ∧ d.get "generation" = s.get "generation" ∨
    ∃ g k pid l, pyInt (s.get "generation") = .ok g ∧ m.kid = some (k, pid, l) ∧
      l.generation = some (g + 1) ∧ d.get "generation" = .int (g + 1) := by
  cases h with
  | noop a hk =>
    exact .inl ⟨hk, by rw [Dict.get_set_ne _ _ (by decide), Dict.get_set_ne _ _ (by decide)]⟩
  | tombstone a actual b hk =>
    exact .inl ⟨hk, by rw [get_tombstoneState (by decide), Dict.get_set_ne _ _ (by decide)]⟩
  | launched g k pid l a r hg hk hl =>
    exact .inr ⟨g, k, pid, l, hg, hk, hl, generation_launchedState⟩

theorem opaqueEntries_ne {hb : PyDict} {k : String} (hk : k ∈ coreStateKeys) :
    ∀ e ∈ opaqueEntries hb, e.1 ≠ .str k := by
  intro e he hek
  obtain ⟨-, hc⟩ := List.mem_filter.1 he
  simp only [Bool.not_eq_true', List.any_eq_false, beq_iff_eq] at hc
  exact hc k hk hek

/-! ## The desired state -/

/-- The value a `set_desired` call writes, at its write. -/
def Entry.setValue (e : Entry) : Option String :=
  match e.op, e.call with
  | .replaceState _, some (.setDesired v) => some v
  | _, _ => none

/-- The entry is a load of the state by thread `i`. -/
def Entry.loads (e : Entry) (i : ℕ) : Bool :=
  e.thread == i && match e.op with | .readState => true | _ => false

/-- The value of the last `set_desired` write. -/
def lastSet (t : List Entry) : Option String := t.findSome? Entry.setValue

/-- There is no `set_desired` write after the last load of thread `i`. -/
def LoadedSince (t : List Entry) (i : ℕ) : Prop :=
  ∀ e ∈ t.takeWhile fun e => !e.loads i, e.setValue = none

/-- A step that, if it is a save of a pass or a heartbeat, is of a copy loaded after
    the last `set_desired` write. -/
def KeepsDesired (c : UnitCfg) : UnitAct → Prop
  | .op i _ => ∀ d, c.next i = some (.replaceState d) →
      (∀ v, (c.sh.mem i).call ≠ some (.setDesired v)) → LoadedSince c.sh.trace i
  | _ => True

theorem loadedSince_cons {e : Entry} {t : List Entry} {i : ℕ} (he : e.loads i = false) :
    LoadedSince (e :: t) i ↔ e.setValue = none ∧ LoadedSince t i := by
  simp [LoadedSince, he]

theorem lastSet_cons {e : Entry} {t : List Entry} (he : e.setValue = none) :
    lastSet (e :: t) = lastSet t := by
  simp [lastSet, he]

/-- The persisted state and the copies of the current calls have the value of the last
    `set_desired` write. -/
structure DesiredInv (w : UnitWorld) : Prop where
  state : ∀ v, lastSet w.trace = some v →
    ∃ d, w.state = some (.doc d) ∧ d.get "desired" = .str v
  loaded : ∀ v, lastSet w.trace = some v → ∀ i c, (w.mem i).loaded = some c →
    LoadedSince w.trace i → ∀ unit, (stateOf unit c).get "desired" = .str v

theorem stateOf_desired {unit v : String} {d : Dict} (h : d.get "desired" = .str v) :
    (stateOf unit (some (.doc d))).get "desired" = .str v :=
  get_backfill (by decide) (lookup_of_get h (by simp))

/-- A step whose entry is no load and no save keeps the copies. -/
theorem DesiredInv.quiet {w w' : UnitWorld} (h : DesiredInv w) {e : Entry}
    (ht : w'.trace = e :: w.trace) (hs : w'.state = w.state)
    (hm : ∀ i, (w'.mem i).loaded = (w.mem i).loaded) (he : ∀ i, e.loads i = false)
    (hv : e.setValue = none) : DesiredInv w' where
  state := fun v hl => by rw [hs]; exact h.state v (by rwa [ht, lastSet_cons hv] at hl)
  loaded := by
    intro v hl i c hc hsince unit
    rw [ht, lastSet_cons hv] at hl
    rw [ht, loadedSince_cons (he i)] at hsince
    exact h.loaded v hl i c (hm i ▸ hc) hsince.2 unit

/-- What a call saves: a `set_desired` its value, every other call the value of its copy. -/
theorem StateWrite.desired {unit : String} {m : Mem} {d : Dict} (h : StateWrite unit m d) :
    (∃ v, m.call = some (.setDesired v) ∧ d.get "desired" = .str v) ∨
    (∀ v, m.call ≠ some (.setDesired v)) ∧
      ∃ u c, m.loaded = some c ∧ d.get "desired" = (stateOf u c).get "desired" := by
  cases hc : m.call with
  | none => simp only [StateWrite, hc] at h
  | some k =>
    cases k <;> simp only [StateWrite, hc] at h
    case setDesired v =>
      obtain ⟨c, -, rfl⟩ := h
      exact .inl ⟨v, rfl, Dict.get_set_self ..⟩
    case heartbeat hb =>
      obtain ⟨c, g, hl, -, -, hd⟩ := h
      exact .inr ⟨by simp, unit, c, hl,
        get_of_dumpsWith hd (opaqueEntries_ne (by decide))⟩
    case reconcile spec policy rounds =>
      obtain ⟨-, -, c, hl, hd⟩ := h
      exact .inr ⟨by simp, spec.unit, c, hl, hd.desired⟩

theorem DesiredInv.read {w v : UnitWorld} (h : DesiredInv w) {i : ℕ} {ch : UnitEnv}
    {r : Except Exc Content} (he : w.effect i ch .readState = some (r, v)) :
    DesiredInv (v.record i .readState r) := by
  have hrec := UnitWorld.effect_recorded he
  obtain ⟨hs, hcase⟩ := UnitWorld.effect_readState he
  refine ⟨fun val hl => ?_, fun val hl j c hc hsince u => ?_⟩
  · rw [hrec.trace, lastSet_cons (by rfl)] at hl
    rw [show (v.record i .readState r).state = v.state from rfl, hs]
    exact h.state val hl
  rw [hrec.trace, lastSet_cons (by rfl)] at hl
  by_cases hj : j = i
  · subst hj
    rw [hrec.self] at hc
    obtain ⟨d, hd, hval⟩ := h.state val hl
    rcases hcase with ⟨c', hc', rfl⟩ | ⟨hnone, -⟩
    · rw [hd] at hc'
      cases hc'
      cases hc
      exact stateOf_desired hval
    · rw [hd] at hnone; cases hnone
  · rw [hrec.other j hj] at hc
    rw [hrec.trace, loadedSince_cons (by simp [Entry.loads, Ne.symm hj])] at hsince
    exact h.loaded val hl j c hc hsince.2 u

theorem DesiredInv.save {unit : String} {w : UnitWorld} (h : DesiredInv w) {i : ℕ} {d : Dict}
    (hok : StateWrite unit (w.mem i) d)
    (hkeep : (∀ v, (w.mem i).call ≠ some (.setDesired v)) → LoadedSince w.trace i) :
    DesiredInv ({ w with state := some (.doc d) }.record i (.replaceState d) (.ok ())) := by
  have hload : ∀ j, ((({ w with state := some (.doc d) } : UnitWorld).record i (.replaceState d)
      (.ok ())).mem j).loaded = (w.mem j).loaded := by
    intro j
    by_cases hj : j = i
    · subst hj; rw [UnitWorld.record_mem_self]; rfl
    · rw [UnitWorld.record_mem_ne hj]
  rcases hok.desired with ⟨v, hc, hd⟩ | ⟨hc, u, c, hl, hd⟩
  · have hset : Entry.setValue ⟨i, w.id i, (w.mem i).call, .replaceState d, true⟩ = some v := by
      simp [Entry.setValue, hc]
    refine ⟨fun val hl => ?_, fun val hl j c hc hsince => ?_⟩
    · have hv : v = val := by
        simpa [lastSet, List.findSome?_cons, hset, Except.isOk, Except.toBool] using hl
      exact ⟨d, rfl, hv ▸ hd⟩
    · rw [UnitWorld.record_trace, loadedSince_cons (by simp [Entry.loads])] at hsince
      exact absurd (hset.symm.trans hsince.1) (by simp)
  · have hset : Entry.setValue ⟨i, w.id i, (w.mem i).call, .replaceState d, true⟩ = none := by
      unfold Entry.setValue
      split
      · rename_i v _ hv; exact absurd hv (hc v)
      · rfl
    refine ⟨fun val hlast => ⟨d, rfl, ?_⟩, fun val hlast j c' hc' hsince u' => ?_⟩
    · rw [hd]
      exact h.loaded val ((lastSet_cons hset).symm.trans hlast) i c hl (hkeep hc) u
    · rw [UnitWorld.record_trace, loadedSince_cons (by simp [Entry.loads])] at hsince
      exact h.loaded val ((lastSet_cons hset).symm.trans hlast) j c' (hload j ▸ hc') hsince.2 u'

theorem DesiredInv.op {unit : String} {w w' : UnitWorld} (h : DesiredInv w) {i : ℕ} {ch : UnitEnv}
    {o : UnitOp} {r : Except Exc o.Val} (hok : o.ok unit (w.mem i))
    (hkeep : ∀ d, o = .replaceState d → (∀ v, (w.mem i).call ≠ some (.setDesired v)) →
      LoadedSince w.trace i)
    (hop : w.op i ch o = some (r, w')) : DesiredInv w' := by
  rcases UnitWorld.op_cases hop with ⟨rfl, -⟩ | ⟨r', v, he, rfl, -⟩
  · exact h
  have hrec := UnitWorld.effect_recorded he
  by_cases hread : o = .readState
  · subst hread; exact h.read he
  rcases UnitWorld.effect_state he with hs | ⟨d, rfl, -⟩
  · by_cases hrep : ∃ d, o = .replaceState d
    · obtain ⟨d, rfl⟩ := hrep
      simp only [UnitWorld.effect, Option.some.injEq, Prod.mk.injEq] at he
      obtain ⟨rfl, rfl⟩ := he
      exact h.save hok (hkeep d rfl)
    · refine h.quiet hrec.trace hs
        (fun j => ?_) (fun j => ?_) ?_
      · by_cases hj : j = i
        · subst hj; rw [hrec.self, Mem.note_loaded hread]
        · rw [hrec.other j hj]
      · cases o <;> simp_all [Entry.loads]
      · cases o <;> simp_all [Entry.setValue]
  · simp only [UnitWorld.effect, Option.some.injEq, Prod.mk.injEq] at he
    obtain ⟨rfl, rfl⟩ := he
    exact h.save hok (hkeep d rfl)

theorem DesiredInv.frame {w w' : UnitWorld} (h : DesiredInv w) (ht : w'.trace = w.trace)
    (hs : w'.state = w.state)
    (hm : ∀ i, (w'.mem i).loaded = none ∨ (w'.mem i).loaded = (w.mem i).loaded) :
    DesiredInv w' where
  state := fun v hl => by rw [hs]; exact h.state v (ht ▸ hl)
  loaded := by
    intro v hl i c hc hsince unit
    rcases hm i with hn | he
    · rw [hn] at hc; cases hc
    · exact h.loaded v (ht ▸ hl) i c (he ▸ hc) (ht ▸ hsince) unit

theorem desired_rely (unit : String) : Rely (fleet unit) KeepsDesired DesiredInv
    (fun i w => w.mem i) UnitOp.upd (UnitOp.Allowed unit) UnitCall.fin := by
  have hclose : ∀ (w : UnitWorld) i, DesiredInv w → DesiredInv (w.close i) := fun w i h =>
    h.frame (UnitWorld.close_frame i).1 (UnitWorld.close_frame i).2.1 fun j => by
      by_cases hj : j = i
      · subst hj; left; simp [UnitWorld.close]
      · right; rw [UnitWorld.close_view j hj]
  refine fleet_rely (fun c i k w _ h _ hs => ?_) (fun c i ch k o f r w hp h hr hok hop => ?_)
    (fun c i k r _ h _ _ => hclose _ i h) fun c i _ h => hclose _ i h
  · obtain ⟨hm, hj⟩ := UnitWorld.start_view hs
    obtain ⟨ht, hst, -⟩ := UnitWorld.start_frame hs
    refine h.frame ht hst fun j => ?_
    by_cases hji : j = i
    · subst hji; left; rw [hm]
    · right; rw [hj j hji]
  · exact h.op hok.ok (fun d hd => hp d (hd ▸ Cfg.next_call hr)) hop

/-- **The desired state is kept** where no pass and no heartbeat saves a copy loaded
    before the last `set_desired` write. -/
theorem desired_kept {unit : String} {environ : Env} {proc : ℕ → ℕ} {pid : Option PidFile}
    {state : Option Content} {tokens : List String} {c : UnitCfg}
    (h : (fleet unit).Reach KeepsDesired (idle (.init environ proc pid state tokens)) c)
    {v : String} (hv : lastSet c.sh.trace = some v) :
    ∃ d, c.sh.state = some (.doc d) ∧ d.get "desired" = .str v :=
  ((desired_rely unit).inv ⟨fun _ h => (by cases h), fun _ h => (by cases h)⟩ h).1.state v hv

/-- A heartbeat of generation 0. -/
def beat : PyDict := [(.str "generation", .int 0), (.str "health", .str "ok")]

/-- The steps of saving the state, and the end of the call. -/
def saveSteps (i : ℕ) : List UnitAct := List.replicate 9 (.op i {}) ++ [.finish i]

/-- The unit directory is empty. -/
def emptyUnit : UnitCfg := idle (.init ∅ (fun _ => 0) none none [])

def keepsDesired (c : UnitCfg) : UnitAct → Bool
  | .op i _ =>
    match c.next i, (c.sh.mem i).call with
    | some (.replaceState _), some (.setDesired _) => true
    | some (.replaceState _), _ =>
      (c.sh.trace.takeWhile fun e => !e.loads i).all fun e => e.setValue.isNone
    | _, _ => true
  | _ => true

theorem keepsDesired_spec {c : UnitCfg} {a : UnitAct} (h : keepsDesired c a = true) :
    KeepsDesired c a := by
  cases a with
  | op i ch =>
    intro d hd hc e he
    simp only [keepsDesired, hd] at h
    exact Option.isNone_iff_eq_none.1 (List.all_eq_true.1 h e he)
  | _ => trivial

/-- A unit is paused, then a heartbeat arrives. -/
theorem desired_kept_paused : ∃ c, (fleet "u").Reach KeepsDesired emptyUnit c ∧
    lastSet c.sh.trace = some "paused" ∧
    ∃ d, c.sh.state = some (.doc d) ∧ d.get "desired" = .str "paused" := by
  obtain ⟨c, hc, hq, -⟩ := Reach.exists_of_run (fleet "u") emptyUnit keepsDesired
    ([.start 0 (.setDesired "paused"), .op 0 {}] ++ saveSteps 0 ++
      [.start 1 (.heartbeat beat), .op 1 {}] ++ saveSteps 1)
    (fun c => lastSet c.sh.trace == some "paused") (fun _ _ => keepsDesired_spec) rfl
  have hv := eq_of_beq hq
  exact ⟨c, hc, hv, desired_kept hc hv⟩

/-- A heartbeat loads the state; the unit is enabled; the heartbeat saves its copy. -/
def lostUpdate : List UnitAct :=
  [.start 1 (.heartbeat beat), .op 1 {}, .start 0 (.setDesired "enabled"), .op 0 {}] ++
    saveSteps 0 ++ saveSteps 1

/-- The last command written was `enabled`, and the persisted state has another one. -/
def lostEnabled (c : UnitCfg) : Bool :=
  (c.run 0).isNone && (c.run 1).isNone && lastSet c.sh.trace == some "enabled" &&
    ((c.sh.state.bind Content.asDoc).map fun d => !(d.get "desired").eqStr "enabled").getD false

/-- **An operator's command can be lost**: a heartbeat that loaded the state before
    puts the older desired state back. -/
theorem desired_lost : ¬ ∀ (unit : String) (environ : Env) (proc : ℕ → ℕ) (pid : Option PidFile)
    (state : Option Content) (tokens : List String) (c : UnitCfg) (v : String),
    (fleet unit).Reach (fun _ _ => True) (idle (.init environ proc pid state tokens)) c →
      (∀ i, c.run i = none) → lastSet c.sh.trace = some v →
        ∃ d, c.sh.state = some (.doc d) ∧ d.get "desired" = .str v := by
  intro h
  obtain ⟨c, hc, hq, hrun⟩ := Reach.exists_of_run (fleet "u") emptyUnit (fun _ _ => true) lostUpdate
    lostEnabled (fun _ _ _ => trivial) (by decide +kernel)
  simp only [lostEnabled, Bool.and_eq_true, Option.isNone_iff_eq_none, beq_iff_eq] at hq
  obtain ⟨⟨⟨h₀, h₁⟩, hv⟩, hd⟩ := hq
  have hidle : ∀ i, c.run i = none := by
    intro i
    by_cases hi : i = 0
    · rw [hi, h₀]
    by_cases hi' : i = 1
    · rw [hi', h₁]
    exact hrun i (by simp [lostUpdate, saveSteps, Act.thread, hi, hi'])
  obtain ⟨d, hs, hget⟩ := h "u" ∅ _ none none [] c "enabled" hc hidle hv
  simp [hs, hget, Json.eqStr, Content.asDoc] at hd

/-! ## The generation -/

/-- The generation a call that reads the content works with. -/
def genOf (c : Option Content) : Except Exc ℤ := pyInt ((stateOf "" c).get "generation")

/-- A step that, if it is a save of no pass, is of a copy with the generation still
    persisted. -/
def KeepsGeneration (c : UnitCfg) : UnitAct → Prop
  | .op i _ => ∀ d copy, c.next i = some (.replaceState d) →
      (∀ spec policy rounds, (c.sh.mem i).call ≠ some (.reconcile spec policy rounds)) →
      (c.sh.mem i).loaded = some copy → genOf c.sh.state = genOf copy
  | _ => True

/-- The copy of a pass that has not saved has the persisted generation. -/
structure GenInv (w : UnitWorld) : Prop where
  owned : w.LockOwned
  loaded : ∀ i c, (w.mem i).locked = true → (w.mem i).saved = false → (w.mem i).loaded = some c →
    genOf w.state = genOf c

theorem get_update_congr {d d' : Dict} {k : String} (h : d.get k = d'.get k)
    (l : List (String × Json)) : (d.update l).get k = (d'.update l).get k := by
  induction l generalizing d d' with
  | nil => exact h
  | cons p l ih =>
    refine ih ?_
    by_cases hp : k = p.1
    · rw [hp, Dict.get_set_self, Dict.get_set_self]
    · rw [Dict.get_set_ne _ _ hp, Dict.get_set_ne _ _ hp, h]

/-- The generation in a state does not depend on the unit's name. -/
theorem genOf_eq (unit : String) (c : Option Content) :
    pyInt ((stateOf unit c).get "generation") = genOf c := by
  have hdef : (defaultState unit).get "generation" = (defaultState "").get "generation" := rfl
  unfold genOf stateOf backfill
  split
  · rw [Dict.get_set_ne _ _ (by decide), Dict.get_set_ne _ _ (by decide), hdef]
  · rw [Dict.get_set_ne _ _ (by decide), Dict.get_set_ne _ _ (by decide), get_update_congr hdef]

theorem genOf_doc {d : Dict} (h : "generation" ∈ d) :
    genOf (some (.doc d)) = pyInt (d.get "generation") := by
  obtain ⟨v, hv⟩ := Option.isSome_iff_exists.1 (AList.lookup_isSome.2 h)
  have hget : d.get "generation" = v := by simp [Dict.get, hv]
  rw [hget, genOf, stateOf, Option.bind_some, Content.asDoc, get_backfill (by decide) hv]

theorem mem_of_get {d : Dict} {k : String} (h : d.get k ≠ .null) : k ∈ d := by
  rw [← AList.lookup_isSome]
  unfold Dict.get at h
  cases hl : d.lookup k with
  | none => rw [hl] at h; exact absurd rfl h
  | some v => rfl

theorem genOf_doc_ok {d : Dict} {n : ℤ} (h : pyInt (d.get "generation") = .ok n) :
    genOf (some (.doc d)) = .ok n := by
  rw [genOf_doc (mem_of_get fun hn => ?_), h]
  rw [hn] at h
  cases h

theorem mem_set {d : Dict} {k k' : String} {v : Json} (h : k ∈ d) : k ∈ d.set k' v :=
  (AList.mem_insert d).2 (.inr h)

theorem mem_update {d : Dict} {k : String} (h : k ∈ d) (l : List (String × Json)) :
    k ∈ d.update l := by
  induction l generalizing d with
  | nil => exact h
  | cons p l ih => exact ih (mem_set h)

theorem generation_mem_stateOf (unit : String) (c : Option Content) :
    "generation" ∈ stateOf unit c := by
  have hdef : "generation" ∈ defaultState unit :=
    mem_of_get (by simp [defaultState, Dict.update, Dict.get_set_ne])
  unfold stateOf backfill
  split
  · exact mem_set hdef
  · exact mem_set (mem_update hdef _)

/-- What a call saves, against the copy it has loaded: the same generation, or a pass
    the next one. -/
theorem StateWrite.generation {unit : String} {m : Mem} {d : Dict} (h : StateWrite unit m d) :
    ∃ c, m.loaded = some c ∧
      ((∀ spec policy rounds, m.call ≠ some (.reconcile spec policy rounds)) →
        genOf (some (.doc d)) = genOf c) ∧
      ∀ g, genOf c = .ok g → ∃ g', g ≤ g' ∧ genOf (some (.doc d)) = .ok g' := by
  have hsame : ∀ c, genOf (some (.doc d)) = genOf c →
      ∀ g, genOf c = .ok g → ∃ g', g ≤ g' ∧ genOf (some (.doc d)) = .ok g' :=
    fun c he g hg => ⟨g, Int.le_refl g, he.trans hg⟩
  cases hc : m.call with
  | none => simp only [StateWrite, hc] at h
  | some k =>
    cases k <;> simp only [StateWrite, hc] at h
    case setDesired v =>
      obtain ⟨c, hl, rfl⟩ := h
      have he : genOf (some (.doc ((stateOf unit c).set "desired" (.str v)))) = genOf c := by
        rw [genOf_doc (mem_set (generation_mem_stateOf unit c)),
          Dict.get_set_ne _ _ (by decide), genOf_eq]
      exact ⟨c, hl, fun _ => he, hsame c he⟩
    case heartbeat hb =>
      obtain ⟨c, g, hl, -, hg, hd⟩ := h
      have he : genOf (some (.doc d)) = genOf c := by
        rw [← genOf_eq unit c, hg]
        exact genOf_doc_ok (by rw [get_of_dumpsWith hd (opaqueEntries_ne (by decide)), hg])
      exact ⟨c, hl, fun _ => he, hsame c he⟩
    case reconcile spec policy rounds =>
      obtain ⟨-, -, c, hl, hd⟩ := h
      refine ⟨c, hl, fun hn => absurd rfl (hn spec policy rounds), fun g hg => ?_⟩
      rcases hd.generation with ⟨-, he⟩ | ⟨g₀, k, pid, l, hg₀, -, -, he⟩
      · exact ⟨g, Int.le_refl g, genOf_doc_ok (by rw [he, genOf_eq, hg])⟩
      · have hgg : g₀ = g := by
          rw [genOf_eq, hg] at hg₀
          exact (Except.ok.inj hg₀).symm
        exact ⟨g₀ + 1, by omega, genOf_doc_ok (by rw [he]; rfl)⟩

/-- A save keeps the generation for all other calls, and lowers it for none. -/
theorem GenInv.save {unit : String} {w : UnitWorld} (h : GenInv w) {i : ℕ} {d : Dict}
    (hok : StateWrite unit (w.mem i) d)
    (hkeep : ∀ copy, (∀ spec policy rounds, (w.mem i).call ≠ some (.reconcile spec policy rounds)) →
      (w.mem i).loaded = some copy → genOf w.state = genOf copy) :
    (∀ j c, j ≠ i → (w.mem j).locked = true → (w.mem j).saved = false → (w.mem j).loaded = some c →
      genOf (some (.doc d)) = genOf c) ∧
    ∀ g, genOf w.state = .ok g → ∃ g', g ≤ g' ∧ genOf (some (.doc d)) = .ok g' := by
  obtain ⟨c, hl, hsame, hmono⟩ := hok.generation
  by_cases hc : ∃ spec policy rounds, (w.mem i).call = some (.reconcile spec policy rounds)
  · obtain ⟨spec, policy, rounds, hc⟩ := hc
    simp only [StateWrite, hc] at hok
    obtain ⟨hlock, hsaved, -⟩ := hok
    refine ⟨fun j c' hj hlj => ?_, fun g hg => hmono g ?_⟩
    · have hij := (h.owned j hlj).symm.trans (h.owned i hlock)
      exact absurd (Option.some.inj hij) hj
    · rw [← h.loaded i c hlock hsaved hl, hg]
  · have hc' : ∀ spec policy rounds, (w.mem i).call ≠ some (.reconcile spec policy rounds) :=
      fun spec policy rounds he => hc ⟨spec, policy, rounds, he⟩
    have hst := hkeep c hc' hl
    refine ⟨fun j c' _ hlj hsj hcj => ?_, fun g hg => hmono g (hst ▸ hg)⟩
    rw [hsame hc', ← hst, h.loaded j c' hlj hsj hcj]

theorem GenInv.op {unit : String} {w w' : UnitWorld} (h : GenInv w) {i : ℕ} {ch : UnitEnv}
    {o : UnitOp} {r : Except Exc o.Val} (hok : o.ok unit (w.mem i))
    (hkeep : ∀ d copy, o = .replaceState d →
      (∀ spec policy rounds, (w.mem i).call ≠ some (.reconcile spec policy rounds)) →
      (w.mem i).loaded = some copy → genOf w.state = genOf copy)
    (hop : w.op i ch o = some (r, w')) :
    GenInv w' ∧ ∀ g, genOf w.state = .ok g → ∃ g', g ≤ g' ∧ genOf w'.state = .ok g' := by
  have howned := h.owned.op hop
  rcases UnitWorld.op_cases hop with ⟨rfl, -⟩ | ⟨r', v, he, rfl, -⟩
  · exact ⟨h, fun g hg => ⟨g, Int.le_refl g, hg⟩⟩
  have hrec := UnitWorld.effect_recorded he
  by_cases hrep : ∃ d, o = .replaceState d
  · obtain ⟨d, rfl⟩ := hrep
    obtain ⟨hother, hmono⟩ := h.save hok fun copy => hkeep d copy rfl
    simp only [UnitWorld.effect, Option.some.injEq, Prod.mk.injEq] at he
    obtain ⟨rfl, rfl⟩ := he
    refine ⟨⟨howned, fun j c hlj hsj hcj => ?_⟩, hmono⟩
    by_cases hj : j = i
    · subst hj; rw [UnitWorld.record_mem_self] at hsj; cases hsj
    · rw [UnitWorld.record_mem_ne hj] at hlj hsj hcj
      exact hother j c hj hlj hsj hcj
  have hs : v.state = w.state := by
    rcases UnitWorld.effect_state he with hs | ⟨d, rfl, -⟩
    · exact hs
    · exact absurd ⟨d, rfl⟩ hrep
  refine ⟨⟨howned, fun j c hlj hsj hcj => ?_⟩, fun g hg => ⟨g, Int.le_refl g, hs ▸ hg⟩⟩
  rw [show (v.record i o r').state = v.state from rfl, hs]
  by_cases hj : j = i
  swap
  · rw [hrec.other j hj] at hlj hsj hcj
    exact h.loaded j c hlj hsj hcj
  subst hj
  rw [hrec.self] at hlj hsj hcj
  by_cases hread : o = .readState
  · subst hread
    obtain ⟨-, ⟨c', hc', rfl⟩ | ⟨hnone, rfl⟩⟩ := UnitWorld.effect_readState he
    · cases hcj; rw [hc']
    · cases hcj; rw [hnone]
  rw [Mem.note_loaded hread] at hcj
  rw [Mem.note_saved fun d hd => hrep ⟨d, hd⟩] at hsj
  by_cases hflock : o = .flock
  · subst hflock
    rw [hok.1] at hcj
    cases hcj
  · exact h.loaded j c (Mem.note_locked hflock hlj) hsj hcj

theorem GenInv.frame {w w' : UnitWorld} (h : GenInv w) (howned : w'.LockOwned)
    (hs : w'.state = w.state) {i : ℕ} (hi : (w'.mem i).loaded = none)
    (hj : ∀ j ≠ i, w'.mem j = w.mem j) : GenInv w' where
  owned := howned
  loaded := by
    intro j c hlj hsj hcj
    by_cases hji : j = i
    · rw [hji, hi] at hcj; cases hcj
    · rw [hj j hji] at hlj hsj hcj
      rw [hs]; exact h.loaded j c hlj hsj hcj

theorem GenInv.start {unit : String} {w w' : UnitWorld} (h : GenInv w) {i : ℕ} {k : UnitCall}
    (hs : w.start unit i k = some w') : GenInv w' := by
  obtain ⟨hm, hj⟩ := UnitWorld.start_view hs
  exact h.frame (h.owned.start hs) (UnitWorld.start_frame hs).2.1 (by rw [hm]) hj

theorem GenInv.close {w : UnitWorld} (h : GenInv w) (i : ℕ) : GenInv (w.close i) :=
  h.frame (h.owned.close i) (UnitWorld.close_frame i).2.1 (by simp [UnitWorld.close])
    UnitWorld.close_view

theorem generation_rely (unit : String) : Rely (fleet unit) KeepsGeneration GenInv
    (fun i w => w.mem i) UnitOp.upd (UnitOp.Allowed unit) UnitCall.fin :=
  fleet_rely (fun _ _ _ _ _ h _ hs => h.start hs)
    (fun _ _ _ _ _ _ _ _ hp h hr hok hop =>
      (h.op hok.ok (fun d copy hd => hp d copy (hd ▸ Cfg.next_call hr)) hop).1)
    (fun _ i _ _ _ h _ _ => h.close i) fun _ i _ h => h.close i

theorem genInv_init {environ : Env} {proc : ℕ → ℕ} {pid : Option PidFile} {state : Option Content}
    {tokens : List String} : GenInv (.init environ proc pid state tokens) :=
  ⟨UnitWorld.lockOwned_init, fun _ _ h => by cases h⟩

/-- A step never lowers the persisted generation. -/
theorem generation_step {unit : String} {w₀ : UnitWorld} {c c' : UnitCfg} {a : UnitAct}
    (h₀ : GenInv w₀) (h : (fleet unit).Reach KeepsGeneration (idle w₀) c) (hp : KeepsGeneration c a)
    (hs : (fleet unit).step c a = some c') {g : ℤ} (hg : genOf c.sh.state = .ok g) :
    ∃ g', g ≤ g' ∧ genOf c'.sh.state = .ok g' := by
  have hI := ((generation_rely unit).inv h₀ h).1
  rcases step_cases hs with ⟨i, k, s, rfl, hr, hst, rfl⟩ |
    ⟨i, ch, k, o, f, r, s, rfl, hr, hop, rfl⟩ | ⟨i, k, r, rfl, hr, rfl⟩ | ⟨i, rfl, rfl⟩
  · exact ⟨g, Int.le_refl g, (UnitWorld.start_frame hst).2.1 ▸ hg⟩
  · exact (hI.op ((generation_rely unit).ok_next h₀ h hr).ok
      (fun d copy hd => hp d copy (hd ▸ Cfg.next_call hr)) hop).2 g hg
  · exact ⟨g, Int.le_refl g, (UnitWorld.close_frame i).2.1.symm ▸ hg⟩
  · exact ⟨g, Int.le_refl g, (UnitWorld.close_frame i).2.1.symm ▸ hg⟩

/-- **The persisted generation never decreases**, and no heartbeat of an older generation
    is saved, where every copy saved by `set_desired` or a heartbeat still has the
    persisted generation. -/
theorem generation_kept {unit : String} {environ : Env} {proc : ℕ → ℕ} {pid : Option PidFile}
    {state : Option Content} {tokens : List String} {c c' : UnitCfg}
    (h : (fleet unit).Reach KeepsGeneration (idle (.init environ proc pid state tokens)) c)
    (h' : (fleet unit).Reach KeepsGeneration c c') :
    (∀ g, genOf c.sh.state = .ok g → ∃ g', g ≤ g' ∧ genOf c'.sh.state = .ok g') ∧
    ∀ i ch d hb g n, KeepsGeneration c' (.op i ch) → c'.next i = some (.replaceState d) →
      (c'.sh.mem i).call = some (.heartbeat hb) → (hb.get "generation").asInt = some g →
      genOf c'.sh.state = .ok n → n ≤ g := by
  constructor
  · intro g hg
    induction h' with
    | refl => exact ⟨g, Int.le_refl g, hg⟩
    | step hr hp hs ih =>
      obtain ⟨g₁, hle, hg₁⟩ := ih
      obtain ⟨g₂, hle', hg₂⟩ := generation_step genInv_init (h.trans hr) hp hs hg₁
      exact ⟨g₂, Int.le_trans hle hle', hg₂⟩
  · intro i ch d hb g n hp hd hc hg hn
    unfold Cfg.next at hd
    split at hd
    swap
    · cases hd
    rename_i k o f hr
    cases hd
    have hok : StateWrite unit (c'.sh.mem i) d :=
      ((generation_rely unit).ok_next genInv_init (h.trans h') hr).ok
    simp only [StateWrite, hc] at hok
    obtain ⟨copy, g', hl, hg', hgen, -⟩ := hok
    rw [hg] at hg'
    cases hg'
    have hkeep := hp d copy (Cfg.next_call hr) (by simp [hc]) hl
    rw [genOf_eq, ← hkeep, hn] at hgen
    exact Int.le_of_eq (Except.ok.inj hgen)

def UnitCall.isPass : UnitCall → Bool
  | .reconcile .. => true
  | _ => false

def keepsGeneration (c : UnitCfg) : UnitAct → Bool
  | .op i _ =>
    match c.next i with
    | some (.replaceState _) => (c.sh.mem i).call.any UnitCall.isPass ||
        (c.sh.mem i).loaded.all fun copy =>
          match genOf c.sh.state, genOf copy with
          | .ok n, .ok m => n = m
          | _, _ => false
    | _ => true
  | _ => true

theorem keepsGeneration_spec {c : UnitCfg} {a : UnitAct} (h : keepsGeneration c a = true) :
    KeepsGeneration c a := by
  cases a with
  | op i ch =>
    intro d copy hd hc hl
    have hpass : (c.sh.mem i).call.any UnitCall.isPass = false := by
      cases hk : (c.sh.mem i).call with
      | none => rfl
      | some k => cases k <;> first | rfl | exact absurd hk (hc _ _ _)
    simp only [keepsGeneration, hd, hpass, hl, Bool.false_or, Option.all_some] at h
    split at h
    · rename_i n m hn hm
      rw [hn, hm, of_decide_eq_true h]
    · cases h
  | _ => trivial

/-- A consumer whose process gets no generation in its environment. -/
def consumer : ProcessSpec := { unit := "u", command := ["run"], generationEnv := none }

/-- The answers of an environment without faults; the token of the next launch. -/
def answers (token : String) : UnitEnv := { uuid := token, pid := 42, count := 16 }

/-- Thread `i` performs `n` operations. -/
def ops (i n : ℕ) (ch : UnitEnv) : List UnitAct := List.replicate n (.op i ch)

/-- A pass that launches the consumer, up to the acknowledgement of the child `k`,
    whose wrapper runs in thread 2. -/
def launchSteps (token : String) (k : ℕ) : List UnitAct :=
  [.start 0 (.reconcile consumer (fun _ => .ok true) 1)] ++ ops 0 23 (answers token) ++
    [.start 2 (.gate k 5), .op 2 (answers token)] ++ ops 0 15 (answers token)

/-- The child executes the consumer command. -/
def execSteps : List UnitAct := ops 2 3 (answers "") ++ [.finish 2]

/-- The persisted generation is `g`. -/
def hasGeneration (g : ℤ) (c : UnitCfg) : Bool :=
  match genOf c.sh.state with
  | .ok n => n = g
  | .error _ => false

theorem hasGeneration_spec {g : ℤ} {c : UnitCfg} (h : hasGeneration g c = true) :
    genOf c.sh.state = .ok g := by
  unfold hasGeneration at h
  split at h
  · rename_i n hn; rw [hn, of_decide_eq_true h]
  · cases h

/-- Thread `i` is about to save a heartbeat of generation `g`. -/
def savesBeat (i : ℕ) (g : ℤ) (c : UnitCfg) : Bool :=
  match c.next i, (c.sh.mem i).call with
  | some (.replaceState _), some (.heartbeat hb) => (hb.get "generation").asInt = some g
  | _, _ => false

theorem savesBeat_spec {i : ℕ} {g : ℤ} {c : UnitCfg} (h : savesBeat i g c = true) :
    ∃ d hb, c.next i = some (.replaceState d) ∧ (c.sh.mem i).call = some (.heartbeat hb) ∧
      (hb.get "generation").asInt = some g := by
  unfold savesBeat at h
  split at h
  · rename_i d hb hd hc
    exact ⟨d, hb, hd, hc, of_decide_eq_true h⟩
  · cases h

/-- The pass saves the state and ends. -/
def passEnd : List UnitAct := ops 0 14 (answers "") ++ [.finish 0]

/-- A heartbeat of generation `g`. -/
def beatOf (g : ℤ) : PyDict := [(.str "generation", .int g), (.str "health", .str "ok")]

/-- The consumer is launched, then a heartbeat of its generation arrives at its save. -/
def launchThenBeat : List UnitAct :=
  launchSteps "t" 0 ++ passEnd ++ [.start 1 (.heartbeat (beatOf 1)), .op 1 {}] ++ ops 1 4 {}

theorem generation_kept_beat : ∃ c, (fleet "u").Reach KeepsGeneration emptyUnit c ∧
    (∃ g, 0 ≤ g ∧ genOf c.sh.state = .ok g) ∧
    ∃ d, c.next 1 = some (.replaceState d) ∧ ∀ n, genOf c.sh.state = .ok n → n ≤ 1 := by
  obtain ⟨c, hc, hq, -⟩ := Reach.exists_of_run (fleet "u") emptyUnit keepsGeneration launchThenBeat
    (fun c => savesBeat 1 1 c && keepsGeneration c (.op 1 {})) (fun _ _ => keepsGeneration_spec)
    (by decide +kernel)
  obtain ⟨hsave, hkeep⟩ := Bool.and_eq_true_iff.1 hq
  obtain ⟨d, hb, hd, hcall, hg⟩ := savesBeat_spec hsave
  obtain ⟨hmono, hbeat⟩ := generation_kept .refl hc
  exact ⟨c, hc, hmono 0 rfl, d, hd, fun n hn =>
    hbeat 1 {} d hb 1 n (keepsGeneration_spec hkeep) hd hcall hg hn⟩

/-- A heartbeat of generation 0 loads the state; a pass launches generation 1 and saves
    it; the heartbeat saves its copy. -/
def straddle : List UnitAct :=
  [.start 1 (.heartbeat beat), .op 1 {}] ++ launchSteps "t" 0 ++ execSteps ++ passEnd

/-- **The generation can go back**: a heartbeat that loaded the state before a launch
    puts the older generation back. -/
theorem generation_lost : ¬ ∀ (unit : String) (environ : Env) (proc : ℕ → ℕ) (pid : Option PidFile)
    (state : Option Content) (tokens : List String) (c c' : UnitCfg) (g : ℤ),
    (fleet unit).Reach (fun _ _ => True) (idle (.init environ proc pid state tokens)) c →
      (fleet unit).Reach (fun _ _ => True) c c' → genOf c.sh.state = .ok g →
        ∃ g', g ≤ g' ∧ genOf c'.sh.state = .ok g' := by
  intro h
  obtain ⟨c, hc, hq, -⟩ := Reach.exists_of_run (fleet "u") emptyUnit (fun _ _ => true) straddle
    (fun c => hasGeneration 1 c &&
      ((fleet "u").run (fun _ _ => true) c (saveSteps 1)).any (hasGeneration 0))
    (fun _ _ _ => trivial) (by decide +kernel)
  rw [Bool.and_eq_true] at hq
  obtain ⟨c', hc', hq', -⟩ := Reach.exists_of_run (fleet "u") c (fun _ _ => true) (saveSteps 1)
    (hasGeneration 0) (fun _ _ _ => trivial) hq.2
  obtain ⟨g', hle, hg'⟩ := h "u" ∅ _ none none [] c c' 1 hc hc' (hasGeneration_spec hq.1)
  rw [hasGeneration_spec hq'] at hg'
  cases hg'
  exact absurd hle (by decide)

end DatasourceKit

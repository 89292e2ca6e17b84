/-
  Which keys of the state are whose.

  * `KeyWrite`: what one save of the state assigns, on behalf of the reconciler or of a
    heartbeat; `History`: the states saved so far are those of a list of writes;
  * `lastAssigned`: the value that the reconciler has assigned last;
  * `keys_owned`: where no accepted heartbeat brings a mark, all keys of the reconciler have
    that value, and the heartbeat of an observation has exactly the merged keys if no write
    of the reconciler has set a mark;
  * `mark_forged`: a heartbeat can bring a mark.
-/
import DatasourceKit.Fleet.LaunchRecord
import DatasourceKit.Fleet.Observation

namespace DatasourceKit

open Interleave Interleave.Prog Interleave.Machine

/-! ## Keys and values -/

theorem lookup_update (d : Dict) (l : List (String × Json)) (k : String) :
    (d.update l).lookup k = ((Dict.update ∅ l).lookup k).or (d.lookup k) := by
  induction l generalizing d with
  | nil => rfl
  | cons p l ih =>
    have hset : ∀ d : Dict, (d.update (p :: l)).lookup k =
        ((Dict.update ∅ l).lookup k).or ((d.set p.1 p.2).lookup k) :=
      fun d => ih (d.set p.1 p.2)
    rw [hset, hset ∅, Option.or_assoc]
    congr 1
    by_cases hk : k = p.1
    · subst hk
      simp [Dict.lookup_set_self]
    · rw [Dict.lookup_set_ne _ _ hk, Dict.lookup_set_ne _ _ hk]
      rfl

theorem isSome_lookup_update {l : List (String × Json)} {k : String} :
    ((Dict.update ∅ l).lookup k).isSome ↔ k ∈ l.map Prod.fst := by
  induction l with
  | nil => simp [Dict.update]
  | cons p l ih =>
    have hcons : (Dict.update ∅ (p :: l)).lookup k = _ := lookup_update (Dict.set ∅ p.1 p.2) l k
    rw [hcons, Option.isSome_or, Bool.or_eq_true, ih, List.map_cons, List.mem_cons, or_comm]
    refine or_congr_left ?_
    by_cases hk : k = p.1
    · subst hk
      simp [Dict.lookup_set_self]
    · rw [Dict.lookup_set_ne _ _ hk]
      simp [hk]

/-- A key that is assigned anyway may have been set before. -/
theorem lookup_set_update {d : Dict} {l : List (String × Json)} {k : String} {v : Json}
    (hk : k ∈ l.map Prod.fst) (key : String) :
    ((d.set k v).update l).lookup key = (d.update l).lookup key := by
  rw [lookup_update, lookup_update d]
  by_cases hkey : key = k
  · subst hkey
    obtain ⟨u, hu⟩ := Option.isSome_iff_exists.1 (isSome_lookup_update.2 hk)
    rw [hu]
    rfl
  · rw [Dict.lookup_set_ne _ _ hkey]

theorem lookup_backfill (unit : String) (d : Dict) (k : String) :
    (backfill unit (some d)).lookup k = if k = "unit" then some (.str unit) else
        (d.lookup k).or ((defaultState unit).lookup k) := by
  unfold backfill
  split_ifs with hk
  · rw [hk, Dict.lookup_set_self]
  · rw [Dict.lookup_set_ne _ _ hk, lookup_update]
    congr 1
    have hnodup : ((d.entries.map fun e => (e.1, e.2)).map Prod.fst).Nodup := by
      rw [List.map_map]
      exact d.nodupKeys
    cases hl : d.lookup k with
    | some v =>
      exact Dict.lookup_update_of_mem _ hnodup
        (List.mem_map.2 ⟨⟨k, v⟩, AList.mem_lookup_iff.1 hl, rfl⟩)
    | none =>
      refine Option.not_isSome_iff_eq_none.1 fun hsome => ?_
      obtain ⟨p, hp, rfl⟩ := List.mem_map.1 (isSome_lookup_update.1 hsome)
      obtain ⟨e, he, rfl⟩ := List.mem_map.1 hp
      exact AList.lookup_eq_none.1 hl (AList.mem_keys.2 (List.mem_map.2 ⟨e, he, rfl⟩))

/-! ## Writes -/

/-- What a save of the state assigns. -/
inductive KeyWrite where
  | desired (v : String)
  | beat (hb : PyDict)
  | stopped
  | tombstone (actual : String) (stopRequested : Bool)
  | launched (generation : ℤ) (r : SpawnResult)

namespace KeyWrite

/-- What the reconciler assigns. -/
def assigned : KeyWrite → List (String × Json)
  | desired v => [("desired", .str v)]
  | beat _ => []
  | stopped => [("actual", .str "stopped")]
  | tombstone actual stopRequested =>
    [("actual", .str actual), ("degraded_reason", .str tombstoneReason),
      ("operator_verification_required", .bool true)] ++ if stopRequested then
      [("stop_requested", .bool true)] else []
  | launched generation r =>
    [("generation", .int generation), ("pid", .int r.pid),
      ("actual", .str (if r.alive then "running" else "unknown")),
      ("process_token", (r.token.map Json.str).getD .null),
      ("operator_verification_required", .bool !r.alive)] ++
        if r.alive then [] else [("degraded_reason", .str exitedReason)]

/-- What a heartbeat brings. -/
def merged : KeyWrite → List (String × Json)
  | beat hb => (PyVal.toJsonDict true (opaqueEntries hb)).getD []
  | _ => []

/-- The call that makes the write. -/
def By : KeyWrite → UnitCall → Prop
  | desired v, .setDesired v' => v = v'
  | beat hb, .heartbeat hb' => hb = hb'
  | stopped, .reconcile .. => True
  | tombstone .., .reconcile .. => True
  | launched .., .reconcile .. => True
  | _, _ => False

end KeyWrite

/-- The keys of the state beside the core keys that the reconciler writes. -/
def markKeys : List String :=
  ["degraded_reason", "operator_verification_required", "stop_requested", "process_token"]

theorem notMem_core : ∀ k ∈ markKeys, k ∉ coreStateKeys := by decide

/-- The heartbeat brings no mark. -/
def KeyWrite.Clean (w : KeyWrite) : Prop :=
  ∀ k ∈ w.merged.map Prod.fst, k ∉ coreStateKeys ++ markKeys

/-- The state that was saved last. -/
def lastSaved (saves : List (Option UnitCall × Dict)) :
    Option Content := saves.head?.map fun e => .doc e.2

/-- The states were saved by these writes, each on the one before; the last one first. -/
def History (unit : String) : List (Option UnitCall × Dict) → List KeyWrite → Prop
  | [], [] => True
  | (who, d) :: saves, w :: ws => (∃ k, who = some k ∧ w.By k) ∧
      (∀ key, d.lookup key = ((stateOf unit (lastSaved saves)).update
        (w.assigned ++ w.merged)).lookup key) ∧
      History unit saves ws
  | _, _ => False

/-- The value that the reconciler has assigned last; before that, the one of a new state. -/
def lastAssigned (unit : String) : List KeyWrite → String → Option Json
  | [], key => (backfill unit none).lookup key
  | w :: ws, key => ((Dict.update ∅ w.assigned).lookup key).or (lastAssigned unit ws key)

section
variable {unit : String} {saves : List (Option UnitCall × Dict)} {ws : List KeyWrite}

theorem mem_assigned {w : KeyWrite} {k : String} (h : k ∈ w.assigned.map Prod.fst) :
    k ∈ coreStateKeys ++ markKeys ∧ k ≠ "unit" := by
  cases w with
  | desired v =>
    obtain rfl : k = "desired" := List.mem_singleton.1 h
    decide
  | beat hb => cases h
  | stopped =>
    obtain rfl : k = "actual" := List.mem_singleton.1 h
    decide
  | tombstone actual stopRequested =>
    cases stopRequested <;> simp only [KeyWrite.assigned, Bool.false_eq_true, if_true, if_false,
        List.append_nil, List.map_cons,
      List.map_append, List.map_nil, List.mem_append, List.mem_cons,
      List.not_mem_nil, or_false] at h
    · rcases h with rfl | rfl | rfl <;> decide
    · rcases h with (rfl | rfl | rfl) | rfl <;> decide
  | launched g r =>
    cases ha : r.alive <;> simp only [KeyWrite.assigned, ha, Bool.false_eq_true, if_true, if_false,
        List.append_nil, List.map_cons,
      List.map_append, List.map_nil, List.mem_append, List.mem_cons,
      List.not_mem_nil, or_false] at h
    · rcases h with (rfl | rfl | rfl | rfl | rfl) | rfl <;> decide
    · rcases h with rfl | rfl | rfl | rfl | rfl <;> decide

/-- A new state's value of a key is in every state that a call works with. -/
theorem stateOf_or_default (c : Option Content) {key : String} (hkey : key ≠ "unit") :
    ((stateOf unit c).lookup key).or ((defaultState unit).lookup key) =
    (stateOf unit c).lookup key := by
  unfold stateOf
  cases c.bind Content.asDoc with
  | none => rw [backfill, Dict.lookup_set_ne _ _ hkey, Option.or_self]
  | some d => rw [lookup_backfill, if_neg hkey, Option.or_assoc, Option.or_self]

theorem lookup_stateOf_unit (c : Option Content) :
    (stateOf unit c).lookup "unit" = some (.str unit) := by
  unfold stateOf
  cases c.bind Content.asDoc with
  | none => exact Dict.lookup_set_self ..
  | some d => exact Dict.lookup_set_self ..

/-- What a saved state holds when it is loaded again. -/
theorem lookup_stateOf_saved {who : Option UnitCall} {d : Dict} {w : KeyWrite} (hw : w.Clean)
    (hd : ∀ key, d.lookup key =
      ((stateOf unit (lastSaved saves)).update (w.assigned ++ w.merged)).lookup key)
      (key : String) :
    (stateOf unit (lastSaved ((who, d) :: saves))).lookup key =
      ((stateOf unit (lastSaved saves)).update (w.assigned ++ w.merged)).lookup key := by
  show (backfill unit (some d)).lookup key = _
  rw [lookup_backfill, hd]
  split_ifs with hkey
  · subst hkey
    rw [Dict.lookup_update_of_notMem, lookup_stateOf_unit]
    rintro p hp hunit
    rcases List.mem_append.1 hp with hp | hp
    · exact (mem_assigned (List.mem_map_of_mem hp)).2 hunit.symm
    · exact hw _ (List.mem_map_of_mem hp) (hunit ▸ by decide)
  · rw [lookup_update, Option.or_assoc, stateOf_or_default _ hkey]

/-- **The keys of the reconciler have the values that it has assigned last.** -/
theorem History.owned (h : History unit saves ws) (hw : ∀ w ∈ ws, w.Clean) :
    ∀ key ∈ coreStateKeys ++ markKeys, (stateOf unit (lastSaved saves)).lookup key =
    lastAssigned unit ws key := by
  induction ws generalizing saves with
  | nil =>
    cases saves with
    | nil => exact fun key _ => rfl
    | cons e saves => exact h.elim
  | cons w ws ih =>
    obtain _ | ⟨⟨who, d⟩, saves⟩ := saves
    · exact h.elim
    obtain ⟨-, hd, h⟩ := h
    intro key hkey
    have hclean := hw w (List.mem_cons_self ..)
    have hmerged : (Dict.update ∅ (w.assigned ++ w.merged)).lookup key =
        (Dict.update ∅ w.assigned).lookup key := by
      rw [Dict.update, List.foldl_append]
      refine Dict.lookup_update_of_notMem _ ?_
      rintro p hp rfl
      exact hclean _ (List.mem_map_of_mem hp) hkey
    rw [lookup_stateOf_saved hclean hd, lookup_update, hmerged, lastAssigned,
      ← ih h (fun w hw' => hw w (List.mem_cons_of_mem _ hw')) key hkey]

/-- The persisted object has them too. -/
theorem History.persisted (h : History unit saves ws) (hw : ∀ w ∈ ws, w.Clean) {d : Dict}
    (hd : lastSaved saves = some (.doc d)) :
    ∀ key ∈ coreStateKeys ++ markKeys, d.lookup key = lastAssigned unit ws key := by
  intro key hkey
  rw [← h.owned hw key hkey]
  obtain _ | ⟨⟨who, d'⟩, saves⟩ := saves
  · cases hd
  obtain _ | ⟨w, ws⟩ := ws
  · exact h.elim
  cases hd
  obtain ⟨-, hd, -⟩ := h
  rw [hd key, lookup_stateOf_saved (hw w (List.mem_cons_self ..)) hd]

/-- The keys of a state. -/
theorem History.keys (h : History unit saves ws) (hw : ∀ w ∈ ws, w.Clean) {key : String}
    (hkey : key ∉ coreStateKeys) :
    ((stateOf unit (lastSaved saves)).lookup key).isSome ↔
      ∃ w ∈ ws, key ∈ w.assigned.map Prod.fst ∨ key ∈ w.merged.map Prod.fst := by
  induction ws generalizing saves with
  | nil =>
    cases saves with
    | nil =>
      have hnew : (stateOf unit none).lookup key = none := by
        simp only [coreStateKeys, List.mem_cons, List.not_mem_nil, or_false, not_or] at hkey
        obtain ⟨h₁, h₂, h₃, h₄, h₅, h₆⟩ := hkey
        simp [stateOf, backfill, defaultState, Dict.update, Dict.lookup_set_ne, *]
      rw [show lastSaved [] = none from rfl, hnew]
      simp
    | cons e saves => exact h.elim
  | cons w ws ih =>
    obtain _ | ⟨⟨who, d⟩, saves⟩ := saves
    · exact h.elim
    obtain ⟨-, hd, h⟩ := h
    have hclean := hw w (List.mem_cons_self ..)
    rw [lookup_stateOf_saved hclean hd, lookup_update, Option.isSome_or, Bool.or_eq_true,
      isSome_lookup_update, ih h fun w hw' =>
      hw w (List.mem_cons_of_mem _ hw'), List.map_append, List.mem_append, List.exists_mem_cons_iff]

theorem mem_heartbeatOf {s : Dict} {key : String} : key ∈ heartbeatOf s ↔ key ∉ coreStateKeys ∧
    (s.lookup key).isSome := by
  have herase : ∀ (l : List String) (s : Dict), key ∈ l.foldl (fun d k => d.erase k) s ↔
      key ∉ l ∧ key ∈ s := by
    intro l
    induction l with
    | nil => intro s; simp
    | cons k l ih => intro s; rw [List.foldl_cons, ih, AList.mem_erase, List.mem_cons, not_or,
      and_assoc, and_left_comm]
  rw [heartbeatOf, herase, AList.lookup_isSome]

/-- **The heartbeat of an observation has exactly the merged keys, if no mark has been
    set.** -/
theorem History.observed (h : History unit saves ws) (hw : ∀ w ∈ ws, w.Clean) :
    (∀ key, key ∈ heartbeatOf (stateOf unit (lastSaved saves)) ↔
      ∃ w ∈ ws, key ∈ w.merged.map Prod.fst) ↔
      ∀ w ∈ ws, ∀ key ∈ w.assigned.map Prod.fst, key ∉ markKeys := by
  constructor
  · intro hall w hmem key hkey hmark
    have hcore := notMem_core key hmark
    have hin := mem_heartbeatOf.2 ⟨hcore, (h.keys hw hcore).2 ⟨w, hmem, .inl hkey⟩⟩
    obtain ⟨w', hmem', hkey'⟩ := (hall key).1 hin
    exact hw w' hmem' key hkey' (List.mem_append_right _ hmark)
  · intro hno key
    rw [mem_heartbeatOf]
    constructor
    · rintro ⟨hcore, hsome⟩
      obtain ⟨w, hmem, hkey | hkey⟩ := (h.keys hw hcore).1 hsome
      · have hown := (mem_assigned hkey).1
        exact absurd ((List.mem_append.1 hown).resolve_left hcore) (hno w hmem key hkey)
      · exact ⟨w, hmem, hkey⟩
    · rintro ⟨w, hmem, hkey⟩
      have hcore : key ∉ coreStateKeys := fun hc => hw w hmem key hkey (List.mem_append_left _ hc)
      exact ⟨hcore, (h.keys hw hcore).2 ⟨w, hmem, .inr hkey⟩⟩

end

/-! ## One call -/

/-- A save is a write of the running call on the state as it is. -/
def Writes (unit : String) (o : UnitOp) (a : Own) : Prop := ∀ d, o = .replaceState d →
  ∃ w : KeyWrite, (∃ k, a.call = some k ∧ w.By k) ∧ w.Clean ∧
    ∀ key, d.lookup key = ((stateOf unit a.state).update (w.assigned ++ w.merged)).lookup key

/-- The saved states are those of clean writes. -/
def Written (unit : String) (a : Own) : Prop :=
  ∃ ws, History unit a.saves ws ∧ a.state = lastSaved a.saves ∧ ∀ w ∈ ws, w.Clean

theorem writes_of_quiet {unit : String} (o : UnitOp) (a : Own) (ho : o.isQuiet = true) :
    Writes unit o a := by
  rintro d rfl
  cases ho

/-- A save adds a write. -/
theorem Writes.keeps {unit : String} {o : UnitOp} {a a' : Own} {r : Except Exc o.Val}
    (hg : Writes unit o a) (ha : Written unit a) (h : OwnStep o a r a') : Written unit a' := by
  by_cases ho : o.isSave = true
  swap
  · obtain ⟨hstate, -, hsaves⟩ := h.unsaved (Bool.not_eq_true _ ▸ ho)
    rw [Written, hstate, hsaves]
    exact ha
  cases o <;> simp only [UnitOp.isSave, Bool.false_eq_true] at ho
  rename_i d
  have hnew : ∀ r a', (UnitOp.replaceState d).acts a r a' → Written unit a' := by
    rintro r a' ⟨-, rfl⟩
    obtain ⟨ws, hws, hstate, hclean⟩ := ha
    obtain ⟨w, hby, hw, hd⟩ := hg d rfl
    refine ⟨w :: ws, ⟨hby, hstate ▸ hd, hws⟩, rfl, ?_⟩
    rintro w' hw'
    rcases List.mem_cons.1 hw' with rfl | hw'
    · exact hw
    · exact hclean w' hw'
  obtain ⟨-, h | ⟨f, -, rfl | ⟨r', h⟩⟩⟩ := h
  · exact hnew _ _ h
  · exact ha
  · exact hnew _ _ h

section
variable {unit : String} {a : Own} {k : UnitCall} {c : Option Content}

/-- The call is `k`, and the state is as it was when the call loaded it. -/
def Loaded (k : UnitCall) (c : Option Content) (a : Own) : Prop := a.call = some k ∧ a.state = c

/-- A program that saves nothing. -/
theorem always_loaded {α : Type} {p : UnitProg α}
    (hp : p.Uses (·.isSave = false)) (ha : Loaded k c a) :
    p.Always OwnStep (Writes unit) (fun _ => Loaded k c) (fun _ => Loaded k c) a := by
  refine Always.of_uses hp (fun o a ho ha => ⟨?_, fun r a' h => ?_⟩) ha
  · rintro d rfl
    cases ho
  · obtain ⟨hstate, hcall, -⟩ := h.unsaved ho
    exact ⟨hcall.trans ha.1, hstate.trans ha.2⟩

/-- A save of the write `w`. -/
theorem always_keyWrite {encoded : Except Exc Dict} {Q : Unit → Own →
    Prop} (w : KeyWrite) (ha : Loaded k c a) (hby : w.By k)
    (hd : ∀ d, encoded = .ok d → w.Clean ∧ ∀ key, d.lookup key =
      ((stateOf unit c).update (w.assigned ++ w.merged)).lookup key) (hQ : ∀ v a, Q v a) :
    (saveState encoded).Always OwnStep (Writes unit) Q (fun _ _ => True) a := by
  refine always_writeJson (J := fun _ => True) writes_of_quiet trivial
    (fun d hok => ⟨?_, fun _ _ _ => trivial⟩) fun _ v a' _ _ => hQ v a'
  rintro d' hd'
  cases hd'
  obtain ⟨hw, hd⟩ := hd d hok
  refine ⟨w, ⟨k, ha.1, hby⟩, hw, fun key => ?_⟩
  rw [ha.2]
  exact hd key

/-- Without a heartbeat a write brings no mark. -/
theorem clean_of_assigned {w : KeyWrite} (h : w.merged = []) : w.Clean := by
  rw [KeyWrite.Clean, h]
  exact fun k hk => nomatch hk

theorem always_desiredWrite {v : String} (ha : Loaded (.setDesired v) c a) :
    (setDesired unit v).Always OwnStep (Writes unit) (fun _ _ => True) (fun _ _ => True) a := by
  unfold setDesired
  split_ifs
  swap
  · exact trivial
  refine always_bind.2 (always_loadOwn writes_of_quiet ?_ fun _ => trivial)
  refine always_bind.2 (always_keyWrite (.desired v) ha rfl
    (fun d hd => ⟨clean_of_assigned rfl, fun key => ?_⟩) fun _ _ => trivial)
  rw [dumps_ok hd, ha.2]
  rfl

/-- The state of a heartbeat that is accepted. -/
def Accepts (unit : String) (c : Option Content) (hb : PyDict) : Prop :=
  ∃ n, (hb.get "generation").asInt = some n ∧ pyInt ((stateOf unit c).get "generation") = .ok n

/-- The heartbeat brings no mark. -/
def Unmarked (hb : PyDict) : Prop := ∀ key ∈ markKeys, ∀ e ∈ hb, e.1 ≠ .str key

/-- A heartbeat without marks brings no key of the reconciler. -/
theorem clean_beat {hb : PyDict} (hstr : ∀ e ∈ opaqueEntries hb, e.1.isStr = true)
    (h : Unmarked hb) :
    (KeyWrite.beat hb).Clean := by
  intro key hkey hown
  obtain ⟨p, hp, rfl⟩ := List.mem_map.1 hkey
  cases hl : PyVal.toJsonDict true (opaqueEntries hb) with
  | none =>
    rw [KeyWrite.merged, hl] at hp
    cases hp
  | some l =>
    rw [KeyWrite.merged, hl] at hp
    obtain ⟨e, he, hk⟩ := key_of_toJsonDict hl p hp
    have hek : e.1 = .str p.1 := by
      have hs := hstr e he
      obtain ⟨k, v⟩ := e
      cases k <;> simp_all [PyKey.isStr, PyKey.text]
    rcases List.mem_append.1 hown with hcore | hmark
    · exact opaqueEntries_ne hcore e he hek
    · exact h p.1 hmark e (List.mem_filter.1 he).1 hek

theorem always_beatWrite {hb : PyDict} (ha : Loaded (.heartbeat hb) c a)
    (hb' : Accepts unit c hb → Unmarked hb) :
    (mergeHeartbeat unit hb).Always OwnStep (Writes unit) (fun _ _ => True)
    (fun _ _ => True) a := by
  refine always_bind.2 (always_loadOwn writes_of_quiet ?_ fun _ => trivial)
  rw [ha.2]
  split
  · exact trivial
  rename_i reported hreported
  refine always_bind.2 (always_lift (fun n hn => ?_) fun _ _ => trivial)
  split_ifs with hne
  · exact trivial
  rw [ne_eq, not_not] at hne
  have hun := hb' ⟨n, hne ▸ hreported, hn⟩
  refine always_bind.2 (always_keyWrite (.beat hb) ha rfl (fun d hd => ?_) fun _ a' => ?_)
  · obtain ⟨hstr, l, hl, rfl, -⟩ := dumpsWith_inv hd
    refine ⟨clean_beat (hstr rfl) hun, fun key => ?_⟩
    rw [KeyWrite.assigned, List.nil_append, KeyWrite.merged, hl, Option.getD_some]
  · exact always_lift (fun _ _ => trivial) fun _ _ => trivial

theorem tombstoneState_eq (s : Dict) (actual : String) (b : Bool) :
    tombstoneState s actual b = s.update (KeyWrite.tombstone actual b).assigned := by
  cases b <;> rfl

theorem launchedState_eq (s : Dict) (g : ℤ) (r : SpawnResult) :
    launchedState s g r = s.update (KeyWrite.launched g r).assigned := by
  cases h : r.alive <;> simp [launchedState, KeyWrite.assigned, h, Dict.update]

variable {spec : ProcessSpec} {policy : Dict → Except Exc Bool} {rounds : ℕ}

/-- A save of a pass, which has set `actual` before. -/
theorem always_passWrite {Q : Unit → Own → Prop} {s d : Dict} (w : KeyWrite)
    (ha : Loaded (.reconcile spec policy rounds) c a)
    (hby : w.By (.reconcile spec policy rounds)) (hw : w.merged = [])
    (hactual : "actual" ∈ w.assigned.map Prod.fst) {actual : String}
    (hs : s = (stateOf unit c).set "actual" (.str actual)) (hd : d = s.update w.assigned)
    (hQ : ∀ v a, Q v a) : (saveState (dumps d)).Always OwnStep (Writes unit) Q
    (fun _ _ => True) a := by
  refine always_keyWrite w ha hby (fun e he => ⟨clean_of_assigned hw, fun key => ?_⟩) hQ
  rw [dumps_ok he, hd, hs, hw, List.append_nil, lookup_set_update hactual]

theorem always_tombstoneWrite {actual : String} {want : Bool}
    (ha : Loaded (.reconcile spec policy rounds) c a) :
    (tombstonePass spec ((stateOf unit c).set "actual" (.str actual)) actual want).Always OwnStep
    (Writes unit) (fun _ _ => True) (fun _ _ => True) a := by
  have hrest : ∀ (b : Bool) (a : Own), Loaded (.reconcile spec policy rounds) c a → (do
      let state := tombstoneState ((stateOf unit c).set "actual" (.str actual)) actual b
      saveState (dumps state)
      return ⟨spec.unit, "noop", state.get "desired", actual,
        ← liftExcept (pyInt (state.get "generation")), (state.get "pid").asInt,
        actual = "running", some tombstoneReason⟩ :
        UnitProg ReconcileOutcome).Always OwnStep (Writes unit)
          (fun _ _ => True) (fun _ _ => True) a := by
    intro b a ha
    refine always_bind.2 (always_passWrite (.tombstone actual b) ha trivial rfl
      (by simp [KeyWrite.assigned]) rfl (tombstoneState_eq _ _ _) fun _ _ => ?_)
    exact always_bind.2 (always_lift (fun _ _ => trivial) fun _ _ => trivial)
  unfold tombstonePass
  cases want with
  | true => exact hrest false a ha
  | false =>
    refine always_bind.2 (always_handle.2 (always_bind.2 ?_))
    refine (always_loaded (uses_stop isSave_of_plain fun _ => rfl) ha).mono (fun _ _ h => h)
        (fun r a' h => hrest r.signalled a' h)
      fun e a' h => ?_
    cases e <;> first | exact hrest false a' h | exact trivial

theorem always_launchWrite {actual : String} (ha : Loaded (.reconcile spec policy rounds) c a) :
    (launchPass spec ((stateOf unit c).set "actual" (.str actual)) rounds).Always OwnStep
    (Writes unit) (fun _ _ => True) (fun _ _ => True) a := by
  refine always_bind.2 (always_lift (fun g _ => ?_) fun _ _ => trivial)
  refine always_bind.2 (always_handle.2 (always_bind.2 ?_))
  have hnone : ∀ a : Own, Loaded (.reconcile spec policy rounds) c a → (do
      let state := tombstoneState ((stateOf unit c).set "actual" (.str actual)) "unknown" false
      saveState (dumps state)
      return ⟨spec.unit, "noop", state.get "desired", "unknown",
        ← liftExcept (pyInt (state.get "generation")), none, false, some tombstoneReason⟩ :
          UnitProg ReconcileOutcome).Always OwnStep (Writes unit)
          (fun _ _ => True) (fun _ _ => True) a := by
    intro a ha
    refine always_bind.2 (always_passWrite (.tombstone "unknown" false) ha trivial rfl
      (by simp [KeyWrite.assigned]) rfl (tombstoneState_eq _ _ _) fun _ _ => ?_)
    exact always_bind.2 (always_lift (fun _ _ => trivial) fun _ _ => trivial)
  refine (always_loaded (uses_spawn isSave_of_plain (fun _ _ => rfl) (fun _ _ _ _ _ _ => rfl)
      fun _ _ _ _ _ _ _ => rfl) ha).mono
    (fun _ _ h => h) (fun r a' h => ?_) fun e a' h => ?_
  · exact always_bind.2 (always_passWrite (.launched (g + 1) r) h trivial rfl
      (by simp [KeyWrite.assigned]) rfl (launchedState_eq _ _ _) fun _ _ => trivial)
  · cases e <;> first | exact hnone a' h | exact trivial

theorem always_reconcileWrite (hu : spec.unit = unit)
    (ha : Loaded (.reconcile spec policy rounds) c a) :
    (reconcileUnit spec policy rounds).Always OwnStep (Writes unit) (fun _ _ => True)
    (fun _ _ => True) a := by
  subst hu
  refine always_locked (J := fun _ => True) writes_of_quiet trivial ?_
  suffices hbody : ∀ want actual, (if actual ≠ "stopped" then
          tombstonePass spec ((stateOf spec.unit c).set "actual" (.str actual)) actual want
        else if want then launchPass spec ((stateOf spec.unit c).set "actual" (.str actual)) rounds
        else stoppedPass spec ((stateOf spec.unit c).set "actual" (.str actual))).Always OwnStep
        (Writes spec.unit) (fun _ _ => True) (fun _ _ => True) a by
    refine always_bind.2 (always_loadOwn writes_of_quiet ?_ fun _ => trivial)
    rw [ha.2]
    refine always_bind.2 (always_lift (fun want _ => ?_) fun _ _ => trivial)
    refine always_bind.2 (always_observe writes_of_quiet (fun actual _ => ?_) fun _ => trivial)
    exact (hbody want actual).mono (fun _ _ h => h) (fun _ _ _ => ⟨trivial, trivial⟩) fun _ _ h => h
  intro want actual
  split_ifs
  · exact always_tombstoneWrite ha
  · exact always_launchWrite ha
  · refine always_bind.2 (always_keyWrite .stopped ha trivial
        (fun d hd => ⟨clean_of_assigned rfl, fun key => ?_⟩) fun _ _ => ?_)
    · rw [dumps_ok hd]
      exact lookup_set_update (l := KeyWrite.stopped.assigned) (by simp [KeyWrite.assigned]) key
    · exact always_bind.2 (always_lift (fun _ _ => trivial) fun _ _ => trivial)

/-- **The writes of a call.** -/
theorem always_writes (hu : ∀ spec policy rounds, k = .reconcile spec policy rounds →
      spec.unit = unit)
    (hb : ∀ hb, k = .heartbeat hb → Accepts unit c hb → Unmarked hb) (ha : Loaded k c a) :
    (k.code unit).Always OwnStep (Writes unit) (fun _ _ => True) (fun _ _ => True) a := by
  have hdone : ∀ {α : Type} {p : UnitProg α} {f : α → UnitAnswer},
      p.Always OwnStep (Writes unit) (fun _ _ => True) (fun _ _ => True) a →
      (p.bind fun v => ret (f v)).Always OwnStep (Writes unit) (fun _ _ => True)
          (fun _ _ => True) a :=
    fun hp => always_bind.2 hp
  have hloaded : ∀ {α : Type} {p : UnitProg α}, p.Uses (·.isSave = false) →
      p.Always OwnStep (Writes unit) (fun _ _ => True) (fun _ _ => True) a :=
    fun hp => (always_loaded hp ha).mono (fun _ _ h => h) (fun _ _ _ => trivial)
      fun _ _ _ => trivial
  cases k with
  | reconcile spec policy rounds => exact hdone (always_reconcileWrite (hu _ _ _ rfl) ha)
  | setDesired desired => exact hdone (always_desiredWrite ha)
  | heartbeat beat => exact hdone (always_beatWrite ha (hb _ rfl))
  | spawn spec generation rounds =>
    exact hdone (hloaded (uses_spawn isSave_of_plain (fun _ _ => rfl) (fun _ _ _ _ _ _ => rfl)
        fun _ _ _ _ _ _ _ => rfl))
  | stop => exact hdone (hloaded (uses_stop isSave_of_plain fun _ => rfl))
  | clear q => exact hdone (hloaded (uses_clear isSave_of_plain rfl))
  | gate k fuel =>
    refine hdone (hloaded (uses_execGate.mono fun o ho => ?_))
    cases o <;> first | rfl | cases ho

end

/-! ## Every run -/

/-- The calls are made in turn, and no accepted heartbeat brings a mark. -/
def CleanBeats (unit : String) (c : UnitCfg) (act : UnitAct) : Prop :=
  InTurn c act ∧ ∀ hb, act = .start 0 (.heartbeat hb) → Accepts unit c.sh.state hb → Unmarked hb

theorem written_solo (unit : String) :
    Sole (fleet unit) (CleanBeats unit) 0 UnitWorld.own OwnStep (·.ofGate = true) (Written unit)
    (Writes unit) fun _ _ _ => True := by
  refine fleet_solo (fun _ _ h => h.1) (fun c k hp hcan hJ => ?_) fun a h => h
  refine (always_writes (k := k) (c := c.sh.state) ?_ ?_ ⟨rfl, rfl⟩).keeping
    (fun o a r a' ha hg h => hg.keeps ha h) hJ
  · rintro spec policy rounds rfl
    exact of_decide_eq_true hcan
  · rintro hb rfl
    exact hp.2 hb rfl

/-- **Every key of the reconciler has the value that it has assigned last**, in every run whose
    accepted heartbeats bring no mark; an observation shows exactly the keys that heartbeats
    have brought if and only if no pass has set a mark. -/
theorem keys_owned {unit : String} {environ : Env} {proc : ℕ → ℕ} {pid : Option PidFile}
    {tokens : List String} {c : UnitCfg}
    (h : (fleet unit).Reach (CleanBeats unit) (idle (.init environ proc pid none tokens)) c) :
    ∃ ws, History unit c.sh.own.saves ws ∧
      (∀ d, c.sh.state = some (.doc d) → ∀ key ∈ coreStateKeys ++ markKeys,
        d.lookup key = lastAssigned unit ws key) ∧
      (∀ key ∈ coreStateKeys ++ markKeys, (stateOf unit c.sh.state).lookup key =
        lastAssigned unit ws key) ∧
      ((∀ key, key ∈ heartbeatOf (stateOf unit c.sh.state) ↔
        ∃ w ∈ ws, key ∈ w.merged.map Prod.fst) ↔
        ∀ w ∈ ws, ∀ key ∈ w.assigned.map Prod.fst, key ∉ markKeys) := by
  have hinit : Written unit (UnitWorld.init environ proc pid none tokens).own :=
    ⟨[], trivial, rfl, fun w hw => by cases hw⟩
  obtain ⟨ws, hws, hstate, hclean⟩ := ((written_solo unit).inv hinit h).now
  have hstate' : c.sh.state = lastSaved c.sh.own.saves := hstate
  refine ⟨ws, hws, ?_, hstate' ▸ hws.owned hclean, hstate' ▸ hws.observed hclean⟩
  intro d hd key hkey
  exact hws.persisted hclean (hstate'.symm.trans hd) key hkey

def unmarked (hb : PyDict) : Bool := markKeys.all fun key => hb.all fun e => e.1 != .str key

/-- The calls are made in turn, and no heartbeat brings a mark. -/
def cleanBeats : UnitAct → Bool
  | .start i k => inTurn i k &&
    match k with
    | .heartbeat hb => unmarked hb
    | _ => true
  | _ => true

theorem cleanBeats_spec {unit : String} {c : UnitCfg} {act : UnitAct} (h : cleanBeats act = true) :
    CleanBeats unit c act := by
  cases act with
  | start i k =>
    obtain ⟨hi, hk⟩ := (Bool.and_eq_true ..).mp h
    refine ⟨inTurn_spec hi, fun hb he _ key hkey e hmem => ?_⟩
    cases he
    exact bne_iff_ne.1 (List.all_eq_true.1 (List.all_eq_true.1 hk key hkey) e hmem)
  | _ => exact ⟨trivial, fun _ he => by cases he⟩

/-- The unit is paused, then a heartbeat arrives. -/
def pausedBeat : List UnitAct :=
  [.start 0 (.setDesired "paused"), .op 0 {}] ++ saveSteps 0 ++
    [.start 0 (.heartbeat beat), .op 0 {}] ++ saveSteps 0

/-- Both writes are in the state. -/
theorem keys_owned_paused : ∃ c ws, (fleet "u").Reach (CleanBeats "u") emptyUnit c ∧
    c.sh.own.saves.length = 2 ∧ History "u" c.sh.own.saves ws ∧
    (stateOf "u" c.sh.state).lookup "desired" = lastAssigned "u" ws "desired" := by
  obtain ⟨c, hc, hq, -⟩ :=
    Reach.exists_of_run (P := CleanBeats "u") (fleet "u") emptyUnit (fun _ act => cleanBeats act)
    pausedBeat (fun c => c.sh.own.saves.length == 2)
    (fun _ _ => cleanBeats_spec) (by decide +kernel)
  obtain ⟨ws, hws, -, howned, -⟩ := keys_owned hc
  exact ⟨c, ws, hc, eq_of_beq hq, hws, howned "desired" (by decide)⟩

/-- A heartbeat that names a degradation. -/
def forged : PyDict := [(.str "generation", .int 0), (.str "degraded_reason", .str "none")]

/-- There is one save, of a heartbeat, with a degradation. -/
def forgedSave (c : UnitCfg) : Bool :=
  match c.sh.own.saves with
  | [(some (.heartbeat _), _)] => ((stateOf "u" c.sh.state).lookup "degraded_reason").isSome
  | _ => false

/-- **A heartbeat can set a key of the reconciler.** -/
theorem mark_forged :
    ¬ ∀ (unit : String) (environ : Env) (proc : ℕ → ℕ) (pid : Option PidFile)
      (tokens : List String) (c : UnitCfg),
      (fleet unit).Reach InTurn (idle (.init environ proc pid none tokens)) c →
      ∃ ws, History unit c.sh.own.saves ws ∧
        (∀ key ∈ coreStateKeys ++ markKeys,
          (stateOf unit c.sh.state).lookup key = lastAssigned unit ws key) ∧
        ∀ key, key ∈ heartbeatOf (stateOf unit c.sh.state) ↔
        ∃ w ∈ ws, key ∈ w.merged.map Prod.fst := by
  intro h
  obtain ⟨c, hc, hq, -⟩ :=
    Reach.exists_of_run (P := InTurn) (fleet "u") emptyUnit (fun _ act => inTurnAct act)
    ([.start 0 (.heartbeat forged), .op 0 {}] ++ saveSteps 0) forgedSave
    (fun _ _ => inTurnAct_spec) (by decide +kernel)
  obtain ⟨ws, hws, howned, -⟩ := h "u" ∅ _ none [] c hc
  unfold forgedSave at hq
  split at hq
  swap
  · cases hq
  rename_i hb d hsaves
  rw [hsaves] at hws
  obtain _ | ⟨w, _ | ⟨w', ws⟩⟩ := ws
  · exact hws.elim
  · obtain ⟨⟨k, hk, hby⟩, -⟩ := hws
    cases hk
    cases w with
    | beat hb' =>
      have hnew : lastAssigned "u" [.beat hb'] "degraded_reason" =
          (backfill "u" none).lookup "degraded_reason" := rfl
      rw [howned "degraded_reason" (by decide), hnew] at hq
      exact absurd hq (by decide)
    | _ => exact hby.elim
  · exact hws.2.2.elim

end DatasourceKit

/-
  The metadata of a consumer in every run.

  * `KeepsMetadata spec g`: the records of `spawn` and `stop` carry the metadata in every
    run, and a `spawn` that raises has either written nothing or such a record;
  * `runs_carry`, `always_rejects`: what survives is kept;
  * `KeepsMetadata.records`: what is kept is in an intent, in the next one and after a stop;
  * `keepsMetadata_iff`: what is kept is what survives, or is rejected at once.
-/
import DatasourceKit.Fleet.Damage
import DatasourceKit.Fleet.LaunchRecord

namespace DatasourceKit

open Interleave Interleave.Prog Interleave.Machine

/-! ## Runs -/

/-- The operation writes only records that carry the metadata. -/
def WritesCarried (spec : ProcessSpec) (g : Option ℤ) (o : UnitOp) : Prop :=
  (∀ n d, o = .writePid n d → Carries spec g d) ∧ ∀ d, o = .replacePid d → Carries spec g d

/-- The calls are made in turn: launches of `spec` with the generation `g`, and stops. -/
def MetadataCalls (spec : ProcessSpec) (g : Option ℤ) (c : UnitCfg) (act : UnitAct) : Prop :=
  InTurn c act ∧ ∀ k, act = .start 0 k → (∃ rounds, k = .spawn spec g rounds) ∨ k = .stop

/-- The object in `pid.json`, if there is one, carries the metadata. -/
def RecordCarries (spec : ProcessSpec) (g : Option ℤ) (pid : Option PidFile) : Prop :=
  ∀ f d, pid = some f → f.content = .doc d → Carries spec g d

/-- `pid.json` holds an object, which carries the metadata. -/
def HasRecord (spec : ProcessSpec) (g : Option ℤ) (pid : Option PidFile) : Prop :=
  ∃ f d, pid = some f ∧ f.content = .doc d ∧ Carries spec g d

/-- The metadata is in every record of every run, and a launch that raises without a fault
    has written nothing, and launched nothing, or such a record. -/
structure KeepsMetadata (spec : ProcessSpec) (g : Option ℤ) : Prop where
  runs : ∀ unit environ proc state tokens c,
    (fleet unit).Reach (MetadataCalls spec g) (idle (.init environ proc none state tokens)) c →
      RecordCarries spec g c.sh.pid
  rejects : ∀ (w : UnitWorld) (rounds : ℕ), w.pid = none →
    (spawn spec g rounds).Always UnitWorld.Undisturbed (fun _ _ => True)
    (fun _ w' => HasRecord spec g w'.pid)
    (fun _ w' => (w'.pid = none ∧ w'.own.kids = w.own.kids) ∨ HasRecord spec g w'.pid) w

section
variable {spec : ProcessSpec} {g : Option ℤ} {a a' : Own} {o : UnitOp} {r : Except Exc o.Val}

theorem writesCarried_of_plain (o : UnitOp) (ho : o.isPlain = true) : WritesCarried spec g o := by
  constructor
  · rintro n d rfl
    cases ho
  · rintro d rfl
    cases ho

theorem RecordCarries.acts (ho : WritesCarried spec g o)
    (ha : RecordCarries spec g a.pid) (h : o.acts a r a') :
    RecordCarries spec g a'.pid := by
  intro f d hf hd
  rcases UnitOp.acts_record h with hp | ⟨-, hp⟩ | ⟨-, hp⟩ | ⟨f', hf', hp⟩ | ⟨f', d', hp, hd', hw⟩
  · exact ha f d (hp ▸ hf) hd
  · rw [hp] at hf
    cases hf
  · rw [hp] at hf
    cases hf
    cases hd
  · rw [hp] at hf
    cases hf
    exact ha f' d hf' hd
  · rw [hp] at hf
    cases hf
    rw [hd'] at hd
    cases hd
    rcases hw with ⟨n, rfl⟩ | rfl
    · exact ho.1 n d rfl
    · exact ho.2 d rfl

theorem RecordCarries.step (ho : WritesCarried spec g o) (ha : RecordCarries spec g a.pid)
    (h : OwnStep o a r a') :
    RecordCarries spec g a'.pid := by
  obtain ⟨-, h | ⟨f, -, rfl | ⟨r', h⟩⟩⟩ := h
  · exact ha.acts ho h
  · exact ha
  · exact ha.acts ho h

theorem HasRecord.acts (ho : WritesCarried spec g o) (hnew : o ≠ .createPid ∧ o ≠ .unlinkPid)
    (ha : HasRecord spec g a.pid) (h : o.acts a r a') : HasRecord spec g a'.pid := by
  obtain ⟨f, d, hf, hd, hc⟩ := ha
  rcases UnitOp.acts_record h with hp | ⟨rfl, -⟩ | ⟨rfl, -⟩ | ⟨f', hf', hp⟩ | ⟨f', d', hp, hd', hw⟩
  · exact ⟨f, d, hp.trans hf, hd, hc⟩
  · exact absurd rfl hnew.2
  · exact absurd rfl hnew.1
  · rw [hf] at hf'
    cases hf'
    exact ⟨_, d, hp, hd, hc⟩
  · refine ⟨f', d', hp, hd', ?_⟩
    rcases hw with ⟨n, rfl⟩ | rfl
    · exact ho.1 n d' rfl
    · exact ho.2 d' rfl

/-- A program that writes only records that carry the metadata. -/
theorem always_carries {α : Type} {p : UnitProg α} (hp : p.Uses (WritesCarried spec g))
    (ha : RecordCarries spec g a.pid) :
    p.Always OwnStep (fun o a => RecordCarries spec g a.pid ∧ WritesCarried spec g o)
      (fun _ a => RecordCarries spec g a.pid) (fun _ a => RecordCarries spec g a.pid) a :=
  Always.of_uses (J := fun a : Own => RecordCarries spec g a.pid) hp
    (fun _ _ ho ha => ⟨⟨ha, ho⟩, fun _ _ h => ha.step ho h⟩) ha

/-- What a launch writes. -/
theorem uses_spawnCarried {rounds : ℕ} (hm : (spec.pidMetadata.map Prod.fst).Nodup)
    (hs : Survivable spec g) :
    (spawn spec g rounds).Uses (WritesCarried spec g) := by
  refine uses_spawn writesCarried_of_plain (fun _ _ => ⟨by simp, by simp⟩) ?_ ?_
  · rintro t token n d ht hd
    refine ⟨?_, by simp⟩
    rintro n' d' ⟨⟩
    exact carries_dump hm hs ht hd
  · rintro t pid started token d ht hd
    refine ⟨by simp, ?_⟩
    rintro d' ⟨⟩
    exact carries_dump hm hs ht hd

/-- `stop` writes what the record before has carried. -/
theorem always_stopCarried (hs : Survivable spec g) (ha : RecordCarries spec g a.pid) :
    stop.Always OwnStep (fun o a => RecordCarries spec g a.pid ∧ WritesCarried spec g o)
      (fun _ a => RecordCarries spec g a.pid) (fun _ a => RecordCarries spec g a.pid) a := by
  refine always_bind.2 (always_readJson ⟨⟨ha, writesCarried_of_plain _ rfl⟩, fun r a' h => ?_⟩)
  obtain rfl : a' = a := h.quiet rfl
  refine ⟨?_, fun _ => ⟨ha, fun _ => ha⟩⟩
  rintro d rfl
  have hd : Carries spec g d := by
    obtain ⟨-, ⟨-, ⟨-, hr⟩ | ⟨f, hf, hr⟩⟩ | ⟨f, hr, -⟩⟩ := h
    · cases hr
    · split_ifs at hr
      exact ha f d hf (Except.ok.inj hr).symm
    · cases hr
  refine always_carries ((uses_signalOwned writesCarried_of_plain).bind fun b =>
    (uses_writeJson (minor_of_plain writesCarried_of_plain) fun d' hd' =>
      ⟨by simp, ?_⟩).bind fun _ =>
        (uses_liftExcept _).bind fun _ => trivial) ha
  rintro d'' ⟨⟩
  exact dumps_ok hd' ▸ hd.stopped hs

/-- Without a record, what writes none leaves none. -/
theorem pid_none_step (ho : o.isPlain = true) (ha : a.pid = none) (h : OwnStep o a r a') :
    a'.pid = none := by
  have hacts : ∀ r a', o.acts a r a' → a'.pid = none := by
    intro r a' h
    rcases UnitOp.acts_record h with hp | ⟨rfl, hp⟩ | ⟨rfl, -⟩ | ⟨f, hf, -⟩ |
      ⟨f, d, -, -, ⟨n, rfl⟩ | rfl⟩
    · exact hp.trans ha
    · exact hp
    · cases ho
    · rw [ha] at hf
      cases hf
    · cases ho
    · cases ho
  obtain ⟨-, h | ⟨f, -, rfl | ⟨r', h⟩⟩⟩ := h
  · exact hacts r a' h
  · exact ha
  · exact hacts r' a' h

/-- A program that writes neither file, on a unit without a record. -/
theorem always_absent {α : Type} {p : UnitProg α}
    (hp : p.Uses (·.isPlain = true)) (ha : a.pid = none) :
    p.Always OwnStep (fun _ a => a.pid = none ∧ True) (fun _ a => a.pid = none)
    (fun _ a => a.pid = none) a :=
  Always.of_uses (J := fun a : Own => a.pid = none) hp
    (fun _ _ ho ha => ⟨⟨ha, trivial⟩, fun _ _ h => pid_none_step ho ha h⟩) ha

theorem always_stopAbsent (ha : a.pid = none) :
    stop.Always OwnStep (fun _ a => a.pid = none ∧ True) (fun _ a => a.pid = none)
    (fun _ a => a.pid = none) a := by
  refine always_bind.2 (always_readJson ⟨⟨ha, trivial⟩, fun r a' h => ?_⟩)
  have ha' := pid_none_step rfl ha h
  refine ⟨?_, fun _ => ⟨ha', fun _ => ha'⟩⟩
  rintro d rfl
  obtain ⟨-, ⟨-, ⟨-, hr⟩ | ⟨f, hf, -⟩⟩ | ⟨f, hr, -⟩⟩ := h
  · cases hr
  · rw [ha] at hf
    cases hf
  · cases hr

/-- The calls of a run, each with what it keeps. -/
theorem carries_solo {J : Own → Prop} {G : UnitOp → Own → Prop} (unit : String)
    (hspawn : ∀ rounds a, J a → (spawn spec g rounds).Always OwnStep (fun o a => J a ∧
        G o a) (fun _ => J) (fun _ => J) a)
    (hstop : ∀ a, J a → stop.Always OwnStep (fun o a => J a ∧ G o a) (fun _ => J) (fun _ => J) a)
    (hJ : ∀ a k, J a → J { a with call := k }) :
    Sole (fleet unit) (MetadataCalls spec g) 0 UnitWorld.own OwnStep (·.ofGate = true) J G
    fun _ _ _ => True := by
  refine fleet_solo (fun _ _ h => h.1) (fun c k hp _ ha => ?_) fun a ha => hJ a none ha
  have hdone : ∀ {α : Type} {p : UnitProg α} {f : α → UnitAnswer} {a : Own},
      p.Always OwnStep (fun o a => J a ∧ G o a) (fun _ => J) (fun _ => J) a →
      (p.bind fun v => ret (f v)).Always OwnStep (fun o a => J a ∧ G o a) (fun _ a => J a ∧
          True) (fun _ a => J a ∧ True) a :=
    fun hp => always_bind.2 (hp.mono (fun _ _ h => h) (fun _ _ h => ⟨h, trivial⟩)
      fun _ _ h => ⟨h, trivial⟩)
  rcases hp.2 k rfl with ⟨rounds, rfl⟩ | rfl
  · exact hdone (hspawn rounds _ (hJ _ _ ha))
  · exact hdone (hstop _ (hJ _ _ ha))

/-- The metadata is in every record, where it survives or is rejected. -/
theorem runs_carry {unit : String} {environ : Env} {proc : ℕ → ℕ} {state : Option Content}
    {tokens : List String} {c : UnitCfg} (hm : (spec.pidMetadata.map Prod.fst).Nodup)
    (hs : (∃ e, pidPayload spec noResult = .error e) ∨ Survivable spec g)
    (hc : (fleet unit).Reach (MetadataCalls spec g)
      (idle (.init environ proc none state tokens)) c) :
    RecordCarries spec g c.sh.pid := by
  rcases hs with ⟨e, he⟩ | hs
  · have hspawn : ∀ rounds, (spawn spec g rounds).Uses (·.isPlain = true) := by
      have hno : ∀ t, pidPayload spec noResult ≠ .ok t := fun t ht => by rw [he] at ht; cases ht
      exact fun rounds => uses_spawn (fun _ h => h) (fun t ht => (hno t ht).elim)
        (fun t _ _ _ ht => (hno t ht).elim) fun t _ _ _ _ ht => (hno t ht).elim
    have hpid := ((carries_solo (J := fun a => a.pid = none) (G := fun _ _ => True) unit
      (fun rounds a ha => always_absent (hspawn rounds) ha) (fun a ha => always_stopAbsent ha)
      fun a k ha => ha).inv
      rfl hc).now
    intro f d hf
    rw [show c.sh.pid = none from hpid] at hf
    cases hf
  · exact ((carries_solo (J := fun a => RecordCarries spec g a.pid)
      (G := fun o _ => WritesCarried spec g o) unit
      (fun rounds a ha => always_carries (uses_spawnCarried hm hs) ha)
      (fun a ha => always_stopCarried hs ha) fun a k ha => ha).inv
      (fun f d hf => by cases hf) hc).now

/-! ## One launch -/

theorem digitsOk_strings (l : List String) : Json.digitsOkList (l.map .str) = true := by
  induction l with
  | nil => rfl
  | cons s l ih => simp [Json.digitsOkList, Json.digitsOk, ih]

theorem dumps_baseFields : dumps (baseFields spec) = .ok (baseFields spec) :=
  dumps_update rfl (by simp [Json.digitsOk, digitsOk_strings]; decide)

theorem toJsonDict_of_forall (sort : Bool) {m : PyDict}
    (h : ∀ e ∈ m, ∃ k j, e.1.text = some k ∧ e.2.toJson sort = some j) :
    ∃ l, PyVal.toJsonDict sort m = some l := by
  induction m with
  | nil => exact ⟨[], rfl⟩
  | cons e m ih =>
    obtain ⟨k, j, hk, hj⟩ := h e (List.mem_cons_self ..)
    obtain ⟨l, hl⟩ := ih fun e he => h e (List.mem_cons_of_mem _ he)
    exact ⟨(k, j) :: l, by simp [PyVal.toJsonDict, hk, hj, hl]⟩

/-- The intent of a launch whose metadata survives can be encoded. -/
theorem launchIntent_ok {t : PidTemplate} (hm : (spec.pidMetadata.map Prod.fst).Nodup)
    (hs : Survivable spec g) (ht : pidPayload spec noResult = .ok t)
    (hg : (generationJson g).digitsOk = true) (token : String) :
    ∃ d, launchIntent spec g token t = .ok d := by
  obtain ⟨rfl, -, d₀, hd₀⟩ := pidPayload_inv ht
  have hstr : ∀ e ∈ spec.pidMetadata, e.1.isStr = true := by
    intro e he
    obtain ⟨k, j, hk, -⟩ := hs e he
    rw [hk]
    rfl
  have hdigits : ∀ e ∈ spec.pidMetadata, ∀ j, e.2.toJson true = some j → j.digitsOk = true := by
    intro e he j hj
    obtain ⟨k, -, hk, -⟩ := hs e he
    obtain ⟨j', hj', hlookup⟩ :=
      lookup_dumpsWith (k := k) (v := e.2) hm hstr hd₀ (by rw [← hk]; exact he)
    rw [toJson_unsorted hj] at hj'
    cases hj'
    obtain ⟨-, -, -, -, hdumps⟩ := dumpsWith_inv hd₀
    exact dumps_iff.1 hdumps ⟨k, j⟩ (AList.mem_lookup_iff.1 hlookup)
  let fields := launchFields .null .null spec.unit g token "launch_intent"
  have hkept : ∀ e ∈ keptEntries spec.pidMetadata fields, e ∈ spec.pidMetadata := fun e he =>
    (mem_keptEntries.1 he).1
  obtain ⟨l, hl⟩ := @toJsonDict_of_forall true (keptEntries spec.pidMetadata fields) fun e he => by
    obtain ⟨k, j, hk, hj, -⟩ := hs e (hkept e he)
    exact ⟨k, j, by rw [hk]; rfl, hj⟩
  have hbase : dumps ((baseFields spec).update l) = .ok ((baseFields spec).update l) := by
    refine dumps_update dumps_baseFields fun p hp => ?_
    obtain ⟨i, hi, rfl⟩ := List.getElem_of_mem hp
    have hall := toJsonDict_forall hl
    have hi' : i < (keptEntries spec.pidMetadata fields).length := hall.length_eq ▸ hi
    exact hdigits _ (hkept _ (List.getElem_mem hi')) _ (hall.get hi' hi).2
  have hdump : dumpsWith true (baseFields spec) (keptEntries spec.pidMetadata fields) =
      .ok ((baseFields spec).update l) := by
    have hall : (!(keptEntries spec.pidMetadata fields).all fun e => e.1.isStr) = false := by
      rw [Bool.not_eq_false', List.all_eq_true]
      exact fun e he => hstr e (hkept e he)
    simp only [dumpsWith, hall, Bool.and_false, Bool.false_eq_true, if_false, hl]
    exact hbase
  refine ⟨((baseFields spec).update l).update fields, ?_⟩
  change (dumpsWith true (baseFields spec) (keptEntries spec.pidMetadata fields)).bind
      (fun d => dumps (d.update fields)) = _
  rw [hdump]
  exact dumps_update hbase (by simp [fields, launchFields, Json.digitsOk, hg])

/-- The operation opens what a child is launched with. -/
def UnitOp.opensLaunch : UnitOp → Bool
  | .sys .socketpair => true
  | .sys .openStream => true
  | _ => false

section
variable {R : (o : UnitOp) → Own → Except Exc o.Val → Own → Prop} {G : UnitOp → Own → Prop}
  {E : Exc → Own → Prop} (hR : ∀ o a r a', o.opensLaunch = false → R o a r a' → CalmStep o a r a')
include hR

theorem always_calmOp {Q : o.Val → Own → Prop} (ho : o.opensLaunch = false) (hg : G o a)
    (hok : ∀ v a', R o a (.ok v) a' → CalmStep o a (.ok v) a' → Q v a')
    (herr : ∀ e a', ¬ CalmStep o a (.error e) a') :
    (perform o).Always R G Q E a :=
  always_perform.2 ⟨hg, fun v a' h => hok v a' h (hR _ _ _ _ ho h), fun e a' h =>
    (herr e a' (hR _ _ _ _ ho h)).elim⟩

variable (hG : ∀ o a, o.isFree = true → G o a)
include hG

theorem always_calmSys {s : Sys} {Q : Unit → Own → Prop}
    (hs : (UnitOp.sys s).opensLaunch = false) (hQ : Q () a) :
    (sys s).Always R G Q E a := by
  refine always_calmOp hR hs (hG _ _ rfl) ?_ fun e a' h => by cases h.1.1.choose_spec
  rintro - a' - ⟨⟨-, rfl⟩, -⟩
  exact hQ

/-- The intent is written on a unit without a record. -/
theorem always_intentCalm {d : Dict} {Q : Unit → Own → Prop} (ha : a.pid = none)
    (hQ : ∀ a', a'.pid = some ⟨a.ino, .regular, .doc d, true⟩ → a'.kids = a.kids → Q () a') :
    (writeIntent (.ok d)).Always R G Q E a := by
  refine always_bind.2 (always_calmOp hR rfl (hG _ _ rfl) ?_ ?_)
  · rintro fd a₁ - ⟨⟨-, hfd, rfl⟩ | ⟨-, hfd, -⟩, -⟩
    swap
    · cases hfd
    obtain rfl : fd = a.ino := Except.ok.inj hfd
    refine always_bind.2 (always_ensure.2 (always_bind.2 (always_ret.2 (always_bind.2 ?_))))
    refine always_calmOp hR rfl (hG _ _ rfl) ?_ fun e a' h => by cases h.1.1
    rintro - a₂ - ⟨⟨-, rfl⟩, -⟩
    refine always_calmOp hR rfl (hG _ _ rfl) ?_ fun e a' h => by cases h.1.1
    rintro - a₃ - ⟨⟨-, rfl⟩, -⟩
    refine always_calmSys hR hG rfl (always_bind.2 (always_calmSys hR hG rfl (always_ensure.2 ?_)))
    refine always_calmOp hR rfl (hG _ _ rfl) ?_ fun e a' h => by cases h.1.1.choose_spec
    rintro - a₄ - ⟨⟨-, rfl⟩, -⟩
    refine always_calmSys hR hG rfl (hQ _ ?_ rfl)
    simp
  · rintro e a' ⟨⟨-, he, -⟩ | ⟨hs, -⟩, -⟩
    · cases he
    · rw [ha] at hs
      cases hs

/-- An intent that cannot be encoded leaves an empty file. -/
theorem always_intentRefused {e : Exc} {Q : Unit → Own → Prop} (ha : a.pid = none)
    (hE : ∀ a', a'.pid = some ⟨a.ino, .regular, .malformed, false⟩ → E e a') :
    (writeIntent (.error e)).Always R G Q E a := by
  refine always_bind.2 (always_calmOp hR rfl (hG _ _ rfl) ?_ ?_)
  · rintro fd a₁ - ⟨⟨-, -, rfl⟩ | ⟨-, hfd, -⟩, -⟩
    swap
    · cases hfd
    exact always_bind.2 (always_ensure.2 (always_calmSys hR hG rfl (hE _ rfl)))
  · rintro e' a' ⟨⟨-, he, -⟩ | ⟨hs, -⟩, -⟩
    · cases he
    · rw [ha] at hs
      cases hs

/-- `spawn` on a unit without a record, up to its launch. -/
theorem always_start {rounds : ℕ} {Q : SpawnResult → Own → Prop} (huuid : G .uuid4 a)
    (ha : a.pid = none) (hreject : ∀ e, pidPayload spec noResult = .error e → E e a)
    (hrefuse : ∀ t token a₁ e, pidPayload spec noResult = .ok t → R .uuid4 a (.ok token) a₁ →
      launchIntent spec g token t = .error e →
      ∀ a₂, a₂.pid = some ⟨a.ino, .regular, .malformed, false⟩ → E e a₂)
    (hlaunch : ∀ t token a₁ d, pidPayload spec noResult = .ok t → R .uuid4 a (.ok token) a₁ →
      launchIntent spec g token t = .ok d → ∀ a₂, a₂.pid = some ⟨a.ino, .regular, .doc d, true⟩ →
      a₂.kids = a.kids → (launchTail spec g rounds token t).Always R G Q E a₂) :
      (spawn spec g rounds).Always R G Q E a := by
  refine always_bind.2 (always_bind.2 (always_calmSys hR hG rfl (always_bind.2 ?_)))
  refine always_calmOp hR rfl (hG _ _ rfl) ?_ fun e a' h => by cases h.1.1.choose_spec
  rintro b a₁ - ⟨⟨-, rfl⟩, hb⟩
  obtain rfl : b = true := hb
  refine always_bind.2 (always_bind.2 (always_attempt.2 ⟨hG _ _ rfl, fun r a₁ h => ?_⟩))
  obtain ⟨⟨rfl, ⟨-, rfl⟩ | ⟨f, hf, -⟩⟩, -⟩ := hR _ _ _ _ rfl h
  swap
  · rw [ha] at hf
    cases hf
  show ((liftExcept (pidPayload spec noResult)).bind _).Always R G Q E a₁
  cases ht : pidPayload spec noResult with
  | error e => exact hreject e ht
  | ok t =>
    refine always_bind.2 (always_ret.2 (always_bind.2 ?_))
    refine always_calmOp hR rfl huuid ?_ fun e a' h => by obtain ⟨⟨s, -, hs, -⟩, -⟩ := h; cases hs
    rintro token a₂ hstep ⟨⟨token', -, htoken, rfl⟩, -⟩
    cases hi : launchIntent spec g token t with
    | ok d =>
      refine always_bind.2 (always_intentCalm hR hG ha fun a₃ hpid hkids => ?_)
      exact hlaunch t token _ d ht hstep hi a₃ hpid hkids
    | error e =>
      exact always_bind.2 (always_intentRefused hR hG ha fun a₃ hpid =>
        hrefuse t token _ e ht hstep hi a₃ hpid)

end

/-- A launch that raises has written nothing or a record. -/
theorem always_rejects {w : UnitWorld} {rounds : ℕ} (hm : (spec.pidMetadata.map Prod.fst).Nodup)
    (hs : (∃ e, pidPayload spec noResult = .error e) ∨
      (Survivable spec g ∧ (generationJson g).digitsOk = true))
    (hw : w.pid = none) : (spawn spec g rounds).Always UnitWorld.Undisturbed
      (fun _ _ => True) (fun _ w' => HasRecord spec g w'.pid)
      (fun _ w' => (w'.pid = none ∧ w'.own.kids = w.own.kids) ∨ HasRecord spec g w'.pid) w := by
  have hsurvive : ∀ t, pidPayload spec noResult = .ok t →
      Survivable spec g ∧ (generationJson g).digitsOk = true := by
    intro t ht
    refine hs.resolve_left ?_
    rintro ⟨e, he⟩
    rw [he] at ht
    cases ht
  have hstart : (spawn spec g rounds).Always CalmStep (fun _ _ => True)
      (fun _ a' => HasRecord spec g a'.pid)
      (fun _ a' => (a'.pid = none ∧ a'.kids = w.own.kids) ∨ HasRecord spec g a'.pid) w.own := by
    refine always_start (fun _ _ _ _ _ h => h) (fun _ _ _ => trivial) trivial hw
      (fun e _ => .inl ⟨hw, rfl⟩) ?_ ?_
    · rintro t token a₁ e ht - he a₂ -
      obtain ⟨d, hd⟩ := launchIntent_ok hm (hsurvive t ht).1 ht (hsurvive t ht).2 token
      rw [hd] at he
      cases he
    · rintro t token a₁ d ht - hd a₂ hpid -
      have huses : (launchTail spec g rounds token t).Uses fun o =>
          WritesCarried spec g o ∧ o ≠ .createPid ∧ o ≠ .unlinkPid := by
        refine uses_launch (fun o ho =>
            ⟨writesCarried_of_plain o ho, ?_, ?_⟩) fun pid started d hd =>
          ⟨⟨by simp, ?_⟩, by simp, by simp⟩
        · rintro d' ⟨⟩
          exact carries_dump hm (hsurvive t ht).1 ht hd
        · rintro rfl
          cases ho
        · rintro rfl
          cases ho
      have hrecord : HasRecord spec g a₂.pid :=
        ⟨_, d, hpid, rfl, carries_dump hm (hsurvive t ht).1 ht hd⟩
      exact (Always.of_uses (J := fun a : Own => HasRecord spec g a.pid) huses
        (fun o a ho ha => ⟨trivial, fun r a' h => HasRecord.acts ho.1 ho.2 ha h.1⟩) hrecord).mono
          (fun _ _ h => h) (fun _ _ h => h) fun _ _ h => .inr h
  exact UnitWorld.always_undisturbed hstart

/-! ## What is kept survives -/

/-- The answer of `uuid4` is `s`. -/
def UnitOp.Picks (s : String) : (o : UnitOp) → Except Exc o.Val → Prop
  | .uuid4, .ok t => t = s
  | _, _ => True

/-- The supervisor's step, undisturbed but that a launch fails at once. -/
def CutOff (s : String) (o : UnitOp) (a : Own) (r : Except Exc o.Val) (a' : Own) : Prop :=
  if o.opensLaunch then a' = a ∧ ∃ f, r = .error (.fault f) else CalmStep o a r a' ∧ o.Picks s r

/-- An operation that can go on, `uuid4` with the answer `s`. -/
def Going (s : String) (o : UnitOp) (a : Own) : Prop :=
  o.isFree = true ∨ (o = .uuid4 ∧ s ∉ a.tokens)

/-- The launch is cut off. -/
theorem always_launchCut {s : String} {rounds : ℕ} {token : String} {t : PidTemplate}
    {Q : SpawnResult → Own → Prop} {E : Exc → Own → Prop} (hE : ∀ f, E (.fault f) a) :
    (launchTail spec g rounds token t).Always (CutOff s) (Going s) Q E a := by
  have hsys : ∀ {s' : Sys} {Q : Unit → Own → Prop}, (UnitOp.sys s').opensLaunch = true →
      (sys s').Always (CutOff s) (Going s) Q E a := by
    intro s' Q hs'
    refine always_perform.2 ⟨.inl rfl, fun v a' h => ?_, fun e a' h => ?_⟩
    · rw [CutOff, if_pos hs'] at h
      obtain ⟨-, f, hf⟩ := h
      cases hf
    · rw [CutOff, if_pos hs'] at h
      obtain ⟨rfl, f, hf⟩ := h
      cases hf
      exact hE f
  have hstream : ∀ (path : Option String) (p : UnitProg SpawnResult),
      p.Always (CutOff s) (Going s) Q E a →
      (withStream path p).Always (CutOff s) (Going s) Q E a := by
    intro path p hp
    unfold withStream
    split_ifs
    · exact hp
    · exact always_bind.2 (hsys rfl)
  refine always_bind.2 (always_perform.2 ⟨.inl rfl, ?_, ?_⟩)
  · rintro env a' ⟨⟨⟨-, rfl⟩, -⟩, -⟩
    exact hstream _ _ (hstream _ _ (always_bind.2 (hsys rfl)))
  · rintro e a' ⟨⟨⟨⟨v, hv⟩, -⟩, -⟩, -⟩
    cases hv

theorem calm_of_cutOff {s : String} (o : UnitOp) (a : Own) (r : Except Exc o.Val) (a' : Own)
    (ho : o.opensLaunch = false)
    (h : CutOff s o a r a') : CalmStep o a r a' := by
  rw [CutOff, if_neg (by simp [ho])] at h
  exact h.1

/-- The operation can go on undisturbed. -/
theorem exists_picks {s : String} {o : UnitOp} {w : UnitWorld} (h : Going s o w.own) :
    ∃ (ch : UnitEnv) (r : Except Exc o.Val) (w' : UnitWorld),
      ch.fault = none ∧ ch.isDir = true ∧ w.op 0 ch o = some (r, w') ∧ o.Picks s r := by
  rcases h with h | ⟨rfl, h⟩
  · obtain ⟨r, w', ch, hch, hdir, hop⟩ := UnitWorld.canGoOn_of_ready (w := w) (.inl h)
    refine ⟨ch, r, w', hch, hdir, hop, ?_⟩
    cases o <;> first | trivial
  · refine ⟨{ uuid := s }, .ok s,
      ({ w with tokens := s :: w.tokens } : UnitWorld).record 0 .uuid4 (.ok s), rfl, rfl, ?_, rfl⟩
    rw [UnitWorld.op_undisturbed rfl]
    simp only [UnitWorld.effect]
    rw [if_neg (show s ∉ w.tokens from h)]
    rfl

/-- A step that cuts a launch off is possible. -/
theorem exists_cutOff {unit s : String} {o : UnitOp} {w : UnitWorld} (h : Going s o w.own) :
    ∃ ch r w', (fleet unit).op 0 ch o w = some (r, w') ∧ CutOff s o w.own r w'.own := by
  by_cases ho : o.opensLaunch = true
  · refine ⟨{ fault := some .ioError }, .error (.fault .ioError), w, ?_, ?_⟩
    · unfold UnitOp.opensLaunch at ho
      split at ho <;> first | rfl | cases ho
    · rw [CutOff, if_pos ho]
      exact ⟨rfl, _, rfl⟩
  · obtain ⟨ch, r, w', hch, hdir, hop, hpick⟩ := exists_picks h
    refine ⟨ch, r, w', hop, ?_⟩
    rw [CutOff, if_neg ho]
    exact ⟨UnitWorld.Undisturbed.calm ⟨ch, hch, hdir, hop⟩, hpick⟩

/-- The end of a call, in a run. -/
theorem reach_finish {P : UnitCfg → UnitAct → Prop} {unit : String} {c₀ c : UnitCfg} {k : UnitCall}
    {r : Except Exc UnitAnswer} (hP : ∀ c, P c (.finish 0)) (hc : (fleet unit).Reach P c₀ c)
    (hrun : c.run 0 = some (k, .ofExcept r)) :
    ∃ c', (fleet unit).Reach P c₀ c' ∧ c'.run 0 = none ∧
    c'.sh.own = { c.sh.own with call := none } := by
  have hstep : (fleet unit).step c (.finish 0) =
      some ⟨c.sh.close 0, Function.update c.run 0 none⟩ := by
    cases r <;> simp [Machine.step, hrun, Prog.ofExcept, fleet]
  exact ⟨_, .step hc (hP c) hstep, by simp, UnitWorld.close_own c.sh⟩

/-- The start of a call, in a run. -/
theorem reach_start {P : UnitCfg → UnitAct → Prop} {unit : String} {c₀ c : UnitCfg} {k : UnitCall}
    (hk : c.sh.canStart unit k = true) (hP : P c (.start 0 k)) (hc : (fleet unit).Reach P c₀ c)
        (hrun : c.run 0 = none) :
    ∃ c', (fleet unit).Reach P c₀ c' ∧ c'.run 0 = some (k, k.code unit) ∧
      c'.sh.own = { c.sh.own with call := some k } := by
  have hstart : ∃ s, c.sh.start unit 0 k = some s := by
    simp only [UnitWorld.start, hk, if_true]
    exact ⟨_, rfl⟩
  obtain ⟨s, hs⟩ := hstart
  have hstep : (fleet unit).step c (.start 0 k) =
      some ⟨s, Function.update c.run 0 (some (k, k.code unit))⟩ := by
    simp only [Machine.step, hrun]
    exact congrArg (Option.map _) hs
  exact ⟨_, .step hc hP hstep, by simp, UnitWorld.start_own hs⟩

/-- A launch that does not raise at once can encode its intent. -/
theorem KeepsMetadata.intent {t : PidTemplate} (h : KeepsMetadata spec g)
    (ht : pidPayload spec noResult = .ok t) (s : String) :
    ∃ d, launchIntent spec g s t = .ok d := by
  cases hi : launchIntent spec g s t with
  | ok d => exact ⟨d, rfl⟩
  | error e =>
    let w : UnitWorld := .init ∅ (fun _ => 0) none none []
    have hrefused : (spawn spec g 0).Always (fun o a r a' => CalmStep o a r a' ∧
        o.Picks s r) (Going s) (fun _ _ => False)
        (fun _ a => ∃ n, a.pid = some ⟨n, .regular, .malformed, false⟩) w.own := by
      refine always_start (fun _ _ _ _ _ h => h.1) (fun _ _ ho => .inl ho)
        (.inr ⟨rfl, List.not_mem_nil⟩) rfl ?_ ?_ ?_
      · intro e he
        rw [ht] at he
        cases he
      · intro t token a₁ e _ _ _ a₂ hpid
        exact ⟨_, hpid⟩
      · intro t' token a₁ d ht' hstep hd
        rw [ht] at ht'
        cases ht'
        obtain rfl : token = s := hstep.2
        rw [hi] at hd
        cases hd
    have hview : (spawn spec g 0).Always
        (fun o w r w' => UnitWorld.Undisturbed o w r w' ∧ o.Picks s r)
        (fun o w => Going s o w.own) (fun _ _ => False)
        (fun _ w => ∃ n, w.pid = some ⟨n, .regular, .malformed, false⟩) w :=
      hrefused.of_view fun _ _ _ _ hs => ⟨hs.1.calm, hs.2⟩
    have hboth := ((h.rejects w 0 rfl).restrict fun _ _ _ _ hs => hs.1).and hview
    obtain ⟨_, _, -, hfalse⟩ | ⟨e, w', hrec, n, hn⟩ :=
      hboth.exists_end (J := fun _ => True) (fun o w _ hg => by
      obtain ⟨ch, r, w', hch, hdir, hop, hpick⟩ := exists_picks hg.2
      exact ⟨r, w', ⟨⟨ch, hch, hdir, hop⟩, hpick⟩, trivial⟩) trivial
    · exact hfalse.elim
    · rcases hrec with ⟨hnone, -⟩ | ⟨f, d, hf, hd, -⟩
      · rw [hn] at hnone
        cases hnone
      · rw [hn] at hf
        cases hf
        cases hd

/-- What a launch whose metadata is kept writes: the intent with the token `s`, and the
    record that a stop makes of it. -/
theorem KeepsMetadata.records {t : PidTemplate} (h : KeepsMetadata spec g)
    (ht : pidPayload spec noResult = .ok t) (s : String) :
    ∃ d, launchIntent spec g s t = .ok d ∧ Carries spec g d ∧ Carries spec g (stoppedRecord d) := by
  obtain ⟨d, hd⟩ := h.intent ht s
  have hfinish : ∀ c, MetadataCalls spec g c (.finish 0) := fun c => ⟨trivial, by simp⟩
  have hops : ∀ c ch, MetadataCalls spec g c (.op 0 ch) := fun c ch => ⟨trivial, by simp⟩
  -- a launch that is cut off after its intent
  have hidle : (fleet spec.unit).Reach (MetadataCalls spec g)
      (idle (.init ∅ (fun _ => 0) none none [])) (idle (.init ∅ (fun _ => 0) none none [])) := .refl
  obtain ⟨c₁, hc₁, hrun₁, hown₁⟩ :=
    reach_start (k := .spawn spec g 0) rfl ⟨by simp [InTurn, UnitCall.isGate], by simp⟩ hidle rfl
  have hcut : (spawn spec g 0).Always (CutOff s) (Going s) (fun _ _ => False)
      (fun _ a => ∃ n, a.pid = some ⟨n, .regular, .doc d, true⟩) c₁.sh.own := by
    refine always_start calm_of_cutOff (fun _ _ ho => .inl ho) (.inr ⟨rfl, ?_⟩) ?_ ?_ ?_ ?_
    · rw [hown₁]
      exact List.not_mem_nil
    · rw [hown₁]
      rfl
    · intro e he
      rw [ht] at he
      cases he
    · intro t' token a₁ e ht' hstep he
      rw [ht] at ht'
      cases ht'
      obtain rfl : token = s := hstep.2
      rw [hd] at he
      cases he
    · intro t' token a₁ d' ht' hstep hd' a₂ hpid _
      rw [ht] at ht'
      cases ht'
      obtain rfl : token = s := hstep.2
      rw [hd] at hd'
      cases hd'
      exact always_launchCut fun f => ⟨_, hpid⟩
  have hstep : ∀ (o : UnitOp) (w : UnitWorld) r (w' : UnitWorld), CutOff s o w.own r w'.own →
      CutOff s o w.own r w'.own :=
    fun _ _ _ _ hs => hs
  have hview := hcut.of_view hstep
  have hcall : ((UnitCall.spawn spec g 0).code spec.unit).Always
      (fun o w r w' => CutOff s o w.own r w'.own) (fun o w => Going s o w.own) (fun _ _ => False)
      (fun _ w => ∃ n, w.own.pid = some ⟨n, .regular, .doc d, true⟩) c₁.sh :=
    always_bind.2 (hview.mono (fun _ _ h => h) (fun _ _ h => h.elim) fun _ _ h => h)
  obtain ⟨c₂, hc₂, ⟨_, -, hfalse⟩ | ⟨e, hrun₂, n, hn⟩⟩ :=
    hc₁.exists_end hops (fun o w hg => exists_cutOff hg) hcall hrun₁
  · exact hfalse.elim
  have hcarries : Carries spec g d := h.runs _ _ _ _ _ c₂ hc₂ _ d hn rfl
  -- a stop after it
  obtain ⟨c₃, hc₃, hrun₃, hown₃⟩ := reach_finish (r := .error e) hfinish hc₂ hrun₂
  obtain ⟨c₄, hc₄, hrun₄, hown₄⟩ :=
    reach_start (k := .stop) rfl ⟨by simp [InTurn, UnitCall.isGate], by simp⟩ hc₃ hrun₃
  have hpid₄ : c₄.sh.own.pid = some ⟨n, .regular, .doc d, true⟩ := by
    rw [hown₄, hown₃]
    exact hn
  have hint : IntPid (.doc d) := by
    rintro d' ⟨⟩
    have hnull : d.get "pid" = .null := by
      rw [Dict.get, lookup_dump hd (k := "pid") (v := .null) (by simp [launchFields])]
      rfl
    exact ⟨0, by rw [hnull]; rfl⟩
  have hload : (Content.doc d).Loaded := by
    rintro d' ⟨⟩
    obtain ⟨-, -, -, hdumps⟩ := dump_inv hd
    exact hdumps
  have hstop := UnitWorld.always_going (w := c₄.sh)
    (always_stopFree (a := c₄.sh.own) (l := c₄.sh.lock) hpid₄ rfl hload)
  have hcall' : (UnitCall.stop.code spec.unit).Always UnitWorld.Undisturbed UnitWorld.CanGoOn
      (fun _ w => ∃ f, w.pid = some f ∧ f.content = .doc (stoppedRecord d))
          (fun _ _ => False) c₄.sh := by
    refine always_bind.2 (hstop.mono (fun _ _ h => h) ?_ ?_)
    · rintro r w ⟨-, -, -, d', _, hd', hpid⟩
      cases hd'
      exact ⟨_, hpid, rfl⟩
    · intro e w hfail
      exact (hfail.kept hint).2 d rfl
  obtain ⟨c₅, hc₅, ⟨_, -, f, hf, hcont⟩ | ⟨_, -, hfalse⟩⟩ := hc₄.exists_end hops (fun o w hg => by
    obtain ⟨r, w', ch, hch, hdir, hop⟩ := hg
    exact ⟨ch, r, w', hop, ch, hch, hdir, hop⟩) hcall' hrun₄
  · exact ⟨d, hd, hcarries, h.runs _ _ _ _ _ c₅ hc₅ f _ hf hcont⟩
  · exact hfalse.elim

/-- The values of an intent's fields are scalars. -/
theorem scalar_of_mem {k : String} {v : Json}
    (h : (k, v) ∈ launchFields .null .null spec.unit g token "launch_intent") : v.IsScalar := by
  simp only [launchFields, List.mem_cons, List.not_mem_nil, or_false, Prod.mk.injEq] at h
  rcases h with ⟨-, rfl⟩ | ⟨-, rfl⟩ | ⟨-, rfl⟩ | ⟨-, rfl⟩ | ⟨-, rfl⟩ | ⟨-, rfl⟩ | ⟨-, rfl⟩
  case inr.inr.inr.inl => cases g <;> trivial
  all_goals trivial

/-- An entry of an intent that carries its metadata has a string for a key and can be
    encoded with sorted keys. -/
theorem Carries.entry {t : PidTemplate} {s : String} (hm : (spec.pidMetadata.map Prod.fst).Nodup)
    (ht : pidPayload spec noResult = .ok t) (hd : launchIntent spec g s t = .ok d)
    (hc : Carries spec g d) {e : PyKey × PyVal} (he : e ∈ spec.pidMetadata) :
    ∃ k j, e.1 = .str k ∧ e.2.toJson true = some j ∧ e.2.toJson false = some j ∧
    d.lookup k = some j := by
  obtain ⟨k, j, hk, hj, hlookup⟩ := hc.metadata e he
  by_cases hf : ∃ f ∈ launchFields .null .null spec.unit g s "launch_intent", e.1 = .str f.1
  · obtain ⟨⟨k', v⟩, hmem, hkey⟩ := hf
    have hkk : k' = k := by
      rw [hkey] at hk
      exact Option.some.inj hk
    subst hkk
    have hv := lookup_dump hd hmem
    rw [hlookup] at hv
    cases hv
    exact ⟨k', j, hkey, toJson_scalar (scalar_of_mem hmem) hj, hj, hlookup⟩
  · obtain ⟨rfl, -, -⟩ := pidPayload_inv ht
    obtain ⟨d₁, hd₁, -, -⟩ := dump_inv hd
    have hkept : e ∈ keptEntries spec.pidMetadata
        (launchFields .null .null spec.unit g s "launch_intent") :=
      mem_keptEntries.2 ⟨he, fun f hf' hkf => hf ⟨f, hf', hkf⟩⟩
    have hstr := (dumpsWith_inv hd₁).1 rfl
    obtain ⟨key, v⟩ := e
    cases key with
    | str k' =>
      obtain rfl : k' = k := Option.some.inj hk
      obtain ⟨j', hj', -⟩ := lookup_dumpsWith
        (hm.sublist (List.filter_sublist.map _)) hstr hd₁ hkept
      have hsame := toJson_unsorted hj'
      rw [show v.toJson false = some j from hj] at hsame
      cases hsame
      exact ⟨k', j, rfl, hj', hj, hlookup⟩
    | _ => cases hstr _ hkept

/-- Metadata that is kept survives. -/
theorem KeepsMetadata.survivable {t : PidTemplate} (hm : (spec.pidMetadata.map Prod.fst).Nodup)
    (h : KeepsMetadata spec g) (ht : pidPayload spec noResult = .ok t) : Survivable spec g := by
  intro e he
  obtain ⟨d, hd, hcarries, hstopped⟩ := h.records ht "a"
  obtain ⟨d', hd', hcarries', -⟩ := h.records ht "b"
  obtain ⟨k, j, hkey, hsorted, hj, hlookup⟩ := hcarries.entry hm ht hd he
  have hstop : (stoppedRecord d).lookup k = some j := by
    obtain ⟨k', j', hk', hj', hlookup'⟩ := hstopped.metadata e he
    rw [hkey] at hk'
    cases hk'
    rw [hj] at hj'
    cases hj'
    exact hlookup'
  have hagain : d'.lookup k = some j := by
    obtain ⟨k', j', hkey', -, hj', hlookup'⟩ := hcarries'.entry hm ht hd' he
    rw [hkey] at hkey'
    cases hkey'
    rw [hj] at hj'
    cases hj'
    exact hlookup'
  have hfields : (([("stop_requested", Json.bool true), ("operator_verification_required", .bool true),
      ("status", .str "stop_requested_or_unknown")] :
      List (String × Json)).map Prod.fst).Nodup := by decide
  have hafter : ∀ v, (k, v) ∈
      ([("stop_requested", Json.bool true), ("operator_verification_required", .bool true),
      ("status", .str "stop_requested_or_unknown")] : List (String × Json)) → j = v := by
    intro v hv
    have hnew := Dict.lookup_update_of_mem d hfields hv
    exact Option.some.inj (hstop.symm.trans hnew)
  have hintent : ∀ v, (k, v) ∈ launchFields .null .null spec.unit g "a" "launch_intent" →
      j = v := by
    intro v hv
    exact Option.some.inj (hlookup.symm.trans (lookup_dump hd hv))
  have hintent' : ∀ v, (k, v) ∈ launchFields .null .null spec.unit g "b" "launch_intent" →
      j = v := by
    intro v hv
    exact Option.some.inj (hagain.symm.trans (lookup_dump hd' hv))
  refine ⟨k, j, hkey, hsorted, ?_, ?_⟩
  · intro hk
    simp only [variableKeys, List.mem_cons, List.not_mem_nil, or_false] at hk
    rcases hk with rfl | rfl | rfl
    · have h₁ := hintent (.str "a") (by simp [launchFields])
      have h₂ := hintent' (.str "b") (by simp [launchFields])
      simp [h₁] at h₂
    · have h₁ := hintent (.str "a") (by simp [launchFields])
      have h₂ := hintent' (.str "b") (by simp [launchFields])
      simp [h₁] at h₂
    · have h₁ := hintent (.str "launch_intent") (by simp [launchFields])
      have h₂ := hafter (.str "stop_requested_or_unknown") (by simp)
      simp [h₁] at h₂
  · intro v hv
    simp only [fixedFields, List.mem_cons, List.not_mem_nil, or_false, Prod.mk.injEq] at hv
    rcases hv with ⟨rfl, rfl⟩ | ⟨rfl, rfl⟩ | ⟨rfl, rfl⟩ | ⟨rfl, rfl⟩
    · exact hintent _ (by simp [launchFields])
    · exact hintent _ (by simp [launchFields])
    · exact hafter _ (by simp)
    · exact hafter _ (by simp)

/-- **Metadata is kept exactly if `spawn` rejects it at once, or its keys are strings, its
    values can be encoded with sorted keys, and the fields of a launch and of a stop leave
    them.** -/
theorem keepsMetadata_iff (hm : (spec.pidMetadata.map Prod.fst).Nodup) : KeepsMetadata spec g ↔
    (∃ e, pidPayload spec noResult = .error e) ∨
    (Survivable spec g ∧ (generationJson g).digitsOk = true) := by
  constructor
  · intro h
    cases ht : pidPayload spec noResult with
    | error e => exact .inl ⟨e, rfl⟩
    | ok t =>
      refine .inr ⟨h.survivable hm ht, ?_⟩
      obtain ⟨d, hd⟩ := h.intent ht "a"
      have hg := lookup_dump hd (k := "generation") (v := generationJson g) (by simp [launchFields])
      obtain ⟨-, -, -, hdumps⟩ := dump_inv hd
      exact dumps_iff.1 hdumps ⟨"generation", generationJson g⟩ (AList.mem_lookup_iff.1 hg)
  · rintro hs
    have hrun := hs.imp_right And.left
    refine ⟨fun _ _ _ _ _ _ hc => runs_carry hm hrun hc, fun w rounds hw => always_rejects hm hs hw⟩

end

/-- A consumer with one entry of metadata. -/
def consumerWith (key : String) (v : PyVal) :
    ProcessSpec := { consumer with pidMetadata := [(.str key, v)] }

theorem consumerWith_nodup (key : String) (v : PyVal) :
    ((consumerWith key v).pidMetadata.map Prod.fst).Nodup :=
  List.nodup_singleton _

theorem keeps_owner : KeepsMetadata (consumerWith "owner" (.str "feeds")) (some 1) := by
  refine (keepsMetadata_iff (consumerWith_nodup ..)).2 (.inr ⟨?_, by decide⟩)
  rintro e he
  obtain rfl : e = (.str "owner", .str "feeds") := List.mem_singleton.1 he
  exact ⟨"owner", .str "feeds", rfl, rfl, by decide, by simp [fixedFields]⟩

/-- **A `status` of the consumer is lost**: the launch intent replaces it. -/
theorem metadata_lost : ¬ ∀ (spec : ProcessSpec) (g : Option ℤ),
    (spec.pidMetadata.map Prod.fst).Nodup → (generationJson g).digitsOk = true →
    KeepsMetadata spec g := by
  intro h
  have hkeeps := h (consumerWith "status" (.str "mine")) (some 1)
    (consumerWith_nodup ..) (by decide)
  obtain ⟨t, ht⟩ : ∃ t, pidPayload (consumerWith "status" (.str "mine")) noResult = .ok t :=
    ⟨_, rfl⟩
  obtain ⟨k, j, hkey, -, hvar, -⟩ :=
    hkeeps.survivable (consumerWith_nodup ..) ht _ (List.mem_singleton_self _)
  obtain rfl : "status" = k := PyKey.str.inj hkey
  exact hvar (by decide)

end DatasourceKit

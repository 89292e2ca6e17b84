/-
  The fence that one `spawn` call leaves, wherever the call ends: `fence_clearable`.

  Either `pid.json` is as the call has found it, or it is the record of the launch, which
  a clearance accepts; but for a call that ends between the creation of `pid.json` and
  the write of its intent (`fence_not_clearable`).
-/
import DatasourceKit.Fleet.AckGate

namespace DatasourceKit

open Interleave Interleave.Prog Interleave.Machine

/-- A clearance of the launch with the token passes the identity check. -/
def UnitWorld.Names (w : UnitWorld) (spec : ProcessSpec) (generation : Option ℤ)
    (token : String) : Prop :=
  ∃ f d, w.pid = some f ∧ f.kind = .regular ∧ f.content = .doc d ∧
    Clearance.Matches ⟨spec.unit, generation, token, true, "operator"⟩ d = true

/-- `pid.json` is `found`, or the record of the launch of the call with the record `m`. -/
def UnitWorld.Clearable (w : UnitWorld) (spec : ProcessSpec) (generation : Option ℤ)
    (found : Option PidFile) (m : Mem) : Prop :=
  w.pid = found ∨ ∃ token, m.token = some token ∧ w.Names spec generation token

/-- The call has created `pid.json` and not written its intent. -/
def Mem.Unwritten (m : Mem) : Prop := m.fence.isSome = true ∧ m.intent = none

/-- The only `spawn` call and the file it has found. -/
structure ClearInv (spec : ProcessSpec) (generation : Option ℤ) (rounds : ℕ)
    (found : Option PidFile) (w : UnitWorld) : Prop where
  num : w.Numbered
  call : ∀ k, (w.mem 0).call = some k → k = .spawn spec generation rounds
  gates : ∀ i ≠ 0, ∀ k, (w.mem i).call = some k → ∃ n fuel, k = .gate n fuel
  first : w.calls = 1 → w.pid = found ∧ (w.mem 0).call = none
  untouched : (w.mem 0).call ≠ none → (w.mem 0).fence = none → w.pid = found
  creating : ∀ n, (w.mem 0).fence = some n → (w.mem 0).intent = none →
    found = none ∧ ∃ f, w.pid = some f ∧ f.ino = n ∧ f.kind = .regular ∧ f.content = .malformed
  intent : ∀ d, (w.mem 0).intent = some d → (w.mem 0).fence.isSome = true ∧
    ∃ token, (w.mem 0).token = some token ∧ EncodedIntent spec generation token d ∧
      w.Names spec generation token

theorem eqGeneration_iff (g : Option ℤ) : (generationJson g).eqGeneration g = true := by
  cases g with
  | none => rfl
  | some n => simp [generationJson, Json.eqGeneration, Json.eqInt]

theorem matches_of_get {spec : ProcessSpec} {generation : Option ℤ} {token : String} {d : Dict}
    (hu : d.get "unit" = .str spec.unit) (hg : d.get "generation" = generationJson generation)
    (ht : d.get "token" = .str token) :
    Clearance.Matches ⟨spec.unit, generation, token, true, "operator"⟩ d = true := by
  simp [Clearance.Matches, hu, hg, ht, Json.eqStr, eqGeneration_iff]

theorem EncodedIntent.get {spec : ProcessSpec} {generation : Option ℤ} {token : String} {d : Dict}
    (h : EncodedIntent spec generation token d) :
    d.get "unit" = .str spec.unit ∧ d.get "generation" = generationJson generation ∧
      d.get "token" = .str token := by
  obtain ⟨t, -, hd⟩ := h
  obtain ⟨-, hu, hg, ht, -⟩ := PidTemplate.get_dump hd
  exact ⟨hu, hg, ht⟩

theorem Mem.note_token {m : Mem} {o : UnitOp} (ho : o ≠ .uuid4) (r : Except Exc o.Val) :
    (m.note o r).token = m.token := by
  cases o <;> first
    | contradiction
    | (cases r <;> rfl)
    | (rcases r with e | _ <;> [cases e; skip] <;> rfl)

section
variable {spec : ProcessSpec} {generation : Option ℤ} {rounds : ℕ} {found : Option PidFile}
  {w w' : UnitWorld}

theorem UnitWorld.Names.of_pid {token : String} (h : w.Names spec generation token)
    (hp : w'.pid = w.pid) : w'.Names spec generation token := by
  obtain ⟨f, d, hf, hk, hd, hm⟩ := h
  exact ⟨f, d, hp ▸ hf, hk, hd, hm⟩

/-- A step that leaves `pid.json` and the record of the call alone. -/
theorem ClearInv.frame (h : ClearInv spec generation rounds found w) (hnum : w'.Numbered)
    (hcalls : w'.calls = w.calls) (hcall : ∀ i, (w'.mem i).call = (w.mem i).call)
    (hfence : (w'.mem 0).fence = (w.mem 0).fence) (hintent : (w'.mem 0).intent = (w.mem 0).intent)
    (htoken : (w'.mem 0).token = (w.mem 0).token ∨ (w.mem 0).fence = none) (hpid : w'.pid = w.pid) :
    ClearInv spec generation rounds found w' := by
  refine ⟨hnum, fun k hk => h.call k (hcall 0 ▸ hk), fun i hi k hk => h.gates i hi k (hcall i ▸ hk),
    fun hc => ⟨hpid.trans (h.first (hcalls ▸ hc)).1, (hcall 0).trans (h.first (hcalls ▸ hc)).2⟩,
    fun hc hf => hpid.trans (h.untouched (hcall 0 ▸ hc) (hfence ▸ hf)),
    fun n hn hi => ?_, fun d hd => ?_⟩
  · rw [hpid]
    exact h.creating n (hfence ▸ hn) (hintent ▸ hi)
  · obtain ⟨hf, token, ht, henc, hnames⟩ := h.intent d (hintent ▸ hd)
    refine ⟨hfence ▸ hf, token, ?_, henc, hnames.of_pid hpid⟩
    rcases htoken with htoken | hn
    · exact htoken.trans ht
    · rw [hn] at hf; cases hf

variable {unit : String} {ch : UnitEnv} {v : UnitWorld}

/-- An operation of the spawn, by what it does to `pid.json` and to the record of the call. -/
theorem ClearInv.spawned {o : UnitOp} {r : Except Exc o.Val}
    (h : ClearInv spec generation rounds found w) (hnum : (v.record 0 o r).Numbered)
    (hbusy : (w.mem 0).call = some (.spawn spec generation rounds))
    (he : w.effect 0 ch o = some (r, v))
    (huntouched : ((w.mem 0).note o r).fence = none → v.pid = found)
    (hcreating : ∀ n, ((w.mem 0).note o r).fence = some n → ((w.mem 0).note o r).intent = none →
      found = none ∧ ∃ f, v.pid = some f ∧ f.ino = n ∧ f.kind = .regular ∧ f.content = .malformed)
    (hintent : ∀ d, ((w.mem 0).note o r).intent = some d →
      ((w.mem 0).note o r).fence.isSome = true ∧ ∃ token, ((w.mem 0).note o r).token = some token ∧
      EncodedIntent spec generation token d ∧ v.Names spec generation token) :
    ClearInv spec generation rounds found (v.record 0 o r) := by
  have hrec := UnitWorld.effect_recorded he
  rw [← hrec.self] at huntouched hcreating hintent
  refine ⟨hnum, fun k hk => h.call k (hrec.call 0 ▸ hk), fun i hi k hk =>
    h.gates i hi k (hrec.call i ▸ hk), fun hc => ?_, fun _ => huntouched, hcreating, fun d hd => ?_⟩
  · have hidle := (h.first (hrec.calls ▸ hc)).2
    rw [hidle] at hbusy
    cases hbusy
  · obtain ⟨hf, token, ht, henc, hnames⟩ := hintent d hd
    exact ⟨hf, token, ht, henc, hnames.of_pid rfl⟩

theorem ClearInv.createPid {r : Except Exc ℕ} (h : ClearInv spec generation rounds found w)
    (hnum : (v.record 0 .createPid r).Numbered)
    (hbusy : (w.mem 0).call = some (.spawn spec generation rounds))
    (hok : UnitOp.createPid.ok unit (w.mem 0)) (he : w.effect 0 ch .createPid = some (r, v)) :
    ClearInv spec generation rounds found (v.record 0 .createPid r) := by
  obtain ⟨hfence, hintent, -⟩ := hok
  have hfound := h.untouched (by rw [hbusy]; simp) hfence
  have heff := he
  simp only [UnitWorld.effect] at heff
  split at heff
  · rename_i hnone
    cases heff
    refine h.spawned hnum hbusy he (fun hf => by cases hf) (fun n hn _ => ?_) fun d hd => ?_
    · exact ⟨hfound ▸ hnone, _, rfl, Option.some.inj hn, rfl, rfl⟩
    · cases hintent.symm.trans hd
  · cases heff
    refine h.spawned hnum hbusy he (fun _ => hfound) (fun n hn => ?_) fun d hd => ?_
    · cases hfence.symm.trans hn
    · cases hintent.symm.trans hd

theorem ClearInv.writePid {n : ℕ} {d : Dict} {r : Except Exc Unit}
    (h : ClearInv spec generation rounds found w) (hnum : (v.record 0 (.writePid n d) r).Numbered)
    (hbusy : (w.mem 0).call = some (.spawn spec generation rounds))
    (hok : (UnitOp.writePid n d).ok unit (w.mem 0))
    (he : w.effect 0 ch (.writePid n d) = some (r, v)) :
    ClearInv spec generation rounds found (v.record 0 (.writePid n d) r) := by
  obtain ⟨hfence, hintent, -, -, l, htok, -, hin, -⟩ := hok
  obtain ⟨hfound, f, hf, hino, hk, -⟩ := h.creating n hfence hintent
  have henc := hin _ _ _ hbusy
  obtain ⟨hu, hg, ht⟩ := henc.get
  have heff := he
  simp only [UnitWorld.effect, Option.some.injEq, Prod.mk.injEq] at heff
  obtain ⟨rfl, rfl⟩ := heff
  refine h.spawned hnum hbusy he (fun hn => ?_) (fun m _ hi => by cases hi) fun d' hd => ?_
  · cases hfence.symm.trans hn
  cases hd
  refine ⟨?_, l.token, htok, henc, { f with content := .doc d, synced := false }, d, ?_, hk, rfl,
    matches_of_get hu hg ht⟩
  · show (w.mem 0).fence.isSome = true
    rw [hfence]
    rfl
  · rw [UnitWorld.fillPid, hf, Option.map_some, if_pos hino]

theorem ClearInv.syncPid {n : ℕ} {r : Except Exc Unit} (h : ClearInv spec generation rounds found w)
    (hnum : (v.record 0 (.syncPid n) r).Numbered)
    (hbusy : (w.mem 0).call = some (.spawn spec generation rounds))
    (hok : (UnitOp.syncPid n).ok unit (w.mem 0)) (he : w.effect 0 ch (.syncPid n) = some (r, v)) :
    ClearInv spec generation rounds found (v.record 0 (.syncPid n) r) := by
  have heff := he
  simp only [UnitWorld.effect, Option.some.injEq, Prod.mk.injEq] at heff
  obtain ⟨rfl, rfl⟩ := heff
  have hfile : ∀ f, w.pid = some f → (w.fillPid n fun f => { f with synced := true }).pid =
      some (if f.ino = n then { f with synced := true } else f) := fun f hf => by
    rw [UnitWorld.fillPid, hf, Option.map_some]
  refine h.spawned hnum hbusy he (fun hn => ?_) (fun m hm hi => ?_) fun d hd => ?_
  · cases hok.symm.trans hn
  · obtain ⟨hfound, f, hf, hino, hk, hc⟩ := h.creating m hm hi
    refine ⟨hfound, _, hfile f hf, ?_, ?_, ?_⟩
    · split_ifs <;> exact hino
    · split_ifs <;> exact hk
    · split_ifs <;> exact hc
  · obtain ⟨hfe, token, ht, henc, f, d', hf, hk, hd', hmatch⟩ := h.intent d hd
    refine ⟨hfe, token, ht, henc, _, d', hfile f hf, ?_, ?_, hmatch⟩
    · split_ifs <;> exact hk
    · split_ifs <;> exact hd'

/-- The call replaces its intent by the record of the launch, which has the same identity. -/
theorem ClearInv.replacePid {d : Dict} {r : Except Exc Unit}
    (h : ClearInv spec generation rounds found w) (hnum : (v.record 0 (.replacePid d) r).Numbered)
    (hbusy : (w.mem 0).call = some (.spawn spec generation rounds))
    (hok : (UnitOp.replacePid d).ok unit (w.mem 0))
    (he : w.effect 0 ch (.replacePid d) = some (r, v)) :
    ClearInv spec generation rounds found (v.record 0 (.replacePid d) r) := by
  rcases hok.2 with ⟨-, -, -, -, hn⟩ | ⟨k, pid, l, -, hfence, ⟨d₀, hint, hnamed⟩, -, htok, hprov⟩
  · exact absurd hbusy (hn spec generation rounds)
  obtain ⟨-, token, htoken, henc, hnames⟩ := h.intent d₀ hint
  obtain ⟨hu, hg, ht⟩ := henc.get
  obtain rfl := Option.some.inj (htoken.symm.trans htok)
  have hpid : v.Names spec generation l.token := by
    simp only [UnitWorld.effect] at he
    split_ifs at he
    · cases he
      exact hnames
    · cases he
      refine ⟨_, d, rfl, rfl, rfl, matches_of_get ?_ ?_ hprov.token⟩
      · rw [hprov.unit, ← hnamed.unit, hu]
      · rw [hprov.generation, ← hnamed.generation, hg]
  have hsame : ((w.mem 0).note (.replacePid d) r).fence = (w.mem 0).fence ∧
      ((w.mem 0).note (.replacePid d) r).intent = (w.mem 0).intent ∧
      ((w.mem 0).note (.replacePid d) r).token = (w.mem 0).token := by
    cases r <;> exact ⟨rfl, rfl, rfl⟩
  obtain ⟨hfence', hintent', htoken'⟩ := hsame
  refine h.spawned hnum hbusy he (fun hn => ?_) (fun m _ hi => ?_) fun d' hd => ?_
  · rw [hfence'] at hn
    rw [hn] at hfence
    cases hfence
  · cases (hintent'.trans hint).symm.trans hi
  · cases (hintent'.trans hint).symm.trans hd
    exact ⟨hfence' ▸ hfence, l.token, htoken'.trans htok, henc, hpid⟩

/-- An operation of the spawn on `pid.json`. -/
theorem ClearInv.file {o : UnitOp} {r : Except Exc o.Val}
    (h : ClearInv spec generation rounds found w) (hnum : (v.record 0 o r).Numbered)
    (hbusy : (w.mem 0).call = some (.spawn spec generation rounds)) (hok : o.ok unit (w.mem 0))
    (ho : o.isFileOp = true) (he : w.effect 0 ch o = some (r, v)) :
    ClearInv spec generation rounds found (v.record 0 o r) := by
  have hrec := UnitWorld.effect_recorded he
  cases o with
  | createPid => exact h.createPid hnum hbusy hok he
  | writePid n d => exact h.writePid hnum hbusy hok he
  | syncPid n => exact h.syncPid hnum hbusy hok he
  | replacePid d => exact h.replacePid hnum hbusy hok he
  | unlinkPid =>
    obtain ⟨-, -, -, q, -, hq, -⟩ := hok
    rw [hbusy] at hq
    cases hq
  | syncDir =>
    simp only [UnitWorld.effect, Option.some.injEq, Prod.mk.injEq] at he
    obtain ⟨rfl, rfl⟩ := he
    exact h.frame hnum hrec.calls hrec.call (by rw [hrec.self]; rfl) (by rw [hrec.self]; rfl)
      (.inl (by rw [hrec.self]; rfl)) rfl
  | _ => cases ho

theorem ClearInv.op (h : ClearInv spec generation rounds found w) {i : ℕ} {o : UnitOp}
    {r : Except Exc o.Val} (hok : o.Allowed unit (w.mem i)) (hop : w.op i ch o = some (r, w')) :
    ClearInv spec generation rounds found w' := by
  have hnum := h.num.op hop
  rcases UnitWorld.op_cases hop with ⟨rfl, -⟩ | ⟨r', v, he, rfl, -⟩
  · exact h
  have hrec := UnitWorld.effect_recorded he
  obtain ⟨c, hc⟩ := Option.ne_none_iff_exists'.1 hok.busy
  by_cases hi : i = 0
  · subst hi
    obtain rfl := h.call c hc
    cases ho : o.isFileOp with
    | true => exact h.file hnum hc hok.ok ho he
    | false =>
      refine h.frame hnum hrec.calls hrec.call ?_ ?_ ?_ (UnitWorld.effect_files he ho).1
      · rw [hrec.self]; exact Mem.note_fence (by rintro rfl; cases ho) r'
      · rw [hrec.self]; exact Mem.note_intent (by rintro n d rfl; cases ho) r'
      · by_cases hu : o = .uuid4
        · subst hu; exact .inr hok.ok
        · rw [hrec.self]; exact .inl (Mem.note_token hu r')
  · obtain ⟨n, fuel, rfl⟩ := h.gates i hi c hc
    have hgate := hok.gate n fuel hc
    have hfile : o.isFileOp = false := by cases o <;> first | rfl | cases hgate
    have h₀ := hrec.other 0 (Ne.symm hi)
    exact h.frame hnum hrec.calls hrec.call (by rw [h₀]) (by rw [h₀]) (.inl (by rw [h₀]))
      (UnitWorld.effect_files he hfile).1

/-- Starting or ending a call. -/
theorem ClearInv.renew (h : ClearInv spec generation rounds found w) (hnum : w'.Numbered)
    (hspawn : ∀ k, (w'.mem 0).call = some k → k = .spawn spec generation rounds)
    (hgates : ∀ i ≠ 0, ∀ k, (w'.mem i).call = some k → ∃ n fuel, k = .gate n fuel)
    (hfirst : w'.calls = 1 → w.calls = 1 ∧ (w'.mem 0).call = none)
    (hmem : w'.mem 0 = w.mem 0 ∨ (w'.mem 0).fence = none ∧ (w'.mem 0).intent = none ∧
      ((w'.mem 0).call ≠ none → w.calls = 1)) (hpid : w'.pid = w.pid) :
    ClearInv spec generation rounds found w' := by
  refine ⟨hnum, hspawn, hgates, fun hc => ⟨hpid.trans (h.first (hfirst hc).1).1, (hfirst hc).2⟩,
    fun hc hf => ?_, fun n hn hi => ?_, fun d hd => ?_⟩
  · rcases hmem with h₀ | ⟨-, -, hnew⟩
    · rw [h₀] at hc hf
      exact hpid.trans (h.untouched hc hf)
    · exact hpid.trans (h.first (hnew hc)).1
  · rcases hmem with h₀ | ⟨hf, -⟩
    · rw [h₀] at hn hi
      rw [hpid]
      exact h.creating n hn hi
    · rw [hf] at hn; cases hn
  · rcases hmem with h₀ | ⟨-, hi, -⟩
    · rw [h₀] at hd ⊢
      obtain ⟨hf, token, ht, henc, hnames⟩ := h.intent d hd
      exact ⟨hf, token, ht, henc, hnames.of_pid hpid⟩
    · rw [hi] at hd; cases hd

theorem ClearInv.start (h : ClearInv spec generation rounds found w) {c : UnitCfg}
    (hc : c.sh = w) {i : ℕ} {k : UnitCall} (hone : OneSpawn spec generation rounds c (.start i k))
    (hs : w.start unit i k = some w') : ClearInv spec generation rounds found w' := by
  obtain ⟨hm, hj⟩ := UnitWorld.start_view hs
  obtain ⟨-, -, hpid, -⟩ := UnitWorld.start_frame hs
  obtain ⟨hcalls, -⟩ := UnitWorld.start_id hs
  have hpos := h.num.idLt 0
  rcases hone with ⟨n, fuel, rfl, hi⟩ | ⟨rfl, rfl, hc₁⟩
  · have h₀ := hj 0 (Ne.symm hi)
    refine h.renew (h.num.start hs) (by rw [h₀]; exact h.call) (fun j hj0 k' hk => ?_)
      (fun hc => by omega) (.inl h₀) hpid
    by_cases hji : j = i
    · rw [hji, hm] at hk; cases hk; exact ⟨_, _, rfl⟩
    · rw [hj j hji] at hk; exact h.gates j hj0 k' hk
  · refine h.renew (h.num.start hs) (fun k hk => ?_) (fun j hj0 k hk => ?_) (fun hc => by omega)
      (.inr ⟨by rw [hm], by rw [hm], fun _ => hc ▸ hc₁⟩) hpid
    · rw [hm] at hk; cases hk; rfl
    · rw [hj j hj0] at hk; exact h.gates j hj0 k hk

theorem ClearInv.close (h : ClearInv spec generation rounds found w) (i : ℕ) :
    ClearInv spec generation rounds found (w.close i) := by
  obtain ⟨-, -, hpid, -⟩ := UnitWorld.close_frame (w := w) i
  obtain ⟨hcalls, -⟩ := UnitWorld.close_id w i
  have hback : ∀ j k, ((w.close i).mem j).call = some k → (w.mem j).call = some k := by
    intro j k hk
    by_cases hji : j = i
    · rw [hji, UnitWorld.close_mem_self] at hk; cases hk
    · rwa [UnitWorld.close_view j hji] at hk
  refine h.renew (h.num.close i) (fun k hk => h.call k (hback 0 k hk))
    (fun j hj k hk => h.gates j hj k (hback j k hk)) (fun hc => ⟨hcalls ▸ hc, ?_⟩) ?_ hpid
  · cases hk : ((w.close i).mem 0).call with
    | none => rfl
    | some k =>
      have hn := hback 0 k hk
      rw [(h.first (hcalls ▸ hc)).2] at hn
      cases hn
  · by_cases hi : i = 0
    · subst hi; right; simp
    · exact .inl (UnitWorld.close_view 0 (Ne.symm hi))

/-- Where the call is, its file is clearable, but between creation and write. -/
theorem ClearInv.clearable_iff (h : ClearInv spec generation rounds found w)
    (hbusy : (w.mem 0).call ≠ none) :
    w.Clearable spec generation found (w.mem 0) ↔ ¬ (w.mem 0).Unwritten := by
  constructor
  · rintro hclear ⟨hf, hi⟩
    obtain ⟨n, hn⟩ := Option.isSome_iff_exists.1 hf
    obtain ⟨hfound, f, hpid, -, -, hmal⟩ := h.creating n hn hi
    rcases hclear with hp | ⟨token, -, f', d, hf', -, hd, -⟩
    · rw [hpid, hfound] at hp; cases hp
    · rw [hpid] at hf'
      cases hf'
      rw [hmal] at hd
      cases hd
  · intro hw
    cases hf : (w.mem 0).fence with
    | none => exact .inl (h.untouched hbusy hf)
    | some n =>
      cases hi : (w.mem 0).intent with
      | none => exact absurd ⟨by rw [hf]; rfl, hi⟩ hw
      | some d =>
        obtain ⟨-, token, ht, -, hnames⟩ := h.intent d hi
        exact .inr ⟨token, ht, hnames⟩

/-- An intent that cannot be encoded is never written. -/
theorem ClearInv.unwritten_of_refused (h : ClearInv spec generation rounds found w)
    (href : ∀ token d, ¬ EncodedIntent spec generation token d) : (w.mem 0).intent = none := by
  cases hi : (w.mem 0).intent with
  | none => rfl
  | some d =>
    obtain ⟨-, token, -, henc, -⟩ := h.intent d hi
    exact absurd henc (href token d)

end

theorem clear_rely (unit : String) (spec : ProcessSpec) (generation : Option ℤ) (rounds : ℕ)
    (found : Option PidFile) :
    Rely (fleet unit) (OneSpawn spec generation rounds) (ClearInv spec generation rounds found)
      (fun i w => w.mem i) UnitOp.upd (UnitOp.Allowed unit) UnitCall.fin :=
  fleet_rely (fun _ _ _ _ hp h _ hs => h.start rfl hp hs)
    (fun _ _ _ _ _ _ _ _ _ h _ hok hop => h.op hok hop) (fun _ i _ _ _ h _ _ => h.close i)
    fun _ i _ h => h.close i

theorem clearInv_init {spec : ProcessSpec} {generation : Option ℤ} {rounds : ℕ} {environ : Env}
    {proc : ℕ → ℕ} {found : Option PidFile} {state : Option Content} {tokens : List String} :
    ClearInv spec generation rounds found (.init environ proc found state tokens) := by
  constructor <;> first
    | exact UnitWorld.numbered_init
    | simp [UnitWorld.init]

/-- The spawn ends here without an answer: its process is killed, or it raises. -/
def Breaks (unit : String) (c c' : UnitCfg) : Prop :=
  (fleet unit).step c (.kill 0) = some c' ∨
    ∃ k e, c.run 0 = some (k, .raise e) ∧ (fleet unit).step c (.finish 0) = some c'

theorem Breaks.pid {unit : String} {c c' : UnitCfg} (h : Breaks unit c c') :
    c'.sh.pid = c.sh.pid := by
  obtain ⟨-, -, hclose, -⟩ := UnitWorld.close_frame (w := c.sh) 0
  rcases h with hs | ⟨k, e, hr, hs⟩
  · cases hs
    exact hclose
  · simp only [Machine.step, hr, Option.some.injEq] at hs
    rw [← hs]
    exact hclose

/-- **A fence is clearable**, wherever its spawn breaks off, if and only if it does not
    break off between the creation of `pid.json` and the write of the intent; where the
    intent cannot be encoded, if and only if `pid.json` has not been created. -/
theorem fence_clearable {unit : String} {spec : ProcessSpec} {generation : Option ℤ} {rounds : ℕ}
    {environ : Env} {proc : ℕ → ℕ} {found : Option PidFile} {state : Option Content}
    {tokens : List String} {c c' : UnitCfg}
    (h : (fleet unit).Reach (OneSpawn spec generation rounds)
      (idle (.init environ proc found state tokens)) c)
    (hbusy : c.run 0 ≠ none) (hend : Breaks unit c c') :
    (c'.sh.Clearable spec generation found (c.sh.mem 0) ↔ ¬ (c.sh.mem 0).Unwritten) ∧
      ((∀ token d, ¬ EncodedIntent spec generation token d) →
        (c'.sh.Clearable spec generation found (c.sh.mem 0) ↔ (c.sh.mem 0).fence = none)) := by
  have hI := ((clear_rely unit spec generation rounds found).inv clearInv_init h).1
  obtain ⟨⟨k, p⟩, hr⟩ := Option.ne_none_iff_exists'.1 hbusy
  have hcall : (c.sh.mem 0).call ≠ none := by
    rw [call_of_run h 0 k p hr]
    simp
  have hiff : c'.sh.Clearable spec generation found (c.sh.mem 0) ↔ ¬ (c.sh.mem 0).Unwritten := by
    rw [← hI.clearable_iff hcall]
    constructor
    · exact Or.imp (fun hp => hend.pid.symm.trans hp) fun ⟨t, ht, hn⟩ =>
        ⟨t, ht, hn.of_pid hend.pid.symm⟩
    · exact Or.imp (fun hp => hend.pid.trans hp) fun ⟨t, ht, hn⟩ => ⟨t, ht, hn.of_pid hend.pid⟩
  refine ⟨hiff, fun href => ?_⟩
  rw [hiff, Mem.Unwritten, hI.unwritten_of_refused href]
  simp

/-- Sorted keys must be strings. -/
theorem refused_of_key {spec : ProcessSpec} {generation : Option ℤ} {e : PyKey × PyVal}
    (he : e ∈ spec.pidMetadata) (hk : e.1.isStr = false) (token : String) (d : Dict) :
    ¬ EncodedIntent spec generation token d := by
  rintro ⟨t, ht, hd⟩
  have hmeta : t.metadata = spec.pidMetadata := by
    simp only [pidPayload] at ht
    split_ifs at ht
    cases hdump : dumpsWith false _ spec.pidMetadata with
    | error e => rw [hdump] at ht; cases ht
    | ok d' => rw [hdump] at ht; cases ht; rfl
  -- no field of a launch replaces the entry
  have hkept : ∀ fields : List (String × Json),
      e ∈ t.metadata.filter fun e => !fields.any fun f => e.1 == .str f.1 := by
    intro fields
    rw [hmeta, List.mem_filter]
    refine ⟨he, ?_⟩
    simp only [Bool.not_eq_true', List.any_eq_false, beq_iff_eq]
    intro f _ hf
    rw [hf] at hk
    cases hk
  simp only [launchIntent, PidTemplate.dump] at hd
  cases hdump : dumpsWith true t.base _ with
  | error e => rw [hdump] at hd; cases hd
  | ok d' =>
    unfold dumpsWith at hdump
    split_ifs at hdump with hall
    · simp only [Bool.true_and, Bool.not_eq_true', Bool.not_eq_false, List.all_eq_true] at hall
      rw [hall e (hkept _)] at hk
      cases hk

/-- Its `pid_metadata` has a key that `json.dumps` accepts, but not beside strings when
    the keys are sorted. -/
def unsorted : ProcessSpec := { consumer with pidMetadata := [(.int 1, .str "x")] }

/-- The spawn is raising, and `pid.json` is no document. -/
def leftMalformed (c : UnitCfg) : Bool :=
  (match c.run 0 with | some (_, .raise _) => true | _ => false) &&
    match c.sh.pid with | some ⟨_, _, .malformed, _⟩ => true | _ => false

/-- **A fence that no clearance accepts**: the intent cannot be encoded after `pid.json`
    has been created. -/
theorem fence_not_clearable : ∃ c c', (fleet "u").Reach (OneSpawn unsorted (some 1) 0) emptyUnit c ∧
    Breaks "u" c c' ∧ ¬ c'.sh.Clearable unsorted (some 1) none (c.sh.mem 0) := by
  obtain ⟨c, hc, hq⟩ := exists_spawn_run unsorted (ops 0 6 (answers "t"))
    leftMalformed (by decide +kernel)
  obtain ⟨hraise, hmal⟩ := Bool.and_eq_true_iff.1 hq
  split at hraise
  swap
  · cases hraise
  rename_i k e hr
  have hstep : (fleet "u").step c (.finish 0) =
      some ⟨c.sh.close 0, Function.update c.run 0 none⟩ := by
    simp only [Machine.step, hr, fleet]
  have hend : Breaks "u" c ⟨c.sh.close 0, Function.update c.run 0 none⟩ := .inr ⟨k, e, hr, hstep⟩
  refine ⟨c, _, hc, hend, ?_⟩
  split at hmal
  · rename_i ino kind synced hpid
    rintro (hp | ⟨token, -, f, d, hf, -, hd, -⟩)
    · rw [hend.pid, hpid] at hp; cases hp
    · rw [hend.pid, hpid] at hf
      cases hf
      cases hd
  · cases hmal

/-- A spawn that has written its intent. -/
def hasIntent (c : UnitCfg) : Bool := (c.run 0).isSome && (c.sh.mem 0).intent.isSome

/-- A spawn that has not created `pid.json`. -/
def noFence (c : UnitCfg) : Bool := (c.run 0).isSome && (c.sh.mem 0).fence.isNone

/-- A spawn is killed after it has written its intent; another one, whose intent would be refused,
    before it has created `pid.json`. -/
theorem fence_clearable_intent :
    (∃ c c', (fleet "u").Reach (OneSpawn consumer (some 1) 0) emptyUnit c ∧ Breaks "u" c c' ∧
      c'.sh.Clearable consumer (some 1) none (c.sh.mem 0)) ∧
    ∃ c c', (fleet "u").Reach (OneSpawn unsorted (some 1) 0) emptyUnit c ∧ Breaks "u" c c' ∧
      c'.sh.Clearable unsorted (some 1) none (c.sh.mem 0) := by
  have hbusy : ∀ {c : UnitCfg}, (c.run 0).isSome = true → c.run 0 ≠ none := fun h hn => by
    rw [hn] at h
    cases h
  constructor
  · obtain ⟨c, hc, hq⟩ :=
      exists_spawn_run consumer (ops 0 6 (answers "t")) hasIntent (by decide +kernel)
    obtain ⟨hrun, hintent⟩ := Bool.and_eq_true_iff.1 hq
    refine ⟨c, _, hc, .inl rfl, (fence_clearable hc (hbusy hrun) (.inl rfl)).1.2 fun hw => ?_⟩
    rw [hw.2] at hintent
    cases hintent
  · obtain ⟨c, hc, hq⟩ :=
      exists_spawn_run unsorted (ops 0 3 (answers "t")) noFence (by decide +kernel)
    obtain ⟨hrun, hfence⟩ := Bool.and_eq_true_iff.1 hq
    have hrefused : ∀ token d, ¬ EncodedIntent unsorted (some 1) token d :=
      refused_of_key List.mem_cons_self rfl
    exact ⟨c, _, hc, .inl rfl, ((fence_clearable hc (hbusy hrun) (.inl rfl)).2 hrefused).2
      (Option.isNone_iff_eq_none.1 hfence)⟩

end DatasourceKit

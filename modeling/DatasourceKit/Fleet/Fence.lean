/-
  `pid.json` as the fence of launches: `launch_fence`.

  Under any interleaving, with every call possibly killed at any step: no more children
  than absences of `pid.json`, which end only by the unlink of a clearance, and every
  such unlink has an audit line of its own before it.
-/
import DatasourceKit.Fleet.Generation

namespace DatasourceKit

open Interleave Interleave.Prog Interleave.Machine

/-! ## Histories -/

/-- The entry has created `pid.json`. -/
def Entry.creates (e : Entry) : Bool :=
  e.ok && match e.op with
    | .createPid => true
    | _ => false

/-- The entry has unlinked `pid.json`. -/
def Entry.unlinks (e : Entry) : Bool :=
  e.ok && match e.op with
    | .unlinkPid => true
    | _ => false

/-- The entry has appended an audit line of the clearance. -/
def Entry.Audits (e : Entry) (q : Clearance) : Prop :=
  e.ok = true ∧ ∃ now, e.op = .appendAudit (q.record now)

/-- Before every unlink a clearance with the same call number has appended its line, and
    has unlinked nothing yet. -/
def Audited : List Entry → Prop
  | [] => True
  | e :: t => (e.unlinks = true →
      (∃ q, e.call = some (.clear q) ∧ ∃ a ∈ t, a.id = e.id ∧ a.Audits q) ∧
        ∀ e' ∈ t, e'.unlinks = true → e'.id ≠ e.id) ∧ Audited t

/-- The absences of `pid.json`. -/
def UnitWorld.absent (w : UnitWorld) : ℕ := if w.pid.isNone then 1 else 0

/-- The fence, with `n` absences at the start. -/
structure FenceInv (n : ℕ) (w : UnitWorld) : Prop where
  num : w.Numbered
  count : w.trace.countP Entry.creates + w.absent ≤ n + w.trace.countP Entry.unlinks
  fence : ∀ i, (w.mem i).fence.isSome = true → ∃ e ∈ w.trace, e.creates = true ∧ e.id = w.id i
  launched : ∀ m ∈ w.launchers, m < w.calls ∧ ∃ e ∈ w.trace, e.creates = true ∧ e.id = m
  once : w.launchers.Nodup
  kid : ∀ i, (w.mem i).call ≠ none → w.id i ∈ w.launchers → (w.mem i).kid ≠ none
  audited : ∀ i, (w.mem i).audited = true → ∃ q, (w.mem i).call = some (.clear q) ∧
    ∃ a ∈ w.trace, a.id = w.id i ∧ a.Audits q
  unlinked : ∀ i, (w.mem i).call ≠ none →
    (∃ e ∈ w.trace, e.unlinks = true ∧ e.id = w.id i) → (w.mem i).unlinked = true
  history : Audited w.trace

namespace UnitWorld
variable {w v : UnitWorld} {i : ℕ} {ch : UnitEnv} {o : UnitOp} {r : Except Exc o.Val}

/-- Only a creation ends an absence of `pid.json` and only an unlink begins one, but for
    a rename onto an absent one. -/
theorem effect_absent (h : w.effect i ch o = some (r, v)) :
    (if (⟨i, w.id i, (w.mem i).call, o, r.isOk⟩ : Entry).creates = true then 1 else 0) + v.absent ≤
      w.absent +
        if (⟨i, w.id i, (w.mem i).call, o, r.isOk⟩ : Entry).unlinks = true then 1 else 0 := by
  cases o <;> simp only [effect] at h <;> (try split at h) <;> (try split at h) <;>
    (try split at h) <;> cases h <;>
    simp_all [absent, Entry.creates, Entry.unlinks, unlock, fillPid, setKid,
      Except.isOk, Except.toBool]

/-- `pid.json` becomes absent only by an unlink. -/
theorem effect_present (h : w.effect i ch o = some (r, v)) (hw : w.pid ≠ none) (hv : v.pid = none) :
    o = .unlinkPid ∧ r.isOk = true := by
  cases o <;> simp only [effect] at h <;> (try split at h) <;> (try split at h) <;>
    (try split at h) <;> cases h <;>
    simp_all [unlock, fillPid, setKid, Except.isOk, Except.toBool]

end UnitWorld

/-! ## The invariant -/

section
variable {unit : String} {n i : ℕ} {w v : UnitWorld} {ch : UnitEnv} {o : UnitOp}
  {r : Except Exc o.Val}

theorem UnitOp.unlinkPid_of_unlinks {t i : ℕ} {k : Option UnitCall} {b : Bool}
    (h : (⟨t, i, k, o, b⟩ : Entry).unlinks = true) : o = .unlinkPid := by
  cases o <;> simp only [Entry.unlinks, Bool.and_false, Bool.false_eq_true] at h
  rfl

theorem FenceInv.op_count (h : FenceInv n w) (he : w.effect i ch o = some (r, v)) :
    (v.record i o r).trace.countP Entry.creates + (v.record i o r).absent ≤
      n + (v.record i o r).trace.countP Entry.unlinks := by
  have hstep := UnitWorld.effect_absent he
  have hcount := h.count
  rw [(UnitWorld.effect_recorded he).trace, List.countP_cons, List.countP_cons]
  show _ + v.absent ≤ _
  omega

/-- A call gets its fence by the creation that it records. -/
theorem FenceInv.op_fence (h : FenceInv n w) (he : w.effect i ch o = some (r, v)) {j : ℕ}
    (hj : ((v.record i o r).mem j).fence.isSome = true) :
    ∃ e ∈ (v.record i o r).trace, e.creates = true ∧ e.id = w.id j := by
  have hrec := UnitWorld.effect_recorded he
  by_cases hji : j = i
  swap
  · rw [hrec.other j hji] at hj
    exact hrec.exists_entry (h.fence j hj)
  subst hji
  rw [hrec.self] at hj
  by_cases hcr : o = .createPid
  · subst hcr
    cases r with
    | ok m => exact ⟨_, hrec.trace ▸ List.mem_cons_self, rfl, rfl⟩
    | error x => exact hrec.exists_entry (h.fence j hj)
  · rw [Mem.note_fence hcr] at hj
    exact hrec.exists_entry (h.fence j hj)

theorem FenceInv.op_launched (h : FenceInv n w) (hok : o.Allowed unit (w.mem i))
    (he : w.effect i ch o = some (r, v)) {m : ℕ} (hm : m ∈ v.launchers) :
    m < w.calls ∧ ∃ e ∈ (v.record i o r).trace, e.creates = true ∧ e.id = m := by
  have hrec := UnitWorld.effect_recorded he
  rcases UnitWorld.effect_launchers he with ⟨l, rfl, hl⟩ | ⟨-, hl⟩
  · rw [hl, List.mem_append, List.mem_singleton] at hm
    rcases hm with hm | rfl
    · exact ⟨(h.launched m hm).1, hrec.exists_entry (h.launched m hm).2⟩
    · exact ⟨h.num.idLt i, hrec.exists_entry (h.fence i hok.ok.1)⟩
  · rw [hl] at hm
    exact ⟨(h.launched m hm).1, hrec.exists_entry (h.launched m hm).2⟩

theorem FenceInv.op_once (h : FenceInv n w) (hok : o.Allowed unit (w.mem i))
    (he : w.effect i ch o = some (r, v)) : (v.record i o r).launchers.Nodup := by
  show v.launchers.Nodup
  rcases UnitWorld.effect_launchers he with ⟨l, rfl, hl⟩ | ⟨-, hl⟩
  · rw [hl, List.nodup_append_comm, List.singleton_append, List.nodup_cons]
    exact ⟨fun hmem => h.kid i hok.busy hmem hok.ok.2.1, h.once⟩
  · rw [hl]
    exact h.once

/-- A call that has launched remembers its child. -/
theorem FenceInv.op_kid (h : FenceInv n w) (hok : o.Allowed unit (w.mem i))
    (he : w.effect i ch o = some (r, v)) {j : ℕ} (hc : (w.mem j).call ≠ none)
    (hmem : w.id j ∈ v.launchers) :
    ((v.record i o r).mem j).kid ≠ none := by
  have hrec := UnitWorld.effect_recorded he
  by_cases hji : j = i
  · subst hji
    rw [hrec.self]
    rcases UnitWorld.effect_launchers he with ⟨l, rfl, -⟩ | ⟨hpop, hl⟩
    · simp only [UnitWorld.effect, Option.some.injEq, Prod.mk.injEq] at he
      rw [← he.1]
      simp [Mem.note]
    · rw [hl] at hmem
      rw [Mem.note_kid hpop]
      exact h.kid j hc hmem
  · rw [hrec.other j hji]
    refine h.kid j hc ?_
    rcases UnitWorld.effect_launchers he with ⟨l, rfl, hl⟩ | ⟨-, hl⟩
    · rw [hl, List.mem_append, List.mem_singleton] at hmem
      exact hmem.resolve_right fun heq => hji (h.num.inj i j hok.busy hc heq.symm).symm
    · rwa [hl] at hmem

theorem FenceInv.op_audited (h : FenceInv n w) (hok : o.Allowed unit (w.mem i))
    (he : w.effect i ch o = some (r, v)) {j : ℕ} (hj : ((v.record i o r).mem j).audited = true) :
    ∃ q, (w.mem j).call = some (.clear q) ∧ ∃ a ∈ (v.record i o r).trace,
    a.id = w.id j ∧ a.Audits q := by
  have hrec := UnitWorld.effect_recorded he
  have hold : (w.mem j).audited = true → ∃ q, (w.mem j).call = some (.clear q) ∧
      ∃ a ∈ (v.record i o r).trace, a.id = w.id j ∧ a.Audits q := fun ha => by
    obtain ⟨q, hq, ha⟩ := h.audited j ha
    exact ⟨q, hq, hrec.exists_entry ha⟩
  by_cases hji : j = i
  swap
  · rw [hrec.other j hji] at hj
    exact hold hj
  subst hji
  rw [hrec.self] at hj
  by_cases ha : ∃ d, o = .appendAudit d
  · obtain ⟨d, rfl⟩ := ha
    cases r with
    | error x => exact hold hj
    | ok m =>
      obtain ⟨q, now, hq, rfl⟩ := hok.ok
      exact ⟨q, hq, _, hrec.trace ▸ List.mem_cons_self, rfl, rfl, now, rfl⟩
  · rw [Mem.note_audited fun d hd => ha ⟨d, hd⟩] at hj
    exact hold hj

/-- A call that has unlinked remembers it. -/
theorem FenceInv.op_unlinked (h : FenceInv n w) (hok : o.Allowed unit (w.mem i))
    (he : w.effect i ch o = some (r, v)) {j : ℕ} (hc : (w.mem j).call ≠ none)
    (hu : ∃ e ∈ (v.record i o r).trace, e.unlinks = true ∧ e.id = w.id j) :
    ((v.record i o r).mem j).unlinked = true := by
  have hrec := UnitWorld.effect_recorded he
  obtain ⟨e, hmem, hue, hide⟩ := hu
  rw [hrec.trace] at hmem
  rcases List.mem_cons.1 hmem with rfl | hmem
  · obtain rfl := h.num.inj i j hok.busy hc hide
    rw [hrec.self]
    obtain rfl := UnitOp.unlinkPid_of_unlinks hue
    cases r with
    | ok m => rfl
    | error x => simp [Entry.unlinks, Except.isOk, Except.toBool] at hue
  · have hold := h.unlinked j hc ⟨e, hmem, hue, hide⟩
    by_cases hji : j = i
    · subst hji
      rw [hrec.self]
      by_cases hun : o = .unlinkPid
      · subst hun
        cases r <;> first | rfl | exact hold
      · rw [Mem.note_unlinked hun]
        exact hold
    · rw [hrec.other j hji]
      exact hold

theorem FenceInv.op_history (h : FenceInv n w) (hok : o.Allowed unit (w.mem i))
    (he : w.effect i ch o = some (r, v)) : Audited (v.record i o r).trace := by
  rw [(UnitWorld.effect_recorded he).trace]
  refine ⟨fun hue => ?_, h.history⟩
  obtain rfl := UnitOp.unlinkPid_of_unlinks hue
  obtain ⟨-, ha, hnot, -⟩ := hok.ok
  refine ⟨h.audited i ha, fun e he' hue' hide => ?_⟩
  rw [h.unlinked i hok.busy ⟨e, he', hue', hide⟩] at hnot
  cases hnot

theorem FenceInv.op {w' : UnitWorld} (h : FenceInv n w) (hok : o.Allowed unit (w.mem i))
    (hop : w.op i ch o = some (r, w')) : FenceInv n w' := by
  have hnum := h.num.op hop
  rcases UnitWorld.op_cases hop with ⟨rfl, -⟩ | ⟨r', v, he, rfl, -⟩
  · exact h
  have hrec := UnitWorld.effect_recorded he
  refine ⟨hnum, h.op_count he, fun j hj => ?_, fun m hm => ?_, h.op_once hok he,
    fun j hc hmem => ?_, fun j hj => ?_, fun j hc hu => ?_, h.op_history hok he⟩
  · rw [hrec.id]
    exact h.op_fence he hj
  · rw [hrec.calls]
    exact h.op_launched hok he hm
  · rw [hrec.call] at hc
    rw [hrec.id] at hmem
    exact h.op_kid hok he hc hmem
  · rw [hrec.id, hrec.call]
    exact h.op_audited hok he hj
  · rw [hrec.call] at hc
    rw [hrec.id] at hu
    exact h.op_unlinked hok he hc hu

end

/-- Starting or ending a call. -/
theorem FenceInv.renew {n : ℕ} {w w' : UnitWorld} (h : FenceInv n w) {i : ℕ} (hnum : w'.Numbered)
    (hmem : ∀ j ≠ i, w'.mem j = w.mem j) (hid : ∀ j ≠ i, w'.id j = w.id j)
    (hcalls : w.calls ≤ w'.calls) (hfence : (w'.mem i).fence = none)
    (haud : (w'.mem i).audited = false) (hnew : (w'.mem i).call ≠ none → w.calls ≤ w'.id i)
    (htrace : w'.trace = w.trace) (hpid : w'.pid = w.pid) (hl : w'.launchers = w.launchers) :
    FenceInv n w' := by
  refine ⟨hnum, ?_, fun j hj => ?_, fun m hm => ?_, hl ▸ h.once, fun j hc hmem' => ?_,
    fun j hj => ?_, fun j hc hu => ?_, htrace ▸ h.history⟩
  · rw [htrace, UnitWorld.absent, hpid]; exact h.count
  · by_cases hji : j = i
    · rw [hji, hfence] at hj; cases hj
    · rw [hmem j hji] at hj
      rw [htrace, hid j hji]
      exact h.fence j hj
  · rw [hl] at hm
    rw [htrace]
    exact ⟨lt_of_lt_of_le (h.launched m hm).1 hcalls, (h.launched m hm).2⟩
  · rw [hl] at hmem'
    by_cases hji : j = i
    · subst hji
      have hlt := (h.launched _ hmem').1
      have hle := hnew hc
      omega
    · rw [hmem j hji] at hc ⊢
      exact h.kid j hc (hid j hji ▸ hmem')
  · by_cases hji : j = i
    · rw [hji, haud] at hj; cases hj
    · rw [hmem j hji] at hj ⊢
      rw [htrace, hid j hji]
      exact h.audited j hj
  · rw [htrace] at hu
    by_cases hji : j = i
    · subst hji
      obtain ⟨e, he, -, hide⟩ := hu
      have hlt := h.num.entryLt e he
      have hle := hnew hc
      omega
    · rw [hmem j hji] at hc ⊢
      rw [hid j hji] at hu
      exact h.unlinked j hc hu

theorem FenceInv.start {unit : String} {n : ℕ} {w w' : UnitWorld} (h : FenceInv n w) {i : ℕ}
    {k : UnitCall} (hs : w.start unit i k = some w') : FenceInv n w' := by
  obtain ⟨hm, hj⟩ := UnitWorld.start_view hs
  obtain ⟨ht, -, hp, -⟩ := UnitWorld.start_frame hs
  obtain ⟨hcalls, hidi, hidj⟩ := UnitWorld.start_id hs
  exact h.renew (h.num.start hs) hj hidj (by omega) (by rw [hm]) (by rw [hm]) (fun _ => by omega) ht
    hp (UnitWorld.start_launchers hs)

theorem FenceInv.close {n : ℕ} {w : UnitWorld} (h : FenceInv n w) (i : ℕ) :
    FenceInv n (w.close i) := by
  obtain ⟨ht, -, hp, -⟩ := UnitWorld.close_frame (w := w) i
  obtain ⟨hcalls, hid⟩ := UnitWorld.close_id w i
  exact h.renew (h.num.close i) UnitWorld.close_view (fun j _ => by rw [hid]) (by omega) (by simp)
    (by simp) (by simp) ht hp (UnitWorld.close_launchers w i)

theorem fenceInv_init {environ : Env} {proc : ℕ → ℕ} {pid : Option PidFile} {state : Option Content}
    {tokens : List String} :
    FenceInv (if pid.isNone then 1 else 0) (.init environ proc pid state tokens) := by
  constructor <;> first
    | exact UnitWorld.numbered_init
    | simp [UnitWorld.init, UnitWorld.absent, UnitWorld.launchers, Audited]

theorem fence_rely (unit : String) (n : ℕ) : Rely (fleet unit) (fun _ _ => True) (FenceInv n)
    (fun i w => w.mem i) UnitOp.upd (UnitOp.Allowed unit) UnitCall.fin :=
  fleet_rely (fun _ _ _ _ _ h _ hs => h.start hs)
    (fun _ _ _ _ _ _ _ _ _ h _ hok hop => h.op hok hop) (fun _ i _ _ _ h _ _ => h.close i)
    fun _ i _ h => h.close i

/-- There are at most as many children as creations of `pid.json`. -/
theorem FenceInv.kids_le {n : ℕ} {w : UnitWorld} (h : FenceInv n w) :
    w.kids.length ≤ w.trace.countP Entry.creates := by
  have hsub : w.launchers ⊆ (w.trace.filter Entry.creates).map Entry.id := by
    intro m hm
    obtain ⟨-, e, he, hc, rfl⟩ := h.launched m hm
    exact List.mem_map.2 ⟨e, List.mem_filter.2 ⟨he, hc⟩, rfl⟩
  have hle := (List.subperm_of_subset h.once hsub).length_le
  rwa [UnitWorld.launchers, List.length_map, List.length_map, ← List.countP_eq_length_filter] at hle

/-- **The launch fence**: at most one `Popen` call for the absence of `pid.json` at the
    start and for every unlink of a clearance; every unlink has its own audit line; only
    an unlink makes `pid.json` absent. -/
theorem launch_fence {unit : String} {environ : Env} {proc : ℕ → ℕ} {pid : Option PidFile}
    {state : Option Content} {tokens : List String} {c : UnitCfg}
    (h : (fleet unit).Reach (fun _ _ => True) (idle (.init environ proc pid state tokens)) c) :
    c.sh.kids.length ≤ (if pid.isNone then 1 else 0) + c.sh.trace.countP Entry.unlinks ∧
    Audited c.sh.trace ∧
    ∀ a c', (fleet unit).step c a = some c' → c.sh.pid ≠ none → c'.sh.pid = none →
      ∃ e q, c'.sh.trace = e :: c.sh.trace ∧ e.unlinks = true ∧ e.call = some (.clear q) := by
  have hI := ((fence_rely unit _).inv fenceInv_init h).1
  refine ⟨?_, hI.history, fun a c' hs hp hp' => ?_⟩
  · have hle := hI.kids_le
    have hcount := hI.count
    omega
  rcases step_cases hs with ⟨i, k, s, rfl, hr, hst, rfl⟩ |
    ⟨i, ch, k, o, f, r, s, rfl, hr, hop, rfl⟩ | ⟨i, k, r, rfl, hr, rfl⟩ | ⟨i, rfl, rfl⟩
  · exact absurd ((UnitWorld.start_frame hst).2.2.1.symm.trans hp') hp
  · have hok := (fence_rely unit _).ok_next fenceInv_init h hr
    rcases UnitWorld.op_cases hop with ⟨rfl, -⟩ | ⟨r', v, he, rfl, -⟩
    · exact absurd hp' hp
    obtain ⟨rfl, hr'⟩ := UnitWorld.effect_present he hp hp'
    obtain ⟨-, -, -, q, d, hq, -⟩ := hok.ok
    refine ⟨⟨i, c.sh.id i, (c.sh.mem i).call, .unlinkPid, r'.isOk⟩, q,
      (UnitWorld.effect_recorded he).trace, ?_, hq⟩
    simp [Entry.unlinks, hr']
  · exact absurd ((UnitWorld.close_frame i).2.2.1.symm.trans hp') hp
  · exact absurd ((UnitWorld.close_frame i).2.2.1.symm.trans hp') hp

/-- Two launches need a clearance. -/
theorem launch_fence_two : ∃ c, (fleet "u").Reach (fun _ _ => True) emptyUnit c ∧
    c.sh.kids.length = 2 ∧ 2 ≤ 1 + c.sh.trace.countP Entry.unlinks ∧ Audited c.sh.trace := by
  obtain ⟨c, hc, hq, -⟩ := Reach.exists_of_run (P := fun _ _ => True) (fleet "u") emptyUnit
    (fun _ _ => true) reuse (fun c => c.sh.kids.length == 2)
      (fun _ _ _ => trivial) (by decide +kernel)
  have hlen := eq_of_beq hq
  obtain ⟨hle, haud, -⟩ := launch_fence hc
  rw [hlen] at hle
  exact ⟨c, hc, hlen, hle, haud⟩

end DatasourceKit

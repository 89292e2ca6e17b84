/-
  One `spawn` call and the wrapper of its child, under any interleaving, fragmentation
  of the two byte streams, fault and kill: `ack_gate`.

  The wrapper executes the consumer command at most once, after it has received the
  complete acknowledgement, while the provenance of the launch is durable.
-/
import DatasourceKit.Fleet.StateFile

namespace DatasourceKit

open Interleave Interleave.Prog Interleave.Machine

/-- The only call beside wrappers is one `spawn` in thread 0. -/
def OneSpawn (spec : ProcessSpec) (generation : Option ℤ) (rounds : ℕ) (c : UnitCfg) :
    UnitAct → Prop
  | .start i k => (∃ n fuel, k = .gate n fuel ∧ i ≠ 0) ∨
      i = 0 ∧ k = .spawn spec generation rounds ∧ c.sh.calls = 1
  | _ => True

/-- `pid.json` holds the provenance of the child, on the disk too. -/
def UnitWorld.Durable (w : UnitWorld) (a : Kid) : Prop :=
  ∃ f d, w.pid = some f ∧ f.content = .doc d ∧ f.synced = true ∧ w.durable = some (.doc d) ∧
    a.launch.Provenance a.pid d

/-- The child of the call. -/
structure KidInv (spec : ProcessSpec) (generation : Option ℤ) (w : UnitWorld) (a : Kid) : Prop where
  unit : a.launch.unit = spec.unit
  generation : a.launch.generation = generation
  pref : a.sent <+: ack
  acked : a.sent ≠ [] → w.Durable a
  fresh : a.started = false → a.toChild = a.sent ∧ a.execs = 0
  once : a.execs ≤ 1
  ran : 0 < a.execs → a.sent = ack

structure AckInv (spec : ProcessSpec) (generation : Option ℤ) (rounds : ℕ)
    (w : UnitWorld) : Prop where
  num : w.Numbered
  flushed : w.Flushed
  call : ∀ k, (w.mem 0).call = some k → k = .spawn spec generation rounds
  gates : ∀ i ≠ 0, ∀ k, (w.mem i).call = some k → ∃ n fuel, k = .gate n fuel
  first : w.calls = 1 → w.kids = [] ∧ ∀ i, (w.mem i).call = none
  own : ∀ k pid l, (w.mem 0).kid = some (k, pid, l) →
    k = 0 ∧ ∃ a, w.kids = [a] ∧ a.launch = l ∧ a.pid = pid ∧ a.sent = (w.mem 0).sent
  before : (w.mem 0).call ≠ none → (w.mem 0).kid = none → w.kids = []
  record : ∀ d, (w.mem 0).record = some d → ∃ f, w.pid = some f ∧ f.content = .doc d ∧
    f.synced = true ∧ ((w.mem 0).synced = true → w.durable = some (.doc d))
  kid : ∀ a ∈ w.kids, KidInv spec generation w a
  small : w.kids.length ≤ 1
  gate : ∀ i n fuel, (w.mem i).call = some (.gate n fuel) → ∃ a, w.kids = [a] ∧ n = 0 ∧
    a.started = true ∧ (w.mem i).got ++ a.toChild = a.sent ∧
    ((w.mem i).executed = false → a.execs = 0)
  unique : ∀ i j, i ≠ 0 → j ≠ 0 → (w.mem i).call ≠ none → (w.mem j).call ≠ none → i = j

/-- What most steps keep of a child. -/
structure Kid.Quiet (a b : Kid) : Prop extends Kid.Keeps a b where
  sent : b.sent = a.sent
  toChild : b.toChild = a.toChild
  started : b.started = a.started
  execs : b.execs = a.execs

theorem Kid.Quiet.refl (a : Kid) : a.Quiet a := ⟨⟨rfl, rfl, rfl⟩, rfl, rfl, rfl, rfl⟩

/-- The operations that launch a child, send to it, or are received or executed by it. -/
def UnitOp.isKidOp : UnitOp → Bool
  | .popen _ | .send .. | .gateRead .. | .execvpe _ => true
  | _ => false

theorem UnitWorld.effect_quiet {w v : UnitWorld} {i : ℕ} {ch : UnitEnv} {o : UnitOp}
    {r : Except Exc o.Val} (h : w.effect i ch o = some (r, v)) (ho : o.isKidOp = false) :
    ∃ k f, v.kids = w.kids.modify k f ∧ ∀ a : Kid, a.Quiet (f a) := by
  have hid : ∀ l : List Kid, l = l.modify 0 fun a => a := fun l => (UnitWorld.modify_same l).symm
  cases o <;> simp only [effect] at h <;> (try split at h) <;> (try split at h) <;>
    (try split at h) <;> cases h
  all_goals first
    | exact ⟨0, fun a => a, hid _, fun a => .refl a⟩
    | exact ⟨_, _, rfl, fun a => ⟨⟨rfl, rfl, rfl⟩, rfl, rfl, rfl, rfl⟩⟩
    | cases ho

theorem UnitWorld.close_quiet (w : UnitWorld) (i : ℕ) :
    ∃ n f, (w.close i).kids = w.kids.modify n f ∧ ∀ a : Kid, a.Quiet (f a) := by
  unfold close
  dsimp only
  split <;> first
    | exact ⟨_, _, rfl, fun a => ⟨⟨rfl, rfl, rfl⟩, rfl, rfl, rfl, rfl⟩⟩
    | exact ⟨0, fun a => a, (modify_same _).symm, fun a => .refl a⟩

theorem modify_nil (k : ℕ) (f : Kid → Kid) : ([] : List Kid).modify k f = [] := by
  cases k <;> rfl

/-- The only child after a step on it. -/
theorem modify_one {a : Kid} {k : ℕ} {f : Kid → Kid} (hf : ∀ a : Kid, a.Quiet (f a)) :
    ∃ b, [a].modify k f = [b] ∧ a.Quiet b := by
  cases k with
  | zero => exact ⟨f a, rfl, hf a⟩
  | succ k => exact ⟨a, by cases k <;> rfl, .refl a⟩

theorem Mem.note_sent {m : Mem} {o : UnitOp} (ho : o.isKidOp = false) (r : Except Exc o.Val) :
    (m.note o r).kid = m.kid ∧ (m.note o r).sent = m.sent ∧ (m.note o r).got = m.got ∧
      (m.note o r).executed = m.executed := by
  cases o <;> first
    | (cases r <;> exact ⟨rfl, rfl, rfl, rfl⟩)
    | (rcases r with e | _ <;> [cases e; skip] <;> exact ⟨rfl, rfl, rfl, rfl⟩)
    | cases ho

/-- The operations that change `pid.json` or what the disk has of it. -/
def UnitOp.isFileOp : UnitOp → Bool
  | .createPid | .writePid .. | .syncPid _ | .replacePid _ | .unlinkPid | .syncDir => true
  | _ => false

theorem UnitWorld.effect_files {w v : UnitWorld} {i : ℕ} {ch : UnitEnv} {o : UnitOp}
    {r : Except Exc o.Val} (h : w.effect i ch o = some (r, v)) (ho : o.isFileOp = false) :
    v.pid = w.pid ∧ v.durable = w.durable := by
  cases o <;> simp only [effect] at h <;> (try split at h) <;> (try split at h) <;>
    (try split at h) <;> cases h <;> first | exact ⟨rfl, rfl⟩ | cases ho

theorem Mem.note_record {m : Mem} {o : UnitOp} (ho : o.isFileOp = false) (r : Except Exc o.Val) :
    (m.note o r).record = m.record ∧ (m.note o r).synced = m.synced := by
  cases o <;> first
    | (cases r <;> exact ⟨rfl, rfl⟩)
    | (rcases r with e | _ <;> [cases e; skip] <;> exact ⟨rfl, rfl⟩)
    | cases ho

section
variable {spec : ProcessSpec} {generation : Option ℤ} {rounds : ℕ} {w w' : UnitWorld}

theorem KidInv.quiet {a b : Kid} (h : KidInv spec generation w a) (hq : a.Quiet b)
    (hdur : a.sent ≠ [] → w.Durable a → w'.Durable b) : KidInv spec generation w' b where
  unit := hq.launch ▸ h.unit
  generation := hq.launch ▸ h.generation
  pref := hq.sent ▸ h.pref
  acked := by
    intro hs
    rw [hq.sent] at hs
    exact hdur hs (h.acked hs)
  fresh := by rw [hq.started, hq.toChild, hq.sent, hq.execs]; exact h.fresh
  once := hq.execs ▸ h.once
  ran := by rw [hq.execs, hq.sent]; exact h.ran

theorem AckInv.only (h : AckInv spec generation rounds w) {a : Kid} {l : List Kid}
    (hk : w.kids = a :: l) :
    l = [] := by
  have hsmall := h.small
  rw [hk] at hsmall
  cases l with
  | nil => rfl
  | cons b l => simp at hsmall

/-- A step that launches, sends, receives and executes nothing. -/
theorem AckInv.frame (h : AckInv spec generation rounds w) {k : ℕ} {f : Kid → Kid}
    (hnum : w'.Numbered) (hflush : w'.Flushed) (hcalls : w'.calls = w.calls)
    (hcall : ∀ i, (w'.mem i).call = (w.mem i).call)
    (hmem : ∀ i, (w'.mem i).kid = (w.mem i).kid ∧ (w'.mem i).sent = (w.mem i).sent ∧
      (w'.mem i).got = (w.mem i).got ∧ (w'.mem i).executed = (w.mem i).executed)
    (hkids : w'.kids = w.kids.modify k f) (hf : ∀ a : Kid, a.Quiet (f a))
    (hrec : ∀ d, (w'.mem 0).record = some d → ∃ f, w'.pid = some f ∧ f.content = .doc d ∧
      f.synced = true ∧ ((w'.mem 0).synced = true → w'.durable = some (.doc d)))
    (hdur : ∀ a b, w.kids = [a] → a.Quiet b → a.sent ≠ [] → w.Durable a → w'.Durable b) :
    AckInv spec generation rounds w' := by
  have hone : ∀ a, w.kids = [a] → ∃ b, w'.kids = [b] ∧ a.Quiet b := by
    intro a ha
    rw [hkids, ha]
    exact modify_one hf
  have hnil : w.kids = [] → w'.kids = [] := fun hk => by rw [hkids, hk, modify_nil]
  refine ⟨hnum, hflush, fun k hk => h.call k (hcall 0 ▸ hk), fun i hi k hk =>
    h.gates i hi k (hcall i ▸ hk), fun hc => ?_, fun n pid l hn => ?_, fun hb hn => ?_, hrec,
    fun b hb => ?_, ?_, fun i n fuel hi => ?_, fun i j hi hj hci hcj =>
    h.unique i j hi hj (hcall i ▸ hci) (hcall j ▸ hcj)⟩
  · obtain ⟨hk, hn⟩ := h.first (hcalls ▸ hc)
    exact ⟨hnil hk, fun i => (hcall i).trans (hn i)⟩
  · rw [(hmem 0).1] at hn
    obtain ⟨rfl, a, ha, hl, hp, hs⟩ := h.own n pid l hn
    obtain ⟨b, hb, hq⟩ := hone a ha
    exact ⟨rfl, b, hb, hq.launch.trans hl, hq.pid.trans hp, by rw [hq.sent, (hmem 0).2.1, hs]⟩
  · rw [(hmem 0).1] at hn
    exact hnil (h.before (hcall 0 ▸ hb) hn)
  · have hsmall : w'.kids.length ≤ 1 := by rw [hkids, List.length_modify]; exact h.small
    cases hw : w.kids with
    | nil => rw [hnil hw] at hb; cases hb
    | cons a l =>
      obtain rfl := h.only hw
      obtain ⟨b', hb', hq⟩ := hone a hw
      rw [hb', List.mem_singleton] at hb
      subst hb
      exact (h.kid a (by rw [hw]; exact List.mem_singleton.2 rfl)).quiet hq (hdur a _ hw hq)
  · rw [hkids, List.length_modify]; exact h.small
  · obtain ⟨a, ha, rfl, hst, hgot, hex⟩ := h.gate i n fuel (hcall i ▸ hi)
    obtain ⟨b, hb, hq⟩ := hone a ha
    exact ⟨b, hb, rfl, hq.started.trans hst, by rw [(hmem i).2.2.1, hq.toChild, hq.sent, hgot],
      by rw [(hmem i).2.2.2, hq.execs]; exact hex⟩

/-- The spawn launches its only child. -/
theorem AckInv.popen (h : AckInv spec generation rounds w) {unit : String} {ch : UnitEnv}
    {l : Launch} {v : UnitWorld} {r : Except Exc (ℕ × ℤ)}
    (hnum : (v.record 0 (.popen l) r).Numbered) (hflush : (v.record 0 (.popen l) r).Flushed)
    (hbusy : (w.mem 0).call ≠ none) (hok : (UnitOp.popen l).ok unit (w.mem 0))
    (he : w.effect 0 ch (.popen l) = some (r, v)) :
    AckInv spec generation rounds (v.record 0 (.popen l) r) := by
  obtain ⟨-, hkid, hrec, hsent, -, -, hof⟩ := hok
  have hnil := h.before hbusy hkid
  simp only [UnitWorld.effect, hnil, List.nil_append, List.length_nil, Option.some.injEq,
    Prod.mk.injEq] at he
  obtain ⟨rfl, rfl⟩ := he
  obtain ⟨k, hk⟩ := Option.ne_none_iff_exists'.1 hbusy
  obtain rfl := h.call k hk
  simp only [LaunchOf, hk] at hof
  refine ⟨hnum, hflush, ?_, fun i hi => ?_, fun hc => ?_, ?_, ?_, ?_, ?_, le_refl 1,
    fun i n fuel hi => ?_, fun i j hi hj => ?_⟩
  · rw [UnitWorld.record_mem_self]; exact h.call
  · rw [UnitWorld.record_mem_ne hi]; exact h.gates i hi
  · exact absurd ((h.first hc).2 0) hbusy
  · intro n pid l' hn
    rw [UnitWorld.record_mem_self] at hn
    cases hn
    refine ⟨rfl, _, rfl, rfl, rfl, ?_⟩
    rw [UnitWorld.record_mem_self]
    exact hsent.symm
  · intro _ hn
    rw [UnitWorld.record_mem_self] at hn
    cases hn
  · intro d hd
    rw [UnitWorld.record_mem_self] at hd
    exact absurd (hrec.symm.trans hd) (by simp)
  · intro a ha
    obtain rfl := List.mem_singleton.1 ha
    exact ⟨hof.1, hof.2, List.nil_prefix, fun hs => absurd rfl hs, fun _ => ⟨rfl, rfl⟩,
      Nat.zero_le 1, fun hx => absurd hx (Nat.lt_irrefl 0)⟩
  · by_cases hi0 : i = 0
    · subst hi0
      rw [UnitWorld.record_mem_self] at hi
      have hi' := h.call _ hi
      cases hi'
    · rw [UnitWorld.record_mem_ne hi0] at hi
      obtain ⟨a, ha, -⟩ := h.gate i n fuel hi
      rw [hnil] at ha
      cases ha
  · rw [UnitWorld.record_mem_ne hi, UnitWorld.record_mem_ne hj]
    exact h.unique i j hi hj

/-- The spawn sends a byte of the acknowledgement. -/
theorem AckInv.send (h : AckInv spec generation rounds w) {unit : String} {ch : UnitEnv} {k : ℕ}
    {b : UInt8} {v : UnitWorld} {r : Except Exc Unit} (hnum : (v.record 0 (.send k b) r).Numbered)
    (hflush : (v.record 0 (.send k b) r).Flushed)
    (hbusy : (w.mem 0).call ≠ none) (hok : (UnitOp.send k b).ok unit (w.mem 0))
    (he : w.effect 0 ch (.send k b) = some (r, v)) :
    AckInv spec generation rounds (v.record 0 (.send k b) r) := by
  obtain ⟨hpre, hsync, pid, l, d, hkid, hrec, hprov⟩ := hok
  obtain ⟨rfl, a, ha, rfl, rfl, hsent⟩ := h.own k pid l hkid
  simp only [UnitWorld.effect, ha, List.getElem?_cons_zero] at he
  have hmem : ∀ i, i ≠ 0 → (v.record 0 (.send 0 b) r).mem i = v.mem i :=
    fun i hi => UnitWorld.record_mem_ne hi
  split_ifs at he with hopen
  swap
  · cases he
    refine h.frame (k := 0) (f := fun a => a) hnum hflush rfl (fun i => ?_) (fun i => ?_)
      (UnitWorld.modify_same _).symm Kid.Quiet.refl ?_ fun a b _ hq _ => ?_
    · by_cases hi : i = 0
      · rw [hi, UnitWorld.record_mem_self]; rfl
      · rw [hmem i hi]
    · by_cases hi : i = 0
      · rw [hi, UnitWorld.record_mem_self]; exact ⟨rfl, rfl, rfl, rfl⟩
      · rw [hmem i hi]; exact ⟨rfl, rfl, rfl, rfl⟩
    · rw [UnitWorld.record_mem_self]; exact h.record
    · rintro ⟨f, d, hf, hd, hs, hdur, hp⟩
      exact ⟨f, d, hf, hd, hs, hdur, hq.launch ▸ hq.pid ▸ hp⟩
  cases he
  set a' : Kid := { a with toChild := a.toChild ++ [b], sent := a.sent ++ [b] } with ha'
  have hkids : ((w.setKid 0 fun kid =>
      { kid with toChild := kid.toChild ++ [b], sent := kid.sent ++ [b] }).record
      0 (.send 0 b) (.ok ())).kids = [a'] := by
    show w.kids.modify 0 _ = _
    rw [ha]
    rfl
  obtain ⟨f, hf, hfd, hfs, hdur⟩ := h.record d hrec
  have hinv := h.kid a (by rw [ha]; exact List.mem_singleton.2 rfl)
  refine ⟨hnum, hflush, ?_, fun i hi => ?_,
    fun hc => ?_, ?_, ?_, ?_, ?_, by
    rw [hkids]; exact le_refl 1, fun i n fuel hi => ?_, fun i j hi hj => ?_⟩
  · rw [UnitWorld.record_mem_self]; exact h.call
  · rw [hmem i hi]; exact h.gates i hi
  · exact absurd ((h.first hc).2 0) hbusy
  · intro n pid l' hn
    rw [UnitWorld.record_mem_self] at hn ⊢
    cases hkid.symm.trans hn
    exact ⟨rfl, a', hkids, rfl, rfl, by rw [ha', hsent]; rfl⟩
  · intro _ hn
    rw [UnitWorld.record_mem_self] at hn
    exact absurd (hkid.symm.trans hn) (by simp)
  · rw [UnitWorld.record_mem_self]; exact h.record
  · intro x hx
    rw [hkids] at hx
    obtain rfl := List.mem_singleton.1 hx
    refine ⟨hinv.unit, hinv.generation, ?_, fun _ =>
      ⟨f, d, hf, hfd, hfs, hdur hsync, hprov⟩, fun hst => ?_, hinv.once, fun hx => ?_⟩
    · rw [ha', hsent]; exact hpre
    · obtain ⟨ht, hx⟩ := hinv.fresh hst
      exact ⟨by rw [ha', ht], hx⟩
    · -- the complete acknowledgement has no byte left
      have hack := hinv.ran hx
      rw [← hsent, hack] at hpre
      have hlen := hpre.length_le
      rw [List.length_append, List.length_singleton] at hlen
      omega
  · by_cases hi0 : i = 0
    · subst hi0
      rw [UnitWorld.record_mem_self] at hi
      have hi' := h.call _ hi
      cases hi'
    · rw [hmem i hi0] at hi ⊢
      obtain ⟨a₀, ha₀, rfl, hst, hgot, hex⟩ := h.gate i n fuel hi
      rw [ha] at ha₀
      cases ha₀
      exact ⟨a', hkids, rfl, hst, by rw [ha', ← hgot, List.append_assoc]; rfl, hex⟩
  · rw [hmem i hi, hmem j hj]
    exact h.unique i j hi hj

/-- The wrapper `i` changes its record and the child's state. -/
theorem AckInv.wrapper (h : AckInv spec generation rounds w) {i n fuel : ℕ} {a b : Kid} {m : Mem}
    (hnum : w'.Numbered) (hflush : w'.Flushed) (hi : i ≠ 0)
    (hcall : (w.mem i).call = some (.gate n fuel)) (hcalls : w'.calls = w.calls)
    (hpid : w'.pid = w.pid) (hdur : w'.durable = w.durable) (hm : w'.mem i = m)
    (hmcall : m.call = (w.mem i).call) (hother : ∀ j ≠ i, w'.mem j = w.mem j) (ha : w.kids = [a])
    (hb : w'.kids = [b]) (hk : a.Keeps b) (hsent : b.sent = a.sent) (hst : b.started = true)
    (hgot : m.got ++ b.toChild = b.sent) (hex : m.executed = false → b.execs = 0)
    (honce : b.execs ≤ 1) (hran : 0 < b.execs → b.sent = ack) :
    AckInv spec generation rounds w' := by
  have h₀ : w'.mem 0 = w.mem 0 := hother 0 (Ne.symm hi)
  have hinv := h.kid a (by rw [ha]; exact List.mem_singleton.2 rfl)
  have hcs : ∀ j, (w'.mem j).call = (w.mem j).call := by
    intro j
    by_cases hj : j = i
    · rw [hj, hm, hmcall]
    · rw [hother j hj]
  refine ⟨hnum, hflush, by rw [h₀]; exact h.call,
    fun j hj k hc => h.gates j hj k (hcs j ▸ hc), fun hc => ?_, ?_, ?_, ?_, fun x hx => ?_,
    by rw [hb]; exact le_refl 1, fun j n' fuel' hj => ?_,
    fun j k hj hk hcj hck => h.unique j k hj hk (hcs j ▸ hcj) (hcs k ▸ hck)⟩
  · rw [(h.first (hcalls ▸ hc)).1] at ha
    cases ha
  · intro k pid l hkid
    rw [h₀] at hkid ⊢
    obtain ⟨rfl, a', ha', hl, hp, hs⟩ := h.own k pid l hkid
    obtain rfl : a = a' := by rw [ha] at ha'; cases ha'; rfl
    exact ⟨rfl, b, hb, hk.launch.trans hl, hk.pid.trans hp, hsent.trans hs⟩
  · intro hc hkid
    rw [h₀] at hc hkid
    rw [h.before hc hkid] at ha
    cases ha
  · rw [h₀, hpid, hdur]; exact h.record
  · rw [hb] at hx
    obtain rfl := List.mem_singleton.1 hx
    refine ⟨hk.launch ▸ hinv.unit, hk.launch ▸ hinv.generation, hsent ▸ hinv.pref, fun hs => ?_,
      fun hn => ?_, honce, hran⟩
    · obtain ⟨f, d, hf, hd, hsy, hdu, hp⟩ := hinv.acked (hsent ▸ hs)
      exact ⟨f, d, hpid ▸ hf, hd, hsy, hdur ▸ hdu, hk.launch ▸ hk.pid ▸ hp⟩
    · rw [hst] at hn; cases hn
  · have hji : j = i := by
      have hj' := hcs j ▸ hj
      by_cases hj0 : j = 0
      · subst hj0
        cases h.call _ hj'
      · exact h.unique j i hj0 hi (by rw [hj']; simp) (by rw [hcall]; simp)
    rw [hji, hm] at hj ⊢
    rw [hmcall, hcall] at hj
    cases hj
    obtain ⟨-, -, rfl, -⟩ := h.gate i n fuel hcall
    exact ⟨b, hb, rfl, hst, hgot, hex⟩

theorem AckInv.gateRead (h : AckInv spec generation rounds w) {i : ℕ} {unit : String} {ch : UnitEnv}
    {k n : ℕ} {v : UnitWorld} {r : Except Exc (List UInt8)}
    (hnum : (v.record i (.gateRead k n) r).Numbered)
    (hflush : (v.record i (.gateRead k n) r).Flushed) (hi : i ≠ 0)
    (hok : (UnitOp.gateRead k n).ok unit (w.mem i))
    (he : w.effect i ch (.gateRead k n) = some (r, v)) :
    AckInv spec generation rounds (v.record i (.gateRead k n) r) := by
  obtain ⟨fuel, hcall⟩ := hok
  obtain ⟨a, ha, rfl, hst, hgot, hex⟩ := h.gate i k fuel hcall
  have hinv := h.kid a (by rw [ha]; exact List.mem_singleton.2 rfl)
  simp only [UnitWorld.effect, ha, List.getElem?_cons_zero] at he
  set m := min n (min ch.count a.toChild.length)
  split_ifs at he with hm hopen
  · cases he
    refine h.wrapper (a := a) (b := a) (m := { w.mem i with got := (w.mem i).got ++ [] }) hnum
      hflush hi hcall
      rfl rfl rfl UnitWorld.record_mem_self rfl (fun j hj => UnitWorld.record_mem_ne hj) ha ha
      ⟨rfl, rfl, rfl⟩ rfl hst ?_ hex hinv.once hinv.ran
    rw [List.append_nil]
    exact hgot
  · cases he
    refine h.wrapper (a := a) (b := { a with toChild := a.toChild.drop m })
      (m := { w.mem i with got := (w.mem i).got ++ a.toChild.take m }) hnum hflush hi hcall
      rfl rfl rfl UnitWorld.record_mem_self rfl (fun j hj => UnitWorld.record_mem_ne hj) ha ?_
      ⟨rfl, rfl, rfl⟩ rfl hst ?_ hex hinv.once hinv.ran
    · show w.kids.modify 0 _ = _
      rw [ha]
      rfl
    · rw [List.append_assoc, List.take_append_drop]
      exact hgot

/-- The wrapper executes the command: it has received the complete acknowledgement. -/
theorem AckInv.execvpe (h : AckInv spec generation rounds w) {i : ℕ} {unit : String} {ch : UnitEnv}
    {k : ℕ} {v : UnitWorld} {r : Except Exc Unit} (hnum : (v.record i (.execvpe k) r).Numbered)
    (hflush : (v.record i (.execvpe k) r).Flushed) (hi : i ≠ 0)
    (hok : (UnitOp.execvpe k).ok unit (w.mem i)) (he : w.effect i ch (.execvpe k) = some (r, v)) :
    AckInv spec generation rounds (v.record i (.execvpe k) r) := by
  obtain ⟨fuel, hcall, hack, hnot⟩ := hok
  obtain ⟨a, ha, rfl, hst, hgot, hex⟩ := h.gate i k fuel hcall
  have hinv := h.kid a (by rw [ha]; exact List.mem_singleton.2 rfl)
  simp only [UnitWorld.effect, Option.some.injEq, Prod.mk.injEq] at he
  obtain ⟨rfl, rfl⟩ := he
  have hall : a.sent = ack := by
    rw [hack] at hgot
    exact hinv.pref.eq_of_length_le (hgot ▸ (List.prefix_append ack a.toChild).length_le)
  refine h.wrapper (a := a) (b := { a with execs := a.execs + 1 })
    (m := { w.mem i with executed := true }) hnum hflush hi hcall rfl rfl rfl
    UnitWorld.record_mem_self rfl (fun j hj => UnitWorld.record_mem_ne hj) ha ?_ ⟨rfl, rfl, rfl⟩ rfl
    hst hgot (fun hx => by cases hx) ?_ fun _ => hall
  · show w.kids.modify 0 _ = _
    rw [ha]
    rfl
  · show a.execs + 1 ≤ 1
    rw [hex hnot]

/-- The record of the call stays in `pid.json`, and that of an acknowledged child on the
    disk. -/
theorem AckInv.files (h : AckInv spec generation rounds w) {unit : String} {ch : UnitEnv}
    {o : UnitOp} {v : UnitWorld} {r : Except Exc o.Val} (hbusy : (w.mem 0).call ≠ none)
    (hok : o.ok unit (w.mem 0)) (he : w.effect 0 ch o = some (r, v)) :
    (∀ d, ((w.mem 0).note o r).record = some d → ∃ f, v.pid = some f ∧ f.content = .doc d ∧
      f.synced = true ∧ (((w.mem 0).note o r).synced = true → v.durable = some (.doc d))) ∧
    ∀ a b, w.kids = [a] → a.Quiet b → a.sent ≠ [] → w.Durable a → v.Durable b := by
  have hbefore : (w.mem 0).kid = none →
      ∀ a b, w.kids = [a] → a.Quiet b → a.sent ≠ [] → w.Durable a → v.Durable b := by
    intro hk a b ha
    rw [h.before hbusy hk] at ha
    cases ha
  have hkeep : ∀ f d, w.pid = some f → f.content = .doc d → f.synced = true →
      (∃ f', v.pid = some f' ∧ f'.content = .doc d ∧ f'.synced = true) →
      (w.durable = some (.doc d) → v.durable = some (.doc d)) →
      ∀ a b : Kid, a.Quiet b → w.durable = some (.doc d) →
          a.launch.Provenance a.pid d → v.Durable b := by
    rintro f d - - - ⟨f', hf', hd', hs'⟩ hdur a b hq hw hp
    exact ⟨f', d, hf', hd', hs', hdur hw, hq.launch ▸ hq.pid ▸ hp⟩
  cases ho : o.isFileOp with
  | false =>
    obtain ⟨hp, hd⟩ := UnitWorld.effect_files he ho
    obtain ⟨hr, hs⟩ := Mem.note_record ho r
    rw [hr, hs, hp, hd]
    refine ⟨h.record, ?_⟩
    rintro a b - hq - ⟨f, d, hf, hfd, hfs, hdur, hpr⟩
    exact hkeep f d hf hfd hfs ⟨f, hp ▸ hf, hfd, hfs⟩ (fun hw => hd ▸ hw) a b hq hdur hpr
  | true =>
    cases o with
    | createPid =>
      obtain ⟨-, -, hkid, hrec⟩ := hok
      refine ⟨fun d hd => ?_, hbefore hkid⟩
      have hd' : (w.mem 0).record = some d := by cases r <;> exact hd
      rw [hrec] at hd'
      cases hd'
    | writePid n d =>
      obtain ⟨-, -, hkid, hrec, -⟩ := hok
      refine ⟨fun d hd => ?_, hbefore hkid⟩
      have hd' : (w.mem 0).record = some d := by cases r <;> exact hd
      rw [hrec] at hd'
      cases hd'
    | syncPid n =>
      simp only [UnitWorld.effect, Option.some.injEq, Prod.mk.injEq] at he
      obtain ⟨rfl, rfl⟩ := he
      have hfile : ∀ f d, w.pid = some f → f.content = .doc d → f.synced = true →
          ∃ f', (w.fillPid n fun f => { f with synced := true }).pid = some f' ∧
            f'.content = .doc d ∧ f'.synced = true := by
        intro f d hf hd hs
        refine ⟨if f.ino = n then { f with synced := true } else f, ?_, ?_, ?_⟩
        · rw [UnitWorld.fillPid, hf]; rfl
        · split_ifs <;> exact hd
        · split_ifs <;> first | rfl | exact hs
      refine ⟨fun d hd => ?_, ?_⟩
      · obtain ⟨f, hf, hfd, hfs, hdur⟩ := h.record d hd
        obtain ⟨f', hf', hfd', hfs'⟩ := hfile f d hf hfd hfs
        exact ⟨f', hf', hfd', hfs', hdur⟩
      · rintro a b - hq - ⟨f, d, hf, hfd, hfs, hdur, hpr⟩
        exact hkeep f d hf hfd hfs (hfile f d hf hfd hfs) id a b hq hdur hpr
    | replacePid d =>
      simp only [UnitWorld.effect] at he
      split_ifs at he
      · cases he
        refine ⟨h.record, ?_⟩
        rintro a b - hq - ⟨f, d, hf, hfd, hfs, hdur, hpr⟩
        exact hkeep f d hf hfd hfs ⟨f, hf, hfd, hfs⟩ id a b hq hdur hpr
      · cases he
        refine ⟨fun d' hd => ?_, ?_⟩
        · cases hd
          exact ⟨_, rfl, rfl, h.flushed 0 hok.1, fun hs => by cases hs⟩
        · rcases hok.2 with ⟨-, -, hkid, -⟩ | ⟨k, pid, l, hkid, -, -, hsent, -⟩
          · exact hbefore hkid
          · intro a b ha _ hs
            obtain ⟨-, a', ha', -, -, hs'⟩ := h.own k pid l hkid
            rw [ha] at ha'
            cases ha'
            exact absurd (hs'.trans hsent) hs
    | unlinkPid =>
      obtain ⟨-, -, -, q, -, hq, -⟩ := hok
      cases h.call _ hq
    | syncDir =>
      simp only [UnitWorld.effect, Option.some.injEq, Prod.mk.injEq] at he
      obtain ⟨rfl, rfl⟩ := he
      refine ⟨fun d hd => ?_, ?_⟩
      · obtain ⟨f, hf, hfd, hfs, -⟩ := h.record d hd
        exact ⟨f, hf, hfd, hfs, fun _ => by rw [hf, Option.map_some, if_pos hfs, hfd]⟩
      · rintro a b - hq - ⟨f, d, hf, hfd, hfs, hdur, hpr⟩
        refine hkeep f d hf hfd hfs ⟨f, hf, hfd, hfs⟩ (fun _ => ?_) a b hq hdur hpr
        show w.pid.map _ = _
        rw [hf, Option.map_some, if_pos hfs, hfd]
    | _ => cases ho

theorem AckInv.op (h : AckInv spec generation rounds w) {unit : String} {i : ℕ} {ch : UnitEnv}
    {o : UnitOp} {r : Except Exc o.Val} (hok : o.Allowed unit (w.mem i))
    (hop : w.op i ch o = some (r, w')) : AckInv spec generation rounds w' := by
  have hnum := h.num.op hop
  have hflush := h.flushed.op hop
  rcases UnitWorld.op_cases hop with ⟨rfl, -⟩ | ⟨r', v, he, rfl, -⟩
  · exact h
  have hrec := UnitWorld.effect_recorded he
  obtain ⟨c, hc⟩ := Option.ne_none_iff_exists'.1 hok.busy
  cases hkid : o.isKidOp with
  | true =>
    by_cases hi : i = 0
    · subst hi
      cases h.call c hc
      cases o with
      | popen l => exact h.popen hnum hflush hok.busy hok.ok he
      | send k b => exact h.send hnum hflush hok.busy hok.ok he
      | gateRead k n =>
        obtain ⟨fuel, hf⟩ := hok.ok
        rw [hc] at hf
        cases hf
      | execvpe k =>
        obtain ⟨fuel, hf, -⟩ := hok.ok
        rw [hc] at hf
        cases hf
      | _ => cases hkid
    · obtain ⟨n, fuel, rfl⟩ := h.gates i hi c hc
      have hgate := hok.gate n fuel hc
      cases o with
      | gateRead k n => exact h.gateRead hnum hflush hi hok.ok he
      | execvpe k => exact h.execvpe hnum hflush hi hok.ok he
      | _ => first | (cases hkid; done) | cases hgate
  | false =>
    obtain ⟨k, f, hkids, hf⟩ := UnitWorld.effect_quiet he hkid
    have hfiles : (∀ d, ((v.record i o r').mem 0).record = some d → ∃ f, v.pid = some f ∧
        f.content = .doc d ∧ f.synced = true ∧
        (((v.record i o r').mem 0).synced = true → v.durable = some (.doc d))) ∧
        ∀ a b, w.kids = [a] → a.Quiet b → a.sent ≠ [] → w.Durable a → v.Durable b := by
      by_cases hi : i = 0
      · subst hi
        rw [hrec.self]
        exact h.files hok.busy hok.ok he
      · obtain ⟨n, fuel, rfl⟩ := h.gates i hi c hc
        have hgate := hok.gate n fuel hc
        have hfile : o.isFileOp = false := by cases o <;> first | rfl | cases hgate
        obtain ⟨hp, hd⟩ := UnitWorld.effect_files he hfile
        rw [hrec.other 0 (Ne.symm hi), hp, hd]
        refine ⟨h.record, ?_⟩
        rintro a b - hq - ⟨f, d, hf, hfd, hfs, hdur, hpr⟩
        exact ⟨f, d, hp ▸ hf, hfd, hfs, hd ▸ hdur, hq.launch ▸ hq.pid ▸ hpr⟩
    refine h.frame hnum hflush hrec.calls hrec.call (fun j => ?_) hkids hf hfiles.1 hfiles.2
    by_cases hj : j = i
    · rw [hj, hrec.self]
      exact Mem.note_sent hkid r'
    · rw [hrec.other j hj]
      exact ⟨rfl, rfl, rfl, rfl⟩

/-- The spawn starts, with no child. -/
theorem AckInv.startSpawn (h : AckInv spec generation rounds w) {unit : String}
    (hcalls : w.calls = 1) (hs : w.start unit 0 (.spawn spec generation rounds) = some w') :
    AckInv spec generation rounds w' := by
  obtain ⟨hm, hj⟩ := UnitWorld.start_view hs
  obtain ⟨n, f, hkids, -⟩ := UnitWorld.start_kids hs
  obtain ⟨hcalls', -⟩ := UnitWorld.start_id hs
  obtain ⟨hnil, hidle⟩ := h.first hcalls
  have hnil' : w'.kids = [] := by rw [hkids, hnil, modify_nil]
  refine ⟨h.num.start hs, h.flushed.start hs, fun k hk => ?_,
    fun i hi => by rw [hj i hi]; exact h.gates i hi,
    fun hc => by omega, fun k pid l hk => ?_, fun _ _ => hnil', fun d hd => ?_, fun a ha => ?_,
    by rw [hnil']; exact Nat.zero_le 1, fun i n fuel hi => ?_, fun i j hi _ hci => ?_⟩
  · rw [hm] at hk; cases hk; rfl
  · rw [hm] at hk; cases hk
  · rw [hm] at hd; cases hd
  · rw [hnil'] at ha; cases ha
  · by_cases hi0 : i = 0
    · rw [hi0, hm] at hi; cases hi
    · rw [hj i hi0, hidle i] at hi; cases hi
  · rw [hj i hi] at hci
    exact absurd (hidle i) hci

/-- A wrapper that can start is that of the only child, and no other has started. -/
theorem AckInv.startable (h : AckInv spec generation rounds w) {unit : String} {n fuel : ℕ}
    (hcan : w.canStart unit (.gate n fuel) = true) :
    n = 0 ∧ ∃ a, w.kids = [a] ∧ a.started = false ∧ ∀ j ≠ 0, (w.mem j).call = none := by
  cases hkids : w.kids with
  | nil => simp [UnitWorld.canStart, hkids] at hcan
  | cons a l =>
    obtain rfl := h.only hkids
    obtain rfl : n = 0 := by
      cases n with
      | zero => rfl
      | succ n => simp [UnitWorld.canStart, hkids] at hcan
    have hst : a.started = false := by simpa [UnitWorld.canStart, hkids] using hcan
    refine ⟨rfl, a, rfl, hst, fun j hj => ?_⟩
    by_contra hc
    obtain ⟨k, hk⟩ := Option.ne_none_iff_exists'.1 hc
    obtain ⟨n, fuel, rfl⟩ := h.gates j hj k hk
    obtain ⟨b, hb, -, hbs, -⟩ := h.gate j n fuel hk
    rw [hkids] at hb
    cases hb
    rw [hst] at hbs
    cases hbs

/-- The wrapper of the child starts. -/
theorem AckInv.startGate (h : AckInv spec generation rounds w) {unit : String} {i n fuel : ℕ}
    (hi : i ≠ 0) (hs : w.start unit i (.gate n fuel) = some w') :
    AckInv spec generation rounds w' := by
  have hnum := h.num.start hs
  have hflush := h.flushed.start hs
  obtain ⟨hm, hj⟩ := UnitWorld.start_view hs
  obtain ⟨-, -, hpid, hdur⟩ := UnitWorld.start_frame hs
  obtain ⟨hcalls, -⟩ := UnitWorld.start_id hs
  have h₀ : w'.mem 0 = w.mem 0 := hj 0 (Ne.symm hi)
  have hpos := h.num.idLt 0
  simp only [UnitWorld.start] at hs
  split_ifs at hs with hcan
  cases hs
  obtain ⟨rfl, a, hkids, hst, hnone⟩ := h.startable hcan
  have hinv := h.kid a (by rw [hkids]; exact List.mem_singleton.2 rfl)
  have hkids' : w.kids.modify 0 (fun kid => { kid with started := true }) =
      [{ a with started := true }] := by
    rw [hkids]
    rfl
  refine ⟨hnum, hflush, by rw [h₀]; exact h.call, fun j hj0 k hk => ?_, fun hc => ?_,
    fun k pid l hk => ?_, fun hc hk => ?_, by rw [h₀]; exact h.record, fun b hb => ?_, ?_,
    fun j n fuel' hc => ?_, fun j k hj0 hk0 hcj hck => ?_⟩
  · by_cases hji : j = i
    · rw [hji, hm] at hk; cases hk; exact ⟨_, _, rfl⟩
    · rw [hj j hji, hnone j hj0] at hk; cases hk
  · simp only at hc
    omega
  · rw [h₀] at hk ⊢
    obtain ⟨rfl, b, hb, hl, hp, hsent⟩ := h.own k pid l hk
    rw [hkids] at hb
    cases hb
    exact ⟨rfl, _, hkids', hl, hp, hsent⟩
  · rw [h₀] at hc hk
    rw [h.before hc hk] at hkids
    cases hkids
  · change b ∈ w.kids.modify 0 _ at hb
    rw [hkids'] at hb
    obtain rfl := List.mem_singleton.1 hb
    exact ⟨hinv.unit, hinv.generation, hinv.pref, hinv.acked, fun hn => (by cases hn), hinv.once,
      hinv.ran⟩
  · show (w.kids.modify 0 _).length ≤ 1
    rw [hkids']
    exact le_refl 1
  · by_cases hji : j = i
    · subst hji
      rw [hm] at hc ⊢
      cases hc
      obtain ⟨ht, hx⟩ := hinv.fresh hst
      exact ⟨_, hkids', rfl, rfl, ht, fun _ => hx⟩
    · rw [hj j hji] at hc
      by_cases hj0 : j = 0
      · subst hj0; cases h.call _ hc
      · rw [hnone j hj0] at hc; cases hc
  · have hi' : ∀ l ≠ 0, ((({ w.setKid 0 fun kid => { kid with started := true } with
        calls := w.calls + 1, id := Function.update w.id i w.calls,
        mem := Function.update w.mem i { call := some (.gate 0 fuel) } } :
        UnitWorld).mem l).call ≠ none) →
        l = i := by
      intro l hl hcl
      by_contra hli
      rw [hj l hli, hnone l hl] at hcl
      exact hcl rfl
    rw [hi' j hj0 hcj, hi' k hk0 hck]

theorem AckInv.close (h : AckInv spec generation rounds w) (i : ℕ) :
    AckInv spec generation rounds (w.close i) := by
  obtain ⟨-, -, hpid, hdur⟩ := UnitWorld.close_frame (w := w) i
  obtain ⟨hcalls, -⟩ := UnitWorld.close_id w i
  obtain ⟨n, f, hkids, hf⟩ := UnitWorld.close_quiet w i
  have hback : ∀ j, ((w.close i).mem j).call ≠ none → (w.close i).mem j = w.mem j := by
    intro j hj
    by_cases hji : j = i
    · rw [hji, UnitWorld.close_mem_self] at hj
      exact absurd rfl hj
    · exact UnitWorld.close_view j hji
  have hmem : ∀ j k, ((w.close i).mem j).call = some k → (w.close i).mem j = w.mem j :=
    fun j k hk => hback j (by rw [hk]; simp)
  have hone : ∀ a, w.kids = [a] → ∃ b, (w.close i).kids = [b] ∧ a.Quiet b := by
    intro a ha
    rw [hkids, ha]
    exact modify_one hf
  refine ⟨h.num.close i, h.flushed.close i, fun k hk => h.call k (hmem 0 k hk ▸ hk),
    fun j hj k hk => h.gates j hj k (hmem j k hk ▸ hk), fun hc => ?_, fun k pid l hk => ?_,
    fun hc hk => ?_, fun d hd => ?_,
    fun b hb => ?_, by rw [hkids, List.length_modify]; exact h.small, fun j n fuel hj => ?_,
    fun j k hj hk hcj hck => h.unique j k hj hk (hback j hcj ▸ hcj) (hback k hck ▸ hck)⟩
  · obtain ⟨hnil, hidle⟩ := h.first (hcalls ▸ hc)
    refine ⟨by rw [hkids, hnil, modify_nil], fun j => ?_⟩
    by_contra hj
    exact hj (hback j hj ▸ hidle j)
  · by_cases hi : i = 0
    · rw [hi, UnitWorld.close_mem_self] at hk; cases hk
    · rw [UnitWorld.close_view 0 (Ne.symm hi)] at hk ⊢
      obtain ⟨rfl, a, ha, hl, hp, hs⟩ := h.own k pid l hk
      obtain ⟨b, hb, hq⟩ := hone a ha
      exact ⟨rfl, b, hb, hq.launch.trans hl, hq.pid.trans hp, hq.sent.trans hs⟩
  · have h₀ := hback 0 hc
    rw [h₀] at hc hk
    rw [hkids, h.before hc hk, modify_nil]
  · by_cases hi : i = 0
    · rw [hi, UnitWorld.close_mem_self] at hd; cases hd
    · rw [UnitWorld.close_view 0 (Ne.symm hi)] at hd ⊢
      rw [hpid, hdur]
      exact h.record d hd
  · cases hw : w.kids with
    | nil => rw [hkids, hw, modify_nil] at hb; cases hb
    | cons a l =>
      obtain rfl := h.only hw
      obtain ⟨b', hb', hq⟩ := hone a hw
      rw [hb', List.mem_singleton] at hb
      subst hb
      refine (h.kid a (by rw [hw]; exact List.mem_singleton.2 rfl)).quiet hq fun _ => ?_
      rintro ⟨f, d, hf, hd, hs, hdu, hp⟩
      exact ⟨f, d, hpid ▸ hf, hd, hs, hdur ▸ hdu, hq.launch ▸ hq.pid ▸ hp⟩
  · have hj' := hmem j _ hj
    rw [hj'] at hj ⊢
    obtain ⟨a, ha, rfl, hst, hgot, hex⟩ := h.gate j n fuel hj
    obtain ⟨b, hb, hq⟩ := hone a ha
    exact ⟨b, hb, rfl, hq.started.trans
      hst, by rw [hq.toChild, hq.sent, hgot], by rw [hq.execs]; exact hex⟩

end

theorem ack_rely (unit : String) (spec : ProcessSpec) (generation : Option ℤ) (rounds : ℕ) :
    Rely (fleet unit) (OneSpawn spec generation rounds) (AckInv spec generation rounds)
      (fun i w => w.mem i) UnitOp.upd (UnitOp.Allowed unit) UnitCall.fin := by
  refine fleet_rely (fun c i k w hp h _ hs => ?_)
    (fun _ _ _ _ _ _ _ _ _ h _ hok hop => h.op hok hop) (fun _ i _ _ _ h _ _ => h.close i)
    fun _ i _ h => h.close i
  rcases hp with ⟨n, fuel, rfl, hi⟩ | ⟨rfl, rfl, hc⟩
  · exact h.startGate hi hs
  · exact h.startSpawn hc hs

theorem ackInv_init {spec : ProcessSpec} {generation : Option ℤ} {rounds : ℕ} {environ : Env}
    {proc : ℕ → ℕ} {pid : Option PidFile} {state : Option Content} {tokens : List String} :
    AckInv spec generation rounds (.init environ proc pid state tokens) := by
  constructor <;> first
    | exact UnitWorld.numbered_init
    | exact UnitWorld.flushed_init
    | simp [UnitWorld.init]

/-- `pid.json` is on the disk with the pid of the child and the unit, generation and token
    of its launch. -/
def UnitWorld.DurableRecord (w : UnitWorld) (spec : ProcessSpec) (generation : Option ℤ) (a : Kid) :
    Prop :=
  ∃ f d, w.pid = some f ∧ f.content = .doc d ∧ w.durable = some (.doc d) ∧
    d.get "pid" = .int a.pid ∧ d.get "token" = .str a.launch.token ∧ d.get "unit" = .str spec.unit ∧
    d.get "generation" = generationJson generation ∧ d.get "status" = .str "running_or_unknown"

theorem KidInv.durableRecord {spec : ProcessSpec} {generation : Option ℤ} {w : UnitWorld} {a : Kid}
    (h : KidInv spec generation w a) (hack : a.sent = ack) : w.DurableRecord spec generation a := by
  have hne : a.sent ≠ [] := by rw [hack]; decide
  obtain ⟨f, d, hf, hd, -, hdur, hp⟩ := h.acked hne
  exact ⟨f, d, hf, hd, hdur, hp.pid, hp.token, h.unit ▸ hp.unit,
    h.generation ▸ hp.generation, hp.status⟩

/-- **The ACK gate**: when the wrapper is about to execute the command, it has received
    the complete acknowledgement, it executes it the first time, and the provenance of
    the launch is durable; and so it is ever after. -/
theorem ack_gate {unit : String} {spec : ProcessSpec} {generation : Option ℤ} {rounds : ℕ}
    {environ : Env} {proc : ℕ → ℕ} {pid : Option PidFile} {state : Option Content}
    {tokens : List String} {c : UnitCfg}
    (h : (fleet unit).Reach (OneSpawn spec generation rounds)
      (idle (.init environ proc pid state tokens)) c) :
    (∀ i k, c.next i = some (.execvpe k) → ∃ a, c.sh.kids[k]? = some a ∧ a.execs = 0 ∧
      a.sent = ack ∧ (c.sh.mem i).got = ack ∧ c.sh.DurableRecord spec generation a) ∧
    ∀ a ∈ c.sh.kids, a.execs ≤ 1 ∧
      (0 < a.execs → a.sent = ack ∧ c.sh.DurableRecord spec generation a) := by
  have hI := ((ack_rely unit spec generation rounds).inv ackInv_init h).1
  refine ⟨fun i k hx => ?_, fun a ha => ⟨(hI.kid a ha).once, fun hx => ?_⟩⟩
  · unfold Cfg.next at hx
    split at hx
    swap
    · cases hx
    rename_i call o f hr
    cases hx
    obtain ⟨fuel, hcall, hack, hnot⟩ :=
      ((ack_rely unit spec generation rounds).ok_next ackInv_init h hr).ok
    obtain ⟨a, ha, rfl, -, hgot, hex⟩ := hI.gate i k fuel hcall
    have hinv := hI.kid a (by rw [ha]; exact List.mem_singleton.2 rfl)
    have hall : a.sent = ack := by
      rw [hack] at hgot
      exact hinv.pref.eq_of_length_le (hgot ▸ (List.prefix_append ack a.toChild).length_le)
    exact ⟨a, by rw [ha]; rfl, hex hnot, hall, hack, hinv.durableRecord hall⟩
  · have hall := (hI.kid a ha).ran hx
    exact ⟨hall, (hI.kid a ha).durableRecord hall⟩

/-- No call but wrappers starts. -/
def gatesOnly : UnitAct → Bool
  | .start i (.gate ..) => i ≠ 0
  | .start .. => false
  | _ => true

theorem gatesOnly_spec {spec : ProcessSpec} {c : UnitCfg} {a : UnitAct} (h : gatesOnly a = true) :
    OneSpawn spec (some 1) 0 c a := by
  cases a with
  | start i k =>
    cases k <;> first
      | (exact .inl ⟨_, _, rfl, of_decide_eq_true h⟩)
      | cases h
  | _ => trivial

/-- A spawn that goes on with the steps. -/
theorem exists_spawn_run (spec : ProcessSpec) (as : List UnitAct) (q : UnitCfg → Bool)
    (h : (((fleet "u").step emptyUnit (.start 0 (.spawn spec (some 1) 0))).bind fun c =>
      (fleet "u").run (fun _ a => gatesOnly a) c as).any q = true) :
    ∃ c, (fleet "u").Reach (OneSpawn spec (some 1) 0) emptyUnit c ∧ q c = true := by
  have hone : OneSpawn spec (some 1) 0 emptyUnit (.start 0 (.spawn spec (some 1) 0)) :=
    Or.inr ⟨rfl, rfl, rfl⟩
  cases hs : (fleet "u").step emptyUnit (.start 0 (.spawn spec (some 1) 0)) with
  | none => rw [hs] at h; cases h
  | some c₁ =>
    rw [hs] at h
    obtain ⟨c, hc, hq, -⟩ := Reach.exists_of_run (P := OneSpawn spec (some 1) 0) (fleet "u") c₁
      (fun _ a => gatesOnly a) as q (fun _ _ => gatesOnly_spec) h
    exact ⟨c, (Reach.step .refl hone hs).trans hc, hq⟩

/-- The only child has run. -/
def hasRun (c : UnitCfg) : Bool :=
  match c.sh.kids with
  | [a] => decide (0 < a.execs)
  | _ => false

/-- The wrapper reads the acknowledgement in two pieces. -/
def spawnSteps : List UnitAct :=
  ops 0 17 (answers "t") ++ [.start 2 (.gate 0 5), .op 2 (answers "")] ++ ops 0 15 (answers "") ++
    [.op 2 { count := 3 }, .op 2 { count := 1 }] ++ ops 2 2 {}

/-- A spawn runs its consumer. -/
theorem ack_gate_run : ∃ c a, (fleet "u").Reach (OneSpawn consumer (some 1) 0) emptyUnit c ∧
    a ∈ c.sh.kids ∧ a.execs = 1 ∧ a.sent = ack ∧ c.sh.DurableRecord consumer (some 1) a := by
  obtain ⟨c, hc, hq⟩ := exists_spawn_run consumer spawnSteps hasRun (by decide +kernel)
  unfold hasRun at hq
  split at hq
  · rename_i a ha
    have hmem : a ∈ c.sh.kids := by rw [ha]; exact List.mem_singleton.2 rfl
    obtain ⟨hle, hran⟩ := (ack_gate hc).2 a hmem
    have hpos := of_decide_eq_true hq
    exact ⟨c, a, hc, hmem, Nat.le_antisymm hle hpos, (hran hpos).1, (hran hpos).2⟩
  · cases hq

end DatasourceKit

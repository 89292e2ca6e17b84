/-
  Which launch `pid.json` names, under any interleaving of the calls on a unit.

  * `provenance_kept`: from the write of a launch intent to the unlink of a clearance of
    that launch `pid.json` names the launch, if `stop` and `persist` replace it only while
    no clearance has unlinked it since they have read or written it;
  * `provenance_lost`: otherwise the record of an earlier launch can take its place.
-/
import DatasourceKit.Fleet.Fence

namespace DatasourceKit

open Interleave Interleave.Prog Interleave.Machine

/-- The entry has written a launch intent with the token. -/
def Entry.Intends (e : Entry) (token : String) : Prop :=
  e.ok = true ∧ ∃ n d, e.op = .writePid n d ∧ d.get "token" = .str token

/-- The entry has unlinked `pid.json` in a clearance of the token. -/
def Entry.Clears (e : Entry) (token : String) : Prop :=
  e.unlinks = true ∧ ∃ q, e.call = some (.clear q) ∧ q.token = token

/-- A launch with the token has written its intent, and no clearance of the token has
    unlinked `pid.json` since. -/
def OpenLaunch : List Entry → String → Prop
  | [], _ => False
  | e :: t, token => e.Intends token ∨ OpenLaunch t token ∧ ¬ e.Clears token

/-- No unlink since the last operation `own` of thread `i`. -/
def Undisturbed (t : List Entry) (i : ℕ) (own : UnitOp → Bool) : Prop :=
  ∀ e ∈ t.takeWhile fun e => !(e.thread == i && own e.op), e.unlinks = false

def UnitOp.isRead : UnitOp → Bool
  | .readPid => true
  | _ => false

def UnitOp.isWrite : UnitOp → Bool
  | .writePid .. => true
  | _ => false

/-- A step that, if it replaces `pid.json`, does so while no clearance has unlinked it
    since the call has read it (`stop`) or written its intent (`persist`). -/
def KeepsProvenance (c : UnitCfg) : UnitAct → Prop
  | .op i _ => ∀ d, c.next i = some (.replacePid d) →
      Undisturbed c.sh.trace i
        (if (c.sh.mem i).kid.isNone then UnitOp.isRead else UnitOp.isWrite)
  | _ => True

/-- `pid.json` holds a record with the token. -/
def UnitWorld.HasToken (w : UnitWorld) (token : Json) : Prop :=
  ∃ f d, w.pid = some f ∧ f.content = .doc d ∧ d.get "token" = token

/-- The call has created the file of the inode and not yet written its intent. -/
structure Mem.Creating (m : Mem) (n : ℕ) : Prop where
  fence : m.fence = some n
  intent : m.intent = none

structure ProvenanceInv (w : UnitWorld) : Prop where
  owned : w.LockOwned
  launch : ∀ token, OpenLaunch w.trace token → w.HasToken (.str token)
  read : ∀ i d, (w.mem i).pidRead = some (.doc d) → Undisturbed w.trace i UnitOp.isRead →
    w.HasToken (d.get "token")
  wrote : ∀ i d, (w.mem i).intent = some d → Undisturbed w.trace i UnitOp.isWrite →
    w.HasToken (d.get "token")
  creating : ∀ i n, (w.mem i).Creating n →
    ∃ f, w.pid = some f ∧ f.ino = n ∧ f.content = .malformed
  unique : ∀ i j n m, (w.mem i).Creating n → (w.mem j).Creating m → i = j
  locked : ∀ i d, (w.mem i).locked = true → (w.mem i).unlinked = false →
    (w.mem i).pidRead = some (.doc d) → Undisturbed w.trace i UnitOp.isRead

theorem undisturbed_cons {e : Entry} {t : List Entry} {i : ℕ} {own : UnitOp → Bool}
    (he : (e.thread == i && own e.op) = false) :
    Undisturbed (e :: t) i own ↔ e.unlinks = false ∧ Undisturbed t i own := by
  unfold Undisturbed
  rw [List.takeWhile_cons_of_pos (by rw [he]; rfl), List.forall_mem_cons]

theorem undisturbed_own {e : Entry} {t : List Entry} {i : ℕ} {own : UnitOp → Bool}
    (he : (e.thread == i && own e.op) = true) : Undisturbed (e :: t) i own := by
  unfold Undisturbed
  rw [List.takeWhile_cons_of_neg (by rw [he]; decide)]
  simp

theorem eqStr_iff {v : Json} {s : String} : v.eqStr s = true ↔ v = .str s := by
  cases v <;> simp [Json.eqStr]

theorem get_stoppedRecord (d : Dict) : (stoppedRecord d).get "token" = d.get "token" :=
  Dict.get_update_of_notMem _ (by simp)

theorem UnitWorld.HasToken.unique {w : UnitWorld} {u v : Json}
    (hu : w.HasToken u) (hv : w.HasToken v) :
    u = v := by
  obtain ⟨f, d, hf, hd, rfl⟩ := hu
  obtain ⟨f', d', hf', hd', rfl⟩ := hv
  rw [hf] at hf'
  cases hf'
  rw [hd] at hd'
  cases hd'
  rfl

/-- A file that is being created has no token. -/
theorem ProvenanceInv.not_hasToken {w : UnitWorld} (h : ProvenanceInv w) {i n : ℕ}
    (hi : (w.mem i).Creating n) {v : Json} : ¬ w.HasToken v := by
  rintro ⟨f, d, hf, hd, -⟩
  obtain ⟨f', hf', -, hm⟩ := h.creating i n hi
  rw [hf] at hf'
  cases hf'
  rw [hd] at hm
  cases hm

/-- What an operation does to `pid.json`. -/
theorem UnitWorld.effect_pid {w v : UnitWorld} {i : ℕ} {ch : UnitEnv} {o : UnitOp}
    {r : Except Exc o.Val} (h : w.effect i ch o = some (r, v)) :
    v.pid = w.pid ∨ (o = .createPid ∧ w.pid = none) ∨ (∃ n d, o = .writePid n d) ∨
    (∃ n, o = .syncPid n) ∨ (∃ d, o = .replacePid d ∧ v.HasToken (d.get "token")) ∨
    (o = .unlinkPid ∧ r.isOk = true) := by
  cases o <;> simp only [effect] at h <;> (try split at h) <;> (try split at h) <;>
    (try split at h) <;> cases h <;>
    simp_all [unlock, setKid, HasToken, Except.isOk, Except.toBool]

theorem UnitOp.note_creating {m : Mem} {o : UnitOp} {r : Except Exc o.Val} {n : ℕ}
    (h : (m.note o r).Creating n) (ho : o ≠ .createPid) : m.Creating n := by
  refine ⟨Mem.note_fence ho r ▸ h.fence, ?_⟩
  by_cases hw : ∃ n d, o = .writePid n d
  · obtain ⟨n', d, rfl⟩ := hw
    cases r with
    | ok v => have := h.intent; cases this
    | error x => exact h.intent
  · rw [← h.intent, Mem.note_intent fun n d hd => hw ⟨n, d, hd⟩]

/-- The operation, if it replaces `pid.json`, does so while no clearance has unlinked it. -/
def MayReplace (w : UnitWorld) (i : ℕ) (o : UnitOp) : Prop :=
  ∀ d, o = .replacePid d →
    Undisturbed w.trace i (if (w.mem i).kid.isNone then UnitOp.isRead else UnitOp.isWrite)

section
variable {unit : String} {i : ℕ} {w v : UnitWorld} {ch : UnitEnv} {o : UnitOp}
  {r : Except Exc o.Val}

/-- An operation that is no unlink keeps the token of the record. -/
theorem ProvenanceInv.keep (h : ProvenanceInv w) (hok : o.ok unit (w.mem i))
    (hkeep : MayReplace w i o) (he : w.effect i ch o = some (r, v))
    (hun : o = .unlinkPid → r.isOk = false) {t : Json} (ht : w.HasToken t) : v.HasToken t := by
  obtain ⟨f, d, hf, hd, htok⟩ := ht
  rcases UnitWorld.effect_pid he with hp | ⟨-, hp⟩ | ⟨n, d', rfl⟩ | ⟨n, rfl⟩ |
    ⟨d', rfl, hv⟩ | ⟨hu, hr⟩
  · exact ⟨f, d, hp ▸ hf, hd, htok⟩
  · rw [hp] at hf
    cases hf
  · obtain ⟨hfence, hintent, -⟩ := hok
    exact absurd ⟨f, d, hf, hd, htok⟩ (h.not_hasToken ⟨hfence, hintent⟩)
  · simp only [UnitWorld.effect, Option.some.injEq, Prod.mk.injEq] at he
    obtain ⟨-, rfl⟩ := he
    refine ⟨if f.ino = n then { f with synced := true } else f, d, ?_, ?_, htok⟩
    · rw [UnitWorld.fillPid, hf]
      rfl
    · split_ifs <;> exact hd
  · have hcond := hkeep d' rfl
    have hsame : d'.get "token" = t := by
      rcases hok.2 with ⟨d₀, hread, hkid, rfl, -⟩ |
        ⟨k, pid, l, hkid, -, ⟨d₀, hint, hnamed⟩, -, -, hprov⟩
      · rw [hkid] at hcond
        rw [get_stoppedRecord]
        exact (h.read i d₀ hread hcond).unique ⟨f, d, hf, hd, htok⟩
      · rw [hkid] at hcond
        rw [hprov.token, ← hnamed.token]
        exact (h.wrote i d₀ hint hcond).unique ⟨f, d, hf, hd, htok⟩
    exact hsame ▸ hv
  · rw [hun hu] at hr
    cases hr

/-- A file in creation stays as it is until its call writes it. -/
theorem ProvenanceInv.keep_creating (h : ProvenanceInv w) (hok : o.ok unit (w.mem i))
    (hkeep : MayReplace w i o) (he : w.effect i ch o = some (r, v)) {j n : ℕ}
    (hj : (w.mem j).Creating n) (hw : j = i → ∀ n d, o ≠ .writePid n d) :
    ∃ f, v.pid = some f ∧ f.ino = n ∧ f.content = .malformed := by
  obtain ⟨f, hf, hino, hc⟩ := h.creating j n hj
  rcases UnitWorld.effect_pid he with hp | ⟨-, hp⟩ | ⟨m, d, rfl⟩ | ⟨m, rfl⟩ | ⟨d, rfl, -⟩ | ⟨rfl, -⟩
  · exact ⟨f, hp ▸ hf, hino, hc⟩
  · rw [hp] at hf
    cases hf
  · obtain ⟨hfence, hintent, -⟩ := hok
    exact absurd rfl (hw (h.unique j i n m hj ⟨hfence, hintent⟩) m d)
  · simp only [UnitWorld.effect, Option.some.injEq, Prod.mk.injEq] at he
    obtain ⟨-, rfl⟩ := he
    refine ⟨if f.ino = m then { f with synced := true } else f, ?_, ?_, ?_⟩
    · rw [UnitWorld.fillPid, hf]
      rfl
    · split_ifs <;> exact hino
    · split_ifs <;> exact hc
  · have hcond := hkeep d rfl
    rcases hok.2 with ⟨d₀, hread, hkid, -⟩ | ⟨k, pid, l, hkid, -, ⟨d₀, hint, -⟩, -⟩
    · rw [hkid] at hcond
      exact absurd (h.read i d₀ hread hcond) (h.not_hasToken hj)
    · rw [hkid] at hcond
      exact absurd (h.wrote i d₀ hint hcond) (h.not_hasToken hj)
  · obtain ⟨hlock, -, hnot, q, d, -, hread, -⟩ := hok
    exact absurd (h.read i d hread (h.locked i d hlock hnot hread)) (h.not_hasToken hj)

/-- The write of an intent fills the file that its call has created. -/
theorem ProvenanceInv.written {n : ℕ} {d : Dict} {r : Except Exc Unit} (h : ProvenanceInv w)
    (hok : (UnitOp.writePid n d).ok unit (w.mem i))
    (he : w.effect i ch (.writePid n d) = some (r, v)) :
    v.HasToken (d.get "token") ∧ r = .ok () := by
  obtain ⟨hfence, hintent, -⟩ := hok
  obtain ⟨f, hf, hino, -⟩ := h.creating i n ⟨hfence, hintent⟩
  simp only [UnitWorld.effect, Option.some.injEq, Prod.mk.injEq] at he
  obtain ⟨rfl, rfl⟩ := he
  refine ⟨⟨{ f with content := .doc d, synced := false }, d, ?_, rfl, rfl⟩, rfl⟩
  rw [UnitWorld.fillPid, hf, Option.map_some, if_pos hino]

/-- The unlink of a clearance is of the record that the call has read. -/
theorem ProvenanceInv.cleared (h : ProvenanceInv w) (hok : UnitOp.unlinkPid.ok unit (w.mem i)) :
    ∃ q, (w.mem i).call = some (.clear q) ∧ w.HasToken (.str q.token) := by
  obtain ⟨hlock, -, hnot, q, d, hq, hread, hmatch⟩ := hok
  have htok := h.read i d hread (h.locked i d hlock hnot hread)
  simp only [Clearance.Matches, Bool.and_eq_true] at hmatch
  exact ⟨q, hq, eqStr_iff.1 hmatch.2 ▸ htok⟩

/-- An operation that has not unlinked keeps the token. -/
theorem ProvenanceInv.keep_of_entry (h : ProvenanceInv w) (hok : o.ok unit (w.mem i))
    (hkeep : MayReplace w i o) (he : w.effect i ch o = some (r, v)) {t : ℕ} {k : Option UnitCall}
    (hu : (⟨i, t, k, o, r.isOk⟩ : Entry).unlinks = false) {token : Json} (htok : w.HasToken token) :
    (v.record i o r).HasToken token := by
  refine h.keep hok hkeep he (fun ho => ?_) htok
  subst ho
  simpa [Entry.unlinks] using hu

/-- What a call has read or written is still there, if the operation is none of its own. -/
theorem ProvenanceInv.keep_own (h : ProvenanceInv w) (hok : o.ok unit (w.mem i))
    (hkeep : MayReplace w i o) (he : w.effect i ch o = some (r, v)) {j : ℕ} {own : UnitOp → Bool}
    (hne : (i == j && own o) = false) {token : Json}
    (htok : Undisturbed w.trace j own → w.HasToken token)
    (hund : Undisturbed (v.record i o r).trace j own) :
    (v.record i o r).HasToken token := by
  rw [(UnitWorld.effect_recorded he).trace, undisturbed_cons hne] at hund
  exact h.keep_of_entry hok hkeep he hund.1 (htok hund.2)

theorem ProvenanceInv.op_launch (h : ProvenanceInv w) (hok : o.ok unit (w.mem i))
    (hkeep : MayReplace w i o) (he : w.effect i ch o = some (r, v)) {token : String}
    (hopen : OpenLaunch (v.record i o r).trace token) :
    (v.record i o r).HasToken (.str token) := by
  rw [(UnitWorld.effect_recorded he).trace] at hopen
  rcases hopen with ⟨-, n, d, ho, htok⟩ | ⟨hopen, hncl⟩
  · change o = .writePid n d at ho
    subst ho
    exact htok ▸ (h.written hok he).1
  cases hu : (⟨i, w.id i, (w.mem i).call, o, r.isOk⟩ : Entry).unlinks with
  | false => exact h.keep_of_entry hok hkeep he hu (h.launch token hopen)
  | true =>
    obtain rfl := UnitOp.unlinkPid_of_unlinks hu
    obtain ⟨q, hq, htok⟩ := h.cleared hok
    cases (h.launch token hopen).unique htok
    exact absurd ⟨hu, q, hq, rfl⟩ hncl

theorem ProvenanceInv.op_read (h : ProvenanceInv w) (hok : o.ok unit (w.mem i))
    (hkeep : MayReplace w i o) (he : w.effect i ch o = some (r, v)) {j : ℕ} {d : Dict}
    (hj : ((v.record i o r).mem j).pidRead = some (.doc d))
    (hund : Undisturbed (v.record i o r).trace j UnitOp.isRead) :
    (v.record i o r).HasToken (d.get "token") := by
  have hrec := UnitWorld.effect_recorded he
  by_cases hji : j = i
  swap
  · rw [hrec.other j hji] at hj
    exact h.keep_own hok hkeep he (by simp [Ne.symm hji]) (h.read j d hj) hund
  subst hji
  rw [hrec.self] at hj
  by_cases hread : o = .readPid
  · subst hread
    simp only [UnitWorld.effect] at he
    split at he
    · cases he
      cases hj
    rename_i f hf
    split_ifs at he
    · cases he
      cases hj
    · cases he
      exact ⟨f, d, hf, Option.some.inj hj, rfl⟩
  · rw [Mem.note_pidRead hread] at hj
    refine h.keep_own hok hkeep he ?_ (h.read j d hj) hund
    cases o <;> first | contradiction | simp [UnitOp.isRead]

theorem ProvenanceInv.op_wrote (h : ProvenanceInv w) (hok : o.ok unit (w.mem i))
    (hkeep : MayReplace w i o) (he : w.effect i ch o = some (r, v)) {j : ℕ} {d : Dict}
    (hj : ((v.record i o r).mem j).intent = some d)
    (hund : Undisturbed (v.record i o r).trace j UnitOp.isWrite) :
    (v.record i o r).HasToken (d.get "token") := by
  have hrec := UnitWorld.effect_recorded he
  by_cases hji : j = i
  swap
  · rw [hrec.other j hji] at hj
    exact h.keep_own hok hkeep he (by simp [Ne.symm hji]) (h.wrote j d hj) hund
  subst hji
  rw [hrec.self] at hj
  by_cases hwrite : ∃ n d, o = .writePid n d
  · obtain ⟨n, d', rfl⟩ := hwrite
    obtain ⟨htok, rfl⟩ := h.written hok he
    cases hj
    exact htok
  · rw [Mem.note_intent fun n d hd => hwrite ⟨n, d, hd⟩] at hj
    refine h.keep_own hok hkeep he ?_ (h.wrote j d hj) hund
    cases o <;> first | exact absurd ⟨_, _, rfl⟩ hwrite | simp [UnitOp.isWrite]

theorem ProvenanceInv.op_creating (h : ProvenanceInv w) (hok : o.ok unit (w.mem i))
    (hkeep : MayReplace w i o) (he : w.effect i ch o = some (r, v)) {j n : ℕ}
    (hj : ((v.record i o r).mem j).Creating n) :
    ∃ f, v.pid = some f ∧ f.ino = n ∧ f.content = .malformed := by
  have hrec := UnitWorld.effect_recorded he
  by_cases hji : j = i
  swap
  · rw [hrec.other j hji] at hj
    exact h.keep_creating hok hkeep he hj fun hij => absurd hij hji
  subst hji
  rw [hrec.self] at hj
  by_cases hcr : o = .createPid
  · subst hcr
    simp only [UnitWorld.effect] at he
    split at he
    · cases he
      exact ⟨_, rfl, Option.some.inj hj.fence, rfl⟩
    · cases he
      exact h.creating j n hj
  · refine h.keep_creating hok hkeep he (UnitOp.note_creating hj hcr) fun _ m d hd => ?_
    subst hd
    obtain ⟨-, rfl⟩ := h.written hok he
    cases hj.intent

/-- A second file is created only where there is none. -/
theorem ProvenanceInv.op_unique (h : ProvenanceInv w) (he : w.effect i ch o = some (r, v))
    {j k n m : ℕ} (hj : ((v.record i o r).mem j).Creating n)
    (hk : ((v.record i o r).mem k).Creating m) : j = k := by
  have hrec := UnitWorld.effect_recorded he
  have hback : ∀ l p, ((v.record i o r).mem l).Creating p →
      (w.mem l).Creating p ∨ l = i ∧ w.pid = none := by
    intro l p hl
    by_cases hli : l = i
    swap
    · rw [hrec.other l hli] at hl
      exact .inl hl
    subst hli
    rw [hrec.self] at hl
    by_cases hcr : o = .createPid
    · subst hcr
      simp only [UnitWorld.effect] at he
      split at he
      · exact .inr ⟨rfl, ‹_›⟩
      · cases he
        exact .inl hl
    · exact .inl (UnitOp.note_creating hl hcr)
  have hsome : ∀ l p, (w.mem l).Creating p → w.pid ≠ none := fun l p hl hn => by
    obtain ⟨f, hf, -⟩ := h.creating l p hl
    rw [hn] at hf
    cases hf
  rcases hback j n hj with hj | ⟨hji, hn⟩ <;> rcases hback k m hk with hk | ⟨hki, hn'⟩
  · exact h.unique j k n m hj hk
  · exact absurd hn' (hsome j n hj)
  · exact absurd hn (hsome k m hk)
  · rw [hji, hki]

/-- Under the lock nobody else unlinks what the call has read. -/
theorem ProvenanceInv.op_locked (h : ProvenanceInv w) (hok : o.ok unit (w.mem i))
    (he : w.effect i ch o = some (r, v)) {j : ℕ} {d : Dict}
    (hlock : ((v.record i o r).mem j).locked = true)
    (hnot : ((v.record i o r).mem j).unlinked = false)
    (hj : ((v.record i o r).mem j).pidRead = some (.doc d)) :
    Undisturbed (v.record i o r).trace j UnitOp.isRead := by
  have hrec := UnitWorld.effect_recorded he
  rw [hrec.trace]
  by_cases hji : j = i
  swap
  · rw [hrec.other j hji] at hlock hnot hj
    refine (undisturbed_cons (by simp [Ne.symm hji])).2 ⟨?_, h.locked j d hlock hnot hj⟩
    by_contra hu
    obtain rfl := UnitOp.unlinkPid_of_unlinks (eq_true_of_ne_false hu)
    have hij := (h.owned i hok.1).symm.trans (h.owned j hlock)
    exact hji (Option.some.inj hij).symm
  subst hji
  rw [hrec.self] at hlock hnot hj
  by_cases hread : o = .readPid
  · subst hread
    exact undisturbed_own (by simp [UnitOp.isRead])
  rw [Mem.note_pidRead hread] at hj
  have hfl : o ≠ .flock := by
    rintro rfl
    rw [hok.2] at hj
    cases hj
  have hown : (j == j && UnitOp.isRead o) = false := by
    cases o <;> first | contradiction | simp [UnitOp.isRead]
  by_cases hun : o = .unlinkPid
  · subst hun
    cases r with
    | ok x => cases hnot
    | error x => exact (undisturbed_cons hown).2 ⟨rfl, h.locked j d hlock hnot hj⟩
  · rw [Mem.note_unlinked hun] at hnot
    refine (undisturbed_cons hown).2 ⟨?_, h.locked j d (Mem.note_locked hfl hlock) hnot hj⟩
    by_contra hu
    exact hun (UnitOp.unlinkPid_of_unlinks (eq_true_of_ne_false hu))

theorem ProvenanceInv.op {w' : UnitWorld} (h : ProvenanceInv w) (hok : o.ok unit (w.mem i))
    (hkeep : MayReplace w i o) (hop : w.op i ch o = some (r, w')) : ProvenanceInv w' := by
  have howned := h.owned.op hop
  rcases UnitWorld.op_cases hop with ⟨rfl, -⟩ | ⟨r', v, he, rfl, -⟩
  · exact h
  exact ⟨howned, fun _ => h.op_launch hok hkeep he, fun _ _ => h.op_read hok hkeep he,
    fun _ _ => h.op_wrote hok hkeep he, fun _ _ => h.op_creating hok hkeep he, fun _ _ _ _ =>
    h.op_unique he, fun _ _ => h.op_locked hok he⟩

end

/-- Starting or ending a call. -/
theorem ProvenanceInv.renew {w w' : UnitWorld} (h : ProvenanceInv w) {i : ℕ} (howned : w'.LockOwned)
    (hmem : ∀ j ≠ i, w'.mem j = w.mem j) (hread : (w'.mem i).pidRead = none)
    (hintent : (w'.mem i).intent = none) (hfence : (w'.mem i).fence = none)
    (htrace : w'.trace = w.trace) (hpid : w'.pid = w.pid) : ProvenanceInv w' := by
  have htok : ∀ t, w.HasToken t → w'.HasToken t := by
    rintro t ⟨f, d, hf, hd, ht⟩
    exact ⟨f, d, hpid ▸ hf, hd, ht⟩
  have hcr : ∀ j n, (w'.mem j).Creating n → (w.mem j).Creating n := by
    intro j n hj
    by_cases hji : j = i
    · have hn := hj.fence
      rw [hji, hfence] at hn
      cases hn
    · rwa [hmem j hji] at hj
  refine ⟨howned, fun token ho => htok _ (h.launch token (htrace ▸ ho)), fun j d hj hund => ?_,
    fun j d hj hund => ?_, fun j n hj => hpid ▸ h.creating j n (hcr j n hj),
    fun j k n m hj hk => h.unique j k n m (hcr j n hj) (hcr k m hk), fun j d hlock hnot hj => ?_⟩
  · by_cases hji : j = i
    · rw [hji, hread] at hj; cases hj
    · rw [hmem j hji] at hj
      exact htok _ (h.read j d hj (htrace ▸ hund))
  · by_cases hji : j = i
    · rw [hji, hintent] at hj; cases hj
    · rw [hmem j hji] at hj
      exact htok _ (h.wrote j d hj (htrace ▸ hund))
  · by_cases hji : j = i
    · rw [hji, hread] at hj; cases hj
    · rw [hmem j hji] at hlock hnot hj
      rw [htrace]
      exact h.locked j d hlock hnot hj

theorem provenanceInv_init {environ : Env} {proc : ℕ → ℕ} {pid : Option PidFile}
    {state : Option Content} {tokens : List String} :
    ProvenanceInv (.init environ proc pid state tokens) := by
  refine ⟨UnitWorld.lockOwned_init, fun token h => h.elim, fun i d h => ?_, fun i d h => ?_,
    fun i n h => ?_, fun i j n m h => ?_, fun i d h => ?_⟩
  · cases h
  · cases h
  · cases h.fence
  · cases h.fence
  · cases h

theorem provenance_rely (unit : String) : Rely (fleet unit) KeepsProvenance ProvenanceInv
    (fun i w => w.mem i) UnitOp.upd (UnitOp.Allowed unit) UnitCall.fin := by
  refine fleet_rely (fun c i k w _ h _ hs => ?_) (fun c i ch k o f r w hp h hr hok hop => ?_)
    (fun c i k r _ h _ _ => ?_) fun c i _ h => ?_
  · obtain ⟨hm, hj⟩ := UnitWorld.start_view hs
    obtain ⟨ht, -, hpid, -⟩ := UnitWorld.start_frame hs
    exact h.renew (h.owned.start hs) hj (by rw [hm]) (by rw [hm]) (by rw [hm]) ht hpid
  · exact h.op hok.ok (fun d hd => hp d (hd ▸ Cfg.next_call hr)) hop
  · obtain ⟨ht, -, hpid, -⟩ := UnitWorld.close_frame (w := c.sh) i
    exact h.renew (h.owned.close i) UnitWorld.close_view (by simp) (by simp) (by simp) ht hpid
  · obtain ⟨ht, -, hpid, -⟩ := UnitWorld.close_frame (w := c.sh) i
    exact h.renew (h.owned.close i) UnitWorld.close_view (by simp) (by simp) (by simp) ht hpid

/-- **`pid.json` names the open launch**, where no call replaces it after a clearance has
    unlinked the record it has read or written. -/
theorem provenance_kept {unit : String} {environ : Env} {proc : ℕ → ℕ} {pid : Option PidFile}
    {state : Option Content} {tokens : List String} {c : UnitCfg}
    (h : (fleet unit).Reach KeepsProvenance (idle (.init environ proc pid state tokens)) c)
    {token : String} (hopen : OpenLaunch c.sh.trace token) : c.sh.HasToken (.str token) :=
  ((provenance_rely unit).inv provenanceInv_init h).1.launch token hopen

def openLaunch : List Entry → String → Bool
  | [], _ => false
  | e :: t, token =>
    (e.ok && match e.op with
      | .writePid _ d => (d.get "token").eqStr token
      | _ => false) ||
    openLaunch t token && !(e.unlinks && match e.call with
      | some (.clear q) => q.token == token
      | _ => false)

theorem openLaunch_spec {t : List Entry} {token : String} (h : openLaunch t token = true) :
    OpenLaunch t token := by
  induction t with
  | nil => cases h
  | cons e t ih =>
    simp only [openLaunch, Bool.or_eq_true, Bool.and_eq_true, Bool.not_eq_true',
      Bool.and_eq_false_iff] at h
    rcases h with ⟨hok, h⟩ | ⟨h, hn⟩
    · left
      refine ⟨hok, ?_⟩
      split at h
      · rename_i n d ho; exact ⟨n, d, ho, eqStr_iff.1 h⟩
      · cases h
    · right
      refine ⟨ih h, fun ⟨hu, q, hq, htok⟩ => ?_⟩
      rw [hu, hq] at hn
      simp [htok] at hn

/-- `pid.json` holds a record with another token. -/
def namesOther (c : UnitCfg) (token : String) : Bool :=
  match c.sh.pid with
  | some ⟨_, _, .doc d, _⟩ => !(d.get "token").eqStr token
  | _ => true

theorem namesOther_spec {c : UnitCfg} {token : String} (h : namesOther c token = true) :
    ¬ c.sh.HasToken (.str token) := by
  rintro ⟨f, d, hf, hd, ht⟩
  obtain ⟨n, k, content, b⟩ := f
  change content = .doc d at hd
  subst hd
  simp [namesOther, hf, ht, Json.eqStr] at h

def keepsProvenance (c : UnitCfg) : UnitAct → Bool
  | .op i _ =>
    match c.next i with
    | some (.replacePid _) =>
      let own := if (c.sh.mem i).kid.isNone then UnitOp.isRead else UnitOp.isWrite
      (c.sh.trace.takeWhile fun e => !(e.thread == i && own e.op)).all fun e => !e.unlinks
    | _ => true
  | _ => true

theorem keepsProvenance_spec {c : UnitCfg} {a : UnitAct} (h : keepsProvenance c a = true) :
    KeepsProvenance c a := by
  cases a with
  | op i ch =>
    intro d hd e he
    simp only [keepsProvenance, hd] at h
    simpa using List.all_eq_true.1 h e he
  | _ => trivial

/-- A call of `stop` by thread 1 that has read `pid.json`, and the rest of it. -/
def stopRead : List UnitAct := [.start 1 .stop, .op 1 {}]

def stopReplace : List UnitAct := ops 1 8 {}

/-- A unit is launched and stopped. -/
theorem provenance_kept_stop : ∃ c, (fleet "u").Reach KeepsProvenance emptyUnit c ∧
    OpenLaunch c.sh.trace "a" ∧ c.sh.HasToken (.str "a") := by
  obtain ⟨c, hc, hq, -⟩ := Reach.exists_of_run (fleet "u") emptyUnit keepsProvenance
    (launchSteps "a" 0 ++ passEnd ++ stopRead ++ stopReplace) (fun c => openLaunch c.sh.trace "a")
    (fun _ _ => keepsProvenance_spec) (by decide +kernel)
  exact ⟨c, hc, openLaunch_spec hq, provenance_kept hc (openLaunch_spec hq)⟩

/-- A call of `stop` reads the record of a launch; the launch is cleared and the unit
    launched again; the call writes the record back. -/
def staleStop : List UnitAct :=
  launchSteps "a" 0 ++ execSteps ++ passEnd ++ stopRead ++ clearSteps 1 "a" ++ launchSteps "b" 1 ++
    execSteps ++ stopReplace

/-- **The record of a cleared launch can take the place of a running one's.** -/
theorem provenance_lost : ¬ ∀ (unit : String) (environ : Env) (proc : ℕ → ℕ) (pid : Option PidFile)
    (state : Option Content) (tokens : List String) (c : UnitCfg) (token : String),
    (fleet unit).Reach (fun _ _ => True) (idle (.init environ proc pid state tokens)) c →
      OpenLaunch c.sh.trace token → c.sh.HasToken (.str token) := by
  intro h
  obtain ⟨c, hc, hq, -⟩ := Reach.exists_of_run (P := fun _ _ => True) (fleet "u") emptyUnit
    (fun _ _ => true) staleStop (fun c => openLaunch c.sh.trace "b" && namesOther c "b")
    (fun _ _ _ => trivial) (by decide +kernel)
  obtain ⟨hopen, hother⟩ := Bool.and_eq_true_iff.1 hq
  exact namesOther_spec hother (h "u" ∅ _ none none [] c "b" hc (openLaunch_spec hopen))

end DatasourceKit

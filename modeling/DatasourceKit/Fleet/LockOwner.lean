/-
  What one call of `acquire_lock` or `release_lock` does with the lock of another host.

  * `Undisturbed`: a step of a process on the lock file, without faults;
  * `SparesOwner`: `acquire_lock` raises `SupervisorLockError`, `release_lock` returns
    `False`, and both leave the file;
  * `spares_foreign_iff`: the lock of another host is spared exactly if its pid is an
    integer other than the pid of the calling process.
-/
import DatasourceKit.Fleet.SupervisorLock

namespace DatasourceKit

open Interleave Interleave.Prog

namespace LockWorld

/-- Process `i` performs an operation, without a fault. -/
def Undisturbed (i : ℕ) (o : LockOp) (w : LockWorld) (r : Except Exc o.Val)
    (w' : LockWorld) : Prop :=
  ∃ ch : LockEnv, ch.fault = none ∧ w.op i ch o = some (r, w')

variable {w w' : LockWorld} {i : ℕ}

theorem Undisturbed.procs {o : LockOp} {r : Except Exc o.Val} (h : Undisturbed i o w r w') :
    w'.procs = w.procs := by
  obtain ⟨ch, hch, h⟩ := h
  cases o <;> simp only [op, hch] at h
  case getpid =>
    obtain ⟨pid, -, h⟩ := Option.map_eq_some_iff.1 h
    cases h
    rfl
  all_goals (try split at h) <;> cases h <;> rfl

/-- Every operation of a live process can go on. -/
theorem exists_op {own : ℤ} (hpid : w.procs.lookup i = some own) (o : LockOp) :
    ∃ x, w.op i {} o = some x := by
  cases o <;> simp only [op, hpid, Option.map_some] <;> (try split) <;> exact ⟨_, rfl⟩

theorem exists_undisturbed {own : ℤ} (hpid : w.procs.lookup i = some own) (o : LockOp) :
    ∃ r w', Undisturbed i o w r w' ∧ w'.procs.lookup i = some own := by
  obtain ⟨⟨r, w'⟩, h⟩ := exists_op hpid o
  have hstep : Undisturbed i o w r w' := ⟨{}, rfl, h⟩
  exact ⟨r, w', hstep, hstep.procs ▸ hpid⟩

end LockWorld

open LockWorld

section
variable {w : LockWorld} {i : ℕ} {own : ℤ} {E : Exc → LockWorld → Prop}

theorem always_lockOp {o : LockOp} {Q : o.Val → LockWorld → Prop}
    (h : ∀ ch r w', ch.fault = none → w.op i ch o = some (r, w') → ∃ v, r = .ok v ∧ Q v w') :
    (perform o).Always (Undisturbed i) (fun _ _ => True) Q E w := by
  refine always_perform.2 ⟨trivial, ?_, ?_⟩
  · rintro v w' ⟨ch, hch, hop⟩
    obtain ⟨v', hv, hQ⟩ := h ch _ w' hch hop
    cases hv
    exact hQ
  · rintro e w' ⟨ch, hch, hop⟩
    obtain ⟨v', hv, -⟩ := h ch _ w' hch hop
    cases hv

theorem always_getpid {Q : ℤ → LockWorld → Prop}
    (hpid : w.procs.lookup i = some own) (hQ : Q own w) :
    (perform LockOp.getpid).Always (Undisturbed i) (fun _ _ => True) Q E w := by
  refine always_lockOp fun ch r w' hch h => ?_
  simp only [op, hch, hpid, Option.map_some] at h
  cases h
  exact ⟨own, rfl, hQ⟩

theorem always_gethostname {Q : String → LockWorld → Prop} (hQ : Q w.host w) :
    (perform LockOp.gethostname).Always (Undisturbed i) (fun _ _ => True) Q E w := by
  refine always_lockOp fun ch r w' hch h => ?_
  simp only [op, hch] at h
  cases h
  exact ⟨_, rfl, hQ⟩

/-- A process that reads the lock file gets the body in it. -/
theorem always_readOwner {Q : Option Dict → LockWorld → Prop} {n : ℕ} {body : Dict}
    (hfile : w.file = some (n, .doc body))
    (hQ : Q (some body) (w.setSeen i (some (n, .doc body)))) :
    (readJson (attempt LockOp.read)).Always (Undisturbed i) (fun _ _ => True) Q E w := by
  refine always_bind.2 ⟨trivial, ?_⟩
  rintro r w' ⟨ch, hch, h⟩
  simp only [op, hch, hfile] at h
  cases h
  exact hQ

/-- `acquire_lock` comes to its loop, with a process that runs undisturbed. -/
theorem always_acquireOwner {payload : Dict} {fuel : ℕ} {Q : Dict → LockWorld → Prop}
    (hpid : w.procs.lookup i = some own)
    (h : ∀ body, (acquireLoop body fuel).Always (Undisturbed i) (fun _ _ => True) Q E w) :
    (acquireLock payload fuel).Always (Undisturbed i) (fun _ _ => True) Q E w := by
  refine always_bind.2 (always_lockOp fun ch r w' hch hop => ?_)
  simp only [op, hch] at hop
  cases hop
  refine ⟨(), rfl, always_bind.2 (always_lockOp fun ch r w' hch hop => ?_)⟩
  simp only [op, hch] at hop
  cases hop
  refine ⟨_, rfl, always_bind.2 (always_getpid hpid ?_)⟩
  exact always_bind.2 (always_gethostname (h _))

/-- A round of `acquire_lock` on an existing lock: it raises or removes the file. -/
theorem always_ownerRound {body owner : Dict} {n fuel : ℕ} {Q : Dict → LockWorld → Prop}
    (hfile : w.file = some (n, .doc owner))
    (hlive : (lockIsLive (some owner)).Always (Undisturbed i) (fun _ _ => True)
      (fun live w' => w'.file = w.file ∧
        if live then E (.lockHeld ((owner.get "pid").asInt.getD 0)) w'
        else (acquireLoop body fuel).Always (Undisturbed i) (fun _ _ => True) Q E
        { w' with file := none })
      E (w.setSeen i (some (n, .doc owner)))) :
    (acquireLoop body (fuel + 1)).Always (Undisturbed i) (fun _ _ => True) Q E w := by
  refine always_bind.2 (always_attempt.2 ⟨trivial, ?_⟩)
  rintro r w' ⟨ch, hch, hop⟩
  simp only [op, hch, hfile] at hop
  cases hop
  refine always_bind.2 (always_readOwner hfile
    (always_bind.2 (hlive.mono (fun _ _ h => h) ?_ fun _ _ h => h)))
  rintro live w' ⟨hw', h⟩
  cases live with
  | true => exact h
  | false =>
    refine always_bind.2 (always_attempt.2 ⟨trivial, ?_⟩)
    rintro r w'' ⟨ch, hch, hop⟩
    simp only [op, hch, hw', hfile] at hop
    cases hop
    exact h

/-- The lock is held by an owner on another host, whose pid differs from that of process
    `i`. -/
theorem always_live_foreign {owner : Dict} {p : ℤ} {Q : Bool → LockWorld → Prop}
    (hpid : w.procs.lookup i = some own) (hp : (owner.get "pid").asInt = some p) (hne : p ≠ own)
    (hhost : (owner.get "hostname").eqStr w.host = false) (hQ : Q true w) :
    (lockIsLive (some owner)).Always (Undisturbed i) (fun _ _ => True) Q E w := by
  simp only [lockIsLive, hp]
  refine always_bind.2 (always_getpid hpid ?_)
  rw [if_neg hne]
  refine always_bind.2 (always_gethostname ?_)
  rw [hhost]
  exact hQ

/-- An owner without a pid, or with that of process `i`, is taken for dead. -/
theorem always_live_own {owner : Dict} {Q : Bool → LockWorld → Prop}
    (hpid : w.procs.lookup i = some own) (hp : ∀ p, (owner.get "pid").asInt = some p → p = own)
    (hQ : Q false w) :
    (lockIsLive (some owner)).Always (Undisturbed i) (fun _ _ => True) Q E w := by
  simp only [lockIsLive]
  split
  · exact hQ
  · rename_i p hp'
    refine always_bind.2 (always_getpid hpid ?_)
    rw [if_pos (hp p hp')]
    exact hQ

end

/-! ## The lock of another host -/

/-- Process `i`, undisturbed, leaves the lock to its owner. -/
structure SparesOwner (i : ℕ) (w : LockWorld) : Prop where
  acquire : ∀ payload fuel, (acquireLock payload (fuel + 1)).Always (Undisturbed i)
    (fun _ _ => True) (fun _ _ => False)
    (fun e w' => (∃ pid, e = .lockHeld pid) ∧ w'.file = w.file) w
  release : releaseLock.Always (Undisturbed i) (fun _ _ => True)
    (fun freed w' => freed = false ∧ w'.file = w.file) (fun _ _ => False) w

/-- A process takes the lock of an owner without a pid, or with its own pid. -/
theorem not_spares_own {w : LockWorld} {i n : ℕ} {own : ℤ} {owner : Dict}
    (hpid : w.procs.lookup i = some own) (hfile : w.file = some (n, .doc owner))
    (hown : ∀ p, (owner.get "pid").asInt = some p → p = own) :
    ¬ SparesOwner i w := by
  intro h
  -- one round finds the owner dead, removes the file and goes on
  have hsteals : (acquireLock ∅ 1).Always (Undisturbed i) (fun _ _ => True) (fun _ _ => True)
      (fun e _ => e = .fault .interrupt) w :=
    always_acquireOwner hpid fun body =>
      always_ownerRound hfile (always_live_own hpid hown ⟨rfl, rfl⟩)
  obtain ⟨_, _, hf, -⟩ | ⟨e, _, ⟨⟨pid, he⟩, -⟩, he'⟩ := ((h.acquire ∅ 0).and hsteals).exists_end
    (J := fun w => w.procs.lookup i = some own) (fun o w hw _ => exists_undisturbed hw o) hpid
  · exact hf
  · rw [he] at he'
    cases he'

/-- **The lock of another host is spared exactly if its pid is an integer that is not the
    pid of the calling process.** -/
theorem spares_foreign_iff {w : LockWorld} {i n : ℕ} {own : ℤ} {owner : Dict}
    (hpid : w.procs.lookup i = some own) (hfile : w.file = some (n, .doc owner))
    (hhost : (owner.get "hostname").eqStr w.host = false) :
    SparesOwner i w ↔ ∃ p, (owner.get "pid").asInt = some p ∧ p ≠ own := by
  constructor
  · intro h
    by_contra hn
    exact not_spares_own hpid hfile (fun p hp => by_contra fun hne => hn ⟨p, hp, hne⟩) h
  · rintro ⟨p, hp, hne⟩
    refine ⟨fun payload fuel => ?_, ?_⟩
    · exact always_acquireOwner hpid fun body => always_ownerRound hfile
        (always_live_foreign hpid hp hne hhost ⟨rfl, ⟨_, rfl⟩, rfl⟩)
    · refine always_bind.2 (always_readOwner hfile (always_bind.2 (always_getpid hpid ?_)))
      have heq : (owner.get "pid").eqInt own = false :=
        Bool.not_eq_true _ ▸ fun h => hne (Json.eqInt_unique (Json.eqInt_asInt hp) h)
      rw [heq]
      exact ⟨rfl, rfl⟩

/-- Process 0 has pid 1 on its host; the lock is of a process with the pid on another
    one. -/
def sharedVolume (pid : ℤ) : LockWorld :=
  { LockWorld.init "a" (some (.doc (Dict.update ∅ [("pid", .int pid), ("hostname", .str "b")]))) with
    procs := AList.insert 0 1 ∅ }

theorem spares_foreign_seven : SparesOwner 0 (sharedVolume 7) :=
  (spares_foreign_iff rfl rfl rfl).2 ⟨7, rfl, by decide⟩

/-- **The lock of another host can be taken**: by a process with the same pid. -/
theorem foreign_robbed : ¬ ∀ (w : LockWorld) (i n : ℕ) (own : ℤ) (owner : Dict),
    w.procs.lookup i = some own → w.file = some (n, .doc owner) →
    (owner.get "hostname").eqStr w.host = false → SparesOwner i w := by
  intro h
  refine not_spares_own (w := sharedVolume 1) (i := 0) rfl rfl (fun p hp => ?_)
    (h _ 0 0 1 _ rfl rfl rfl)
  cases hp
  rfl

end DatasourceKit

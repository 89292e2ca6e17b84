/-
  Interleave — the histories of a sequential program.

  An event is an operation with its answer; a history lists the events so far, the
  last one first.

  * `Reaches env p₀ t₀ t p`: after the history `t`, what is left of `p₀` is `p`; `env`
    says which answers the environment may give.  `Always.reaches`: a specification
    over histories holds wherever a run has got to;
  * `Steps step p₀ s₀ s p`: the same over any states; `drive`: a run of chosen steps;
    `driveSeries`: successive runs, each left after some of them; `Can step Q E p s`: some
    run gets to an end, with the rules of `Always`;
  * `catching`, `iterate`: an exception as a value, and `while` loops of any number of
    rounds; `NoRaise`: programs that catch everything; `Within`: how many operations a run
    performs at most;
  * `Sessions`: successive runs, each cut anywhere; `Sessions.each`: their rule;
    `Serial`, `Serial.invariant`: the same over any states;
  * `Everywhere`: guards that need no invariant;
  * `lower`: the operations of a program, implemented by programs over other
    operations.  `Always.lower`: it keeps every specification that the implementations
    justify;
  * `exec`: the run in one environment.  `Erases`, `Erases.exec`: a program whose
    operations of some kind can be left out.
-/
import Mathlib.Data.List.Basic
import DatasourceKit.Interleave.Prog

namespace Interleave

variable {Op : Type} {Val : Op → Type} {ε α β : Type}

/-- An operation and its answer. -/
abbrev Event (Val : Op → Type) (ε : Type) := (o : Op) × Except ε (Val o)

/-- The events so far, the last one first. -/
abbrev Hist (Val : Op → Type) (ε : Type) := List (Event Val ε)

namespace Prog

/-! ## Exceptions as values, and loops -/

/-- Run `p`; its exception is a value. -/
def catching : Prog Val ε α → Prog Val ε (Except ε α)
  | ret a => ret (.ok a)
  | raise e => ret (.error e)
  | call o k => call o fun r => (k r).catching

/-- Rounds of `body`, each from the value of the one before, until one answers an end;
    `none` if none of the first `n` does. -/
def iterate (body : α → Prog Val ε (α ⊕ β)) : ℕ → α → Prog Val ε (Option β)
  | 0, _ => ret none
  | n + 1, a => (body a).bind fun
    | .inl a' => iterate body n a'
    | .inr b => ret (some b)

section
variable {S : Type} {step : (o : Op) → S → Except ε (Val o) → S → Prop} {G : Op → S → Prop}
  {E : ε → S → Prop} {s : S}

theorem always_catching {p : Prog Val ε α} {Q : Except ε α → S → Prop} :
    p.catching.Always step G Q E s ↔
      p.Always step G (fun a s => Q (.ok a) s) (fun e s => Q (.error e) s) s := by
  induction p generalizing s with
  | ret a => exact Iff.rfl
  | raise e => exact Iff.rfl
  | call o k ih =>
    exact and_congr_right fun _ => forall_congr' fun r => forall_congr' fun s' =>
      imp_congr_right fun _ => ih r

/-- The rule for loops that count: the round after the `k`-th one keeps `I k`, an end satisfies
    `Q`, and `none` is answered after all rounds. -/
theorem always_iterate_counted {body : α → Prog Val ε (α ⊕ β)} {I : ℕ → α → S → Prop}
    {Q : Option β → S → Prop} {k n : ℕ} {a : α}
    (hbody : ∀ k a s, I k a s → (body a).Always step G
      (fun x s => match x with | .inl a' => I (k + 1) a' s | .inr b => Q (some b) s) E s)
    (hnone : ∀ a s, I (k + n) a s → Q none s) (h : I k a s) :
    (iterate body n a).Always step G Q E s := by
  induction n generalizing k a s with
  | zero => exact hnone a s h
  | succ n ih =>
    refine always_bind.2 (Always.mono (fun _ _ h => h) (fun x s hx => ?_) (fun _ _ h => h)
      (hbody k a s h))
    cases x with
    | inl a' => exact ih (fun a s ha => hnone a s (by rwa [Nat.add_right_comm] at ha)) hx
    | inr b => exact hx

/-- The rule for loops: every round keeps `I`, and an end satisfies `Q`. -/
theorem always_iterate {body : α → Prog Val ε (α ⊕ β)} {I : α → S → Prop} {Q : Option β → S → Prop}
    (hbody : ∀ a s, I a s → (body a).Always step G
      (fun x s => match x with | .inl a' => I a' s | .inr b => Q (some b) s) E s)
    (hnone : ∀ a s, I a s → Q none s) {n : ℕ} {a : α} (h : I a s) :
    (iterate body n a).Always step G Q E s :=
  always_iterate_counted (I := fun _ => I) (k := 0) (fun _ => hbody) hnone h

/-- The rule for loops that end: every round keeps `I` and lowers `m`, or ends. -/
theorem always_iterate_ends {body : α → Prog Val ε (α ⊕ β)} {I : α → S → Prop} {m : α → S → ℕ}
    {Q : β → S → Prop} (hbody : ∀ a s, I a s → (body a).Always step G
      (fun x s' => match x with | .inl a' => I a' s' ∧ m a' s' < m a s | .inr b => Q b s') E s)
    {n : ℕ} {a : α} (h : I a s) (hn : m a s < n) :
    (iterate body n a).Always step G (fun x s => ∃ b, x = some b ∧ Q b s) E s := by
  induction n generalizing a s with
  | zero => exact absurd hn (Nat.not_lt_zero _)
  | succ n ih =>
    refine always_bind.2 (Always.mono (fun _ _ h => h) (fun x s' hx => ?_)
      (fun _ _ h => h) (hbody a s h))
    cases x with
    | inl a' => exact ih hx.1 (Nat.lt_of_lt_of_le hx.2 (Nat.le_of_lt_succ hn))
    | inr b => exact ⟨b, rfl, hx⟩

/-- The program raises nothing, whatever is answered. -/
def NoRaise : Prog Val ε α → Prop
  | ret _ => True
  | raise _ => False
  | call _ k => ∀ r, (k r).NoRaise

theorem noRaise_catching {p : Prog Val ε α} : p.catching.NoRaise := by
  induction p with
  | ret a => trivial
  | raise e => trivial
  | call o k ih => exact ih

theorem NoRaise.bind {p : Prog Val ε α} {f : α → Prog Val ε β} (hp : p.NoRaise)
    (hf : ∀ a, (f a).NoRaise) :
    (p.bind f).NoRaise := by
  induction p with
  | ret a => exact hf a
  | raise e => exact hp.elim
  | call o k ih => exact fun r => ih r (hp r)

/-- What follows a caught program raises nothing if no case of it does. -/
theorem noRaise_caught {p : Prog Val ε α} {f : Except ε α → Prog Val ε β}
    (hf : ∀ r, (f r).NoRaise) :
    (p.catching.bind f).NoRaise := noRaise_catching.bind hf

theorem Always.noRaise {Q : α → S → Prop} {p : Prog Val ε α}
    (h : p.Always step G Q E s) (hp : p.NoRaise) :
    p.Always step G Q (fun _ _ => False) s := by
  induction p generalizing s with
  | ret a => exact h
  | raise e => exact hp.elim
  | call o k ih => exact ⟨h.1, fun r s' hs => ih r (h.2 r s' hs) (hp r)⟩

/-- A run of the program performs at most so many operations, whatever is answered. -/
def Within : Prog Val ε α → ℕ → Prop
  | ret _, _ => True
  | raise _, _ => True
  | call _ _, 0 => False
  | call _ k, n + 1 => ∀ r, (k r).Within n

theorem within_perform {o : Op} : (perform o : Prog Val ε (Val o)).Within 1 := by
  intro r
  cases r <;> trivial

theorem Within.mono {p : Prog Val ε α} {n m : ℕ} (h : p.Within n) (hnm : n ≤ m) : p.Within m := by
  induction p generalizing n m with
  | ret a => trivial
  | raise e => trivial
  | call o k ih =>
    cases n with
    | zero => exact h.elim
    | succ n =>
      cases m with
      | zero => exact absurd hnm (Nat.not_succ_le_zero n)
      | succ m => exact fun r => ih r (h r) (Nat.le_of_succ_le_succ hnm)

theorem Within.bind {p : Prog Val ε α} {f : α → Prog Val ε β} {n m : ℕ} (hp : p.Within n)
    (hf : ∀ a, (f a).Within m) : (p.bind f).Within (n + m) := by
  induction p generalizing n with
  | ret a => exact (hf a).mono (Nat.le_add_left m n)
  | raise e => trivial
  | call o k ih =>
    cases n with
    | zero => exact hp.elim
    | succ n =>
      rw [Nat.succ_add]
      exact fun r => ih r (hp r)

theorem Uses.catching {A : Op → Prop} {p : Prog Val ε α} (hp : p.Uses A) : p.catching.Uses A := by
  induction p with
  | ret a => trivial
  | raise e => trivial
  | call o k ih => exact ⟨hp.1, fun r => ih r (hp.2 r)⟩

end

/-! ## Where a run has got to -/

section
variable {S : Type} (step : (o : Op) → S → Except ε (Val o) → S → Prop)

/-- A run of `p₀` from `s₀` has got to the state `s`, and `p` is left. -/
inductive Steps (p₀ : Prog Val ε α) (s₀ : S) : S → Prog Val ε α → Prop
  | start : Steps p₀ s₀ s₀ p₀
  | step {s s' o k r} : Steps p₀ s₀ s (call o k) → step o s r s' → Steps p₀ s₀ s' (k r)

/-- Successive runs, each left anywhere, have got to the state `s`; `p` is left of the last
    one.  `opens s p s'`: after the state `s` a run of `p` may begin in `s'`. -/
inductive Serial (opens : S → Prog Val ε α → S → Prop) (s₀ : S) : S → Prog Val ε α → Prop
  | first {s p} : opens s₀ p s → Serial opens s₀ s p
  | step {s s' o k r} : Serial opens s₀ s (call o k) → step o s r s' → Serial opens s₀ s' (k r)
  | next {s s' p p'} : Serial opens s₀ s p → opens s p' s' → Serial opens s₀ s' p'

variable {step} {G : Op → S → Prop} {Q : α → S → Prop} {E : ε → S → Prop}
  {p₀ p : Prog Val ε α} {s₀ s : S}

theorem Always.steps (h : p₀.Always step G Q E s₀) (hr : Steps step p₀ s₀ s p) :
    p.Always step G Q E s := by
  induction hr with
  | start => exact h
  | step _ hstep ih => exact ih.2 _ _ hstep

/-- **The rule for successive runs over states**: if every run that begins after a state
    satisfying `J` keeps `J` and its specification, then `J` holds wherever the runs get
    to, and what is left keeps the specification. -/
theorem Serial.invariant {opens : S → Prog Val ε α → S → Prop} {J : S → Prop}
    (hopens : ∀ s p s', J s → opens s p s' → p.Always step (fun o s => J s ∧ G o s)
      (fun a s => J s ∧ Q a s) (fun e s => J s ∧ E e s) s')
    (hs₀ : J s₀) (h : Serial step opens s₀ s p) :
    J s ∧ p.Always step (fun o s => J s ∧ G o s) (fun a s => J s ∧ Q a s)
    (fun e s => J s ∧ E e s) s := by
  suffices hp : p.Always step (fun o s => J s ∧ G o s) (fun a s => J s ∧ Q a s)
      (fun e s => J s ∧ E e s)
      s from ⟨(hp.mono (fun _ _ h => h.1) (fun _ _ h => h.1) fun _ _ h => h.1).now, hp⟩
  induction h with
  | first hp => exact hopens _ _ _ hs₀ hp
  | step _ hstep ih => exact ih.2 _ _ hstep
  | next _ hp ih =>
    exact hopens _ _ _ (ih.mono (fun _ _ h => h.1) (fun _ _ h => h.1) fun _ _ h => h.1).now hp

/-- The run whose steps `act` chooses; `none` if it gets stuck. -/
def drive (act : (o : Op) → S → Option (Except ε (Val o) × S)) :
    Prog Val ε α → S → Option (Except ε α × S)
  | ret a, s => some (.ok a, s)
  | raise e, s => some (.error e, s)
  | call o k, s => (act o s).bind fun x => (k x.1).drive act x.2

theorem Steps.of_drive {act : (o : Op) → S → Option (Except ε (Val o) × S)}
    (hact : ∀ o s r s', act o s = some (r, s') → step o s r s') {r : Except ε α} {s' : S}
    (h : p₀.drive act s₀ = some (r, s')) : Steps step p₀ s₀ s' (ofExcept r) := by
  suffices hsteps : ∀ (q : Prog Val ε α) s, Steps step p₀ s₀ s q → q.drive act s = some (r, s') →
      Steps step p₀ s₀ s' (ofExcept r) from hsteps p₀ s₀ .start h
  intro q
  induction q with
  | ret a => rintro s hs ⟨⟩; exact hs
  | raise e => rintro s hs ⟨⟩; exact hs
  | call o k ih =>
    intro s hs hd
    obtain ⟨⟨r', s₁⟩, hact', hd⟩ := Option.bind_eq_some_iff.1 hd
    exact ih r' s₁ (hs.step (hact _ _ _ _ hact')) hd

/-- The first steps that `act` chooses, so many at most, and what is left then. -/
def driveFor (act : (o : Op) → S → Option (Except ε (Val o) × S)) :
    ℕ → Prog Val ε α → S → Option (Prog Val ε α × S)
  | n + 1, call o k, s => (act o s).bind fun x => (k x.1).driveFor act n x.2
  | _, p, s => some (p, s)

/-- Successive runs of the programs, each left after so many steps. -/
def driveSeries (act : (o : Op) → S → Option (Except ε (Val o) × S)) :
    List (ℕ × Prog Val ε α) → S → Option S
  | [], s => some s
  | (n, p) :: l, s => (p.driveFor act n s).bind fun x => driveSeries act l x.2

theorem driveSeries_append {act : (o : Op) → S → Option (Except ε (Val o) × S)}
    (l m : List (ℕ × Prog Val ε α)) (s : S) :
    driveSeries act (l ++ m) s = (driveSeries act l s).bind (driveSeries act m) := by
  induction l generalizing s with
  | nil => rfl
  | cons x l ih =>
    obtain ⟨n, p⟩ := x
    rw [List.cons_append, driveSeries, driveSeries, Option.bind_assoc]
    exact congrArg _ (funext fun x => ih x.2)

section
variable {M : Type} {abs : M → S} {act : (o : Op) → M → Option (Except ε (Val o) × M)}
  {opens : S → Prog Val ε α → S → Prop} {m m' : M}

theorem Serial.of_driveFor {n : ℕ} {q : Prog Val ε α}
    (hact : ∀ o m r m', act o m = some (r, m') → step o (abs m) r (abs m'))
    (h : Serial step opens s₀ (abs m) p) (hd : p.driveFor act n m = some (q, m')) :
    Serial step opens s₀ (abs m') q := by
  fun_induction driveFor act n p m with
  | case1 n o k m ih =>
    obtain ⟨⟨r, m₁⟩, ha, hd⟩ := Option.bind_eq_some_iff.1 hd
    exact ih (r, m₁) (h.step (hact o m r m₁ ha)) hd
  | case2 n p m =>
    cases hd
    exact h

variable (abs) in
/-- What `driveSeries` gets to, a series of runs gets to. -/
theorem Serial.of_driveSeries {l : List (ℕ × Prog Val ε α)}
    (hact : ∀ o m r m', act o m = some (r, m') → step o (abs m) r (abs m'))
    (hopens : ∀ x ∈ l, ∀ s, opens s x.2 s) (h : Serial step opens s₀ (abs m) p)
    (hd : driveSeries act l m = some m') : ∃ q, Serial step opens s₀ (abs m') q := by
  induction l generalizing p m with
  | nil =>
    cases hd
    exact ⟨p, h⟩
  | cons x l ih =>
    obtain ⟨⟨q, m₁⟩, hq, hd⟩ := Option.bind_eq_some_iff.1 hd
    have hrun := (h.next (hopens x List.mem_cons_self _)).of_driveFor hact hq
    exact ih (fun y hy => hopens y (List.mem_cons_of_mem x hy)) hrun hd

end

variable (step) in
/-- Some run of the program from the state gets to an end: `Q` at a return, `E` at a raise. -/
def Can (Q : α → S → Prop) (E : ε → S → Prop) : Prog Val ε α → S → Prop
  | ret a, s => Q a s
  | raise e, s => E e s
  | call o k, s => ∃ r s', step o s r s' ∧ Can Q E (k r) s'

theorem Can.mono {Q' : α → S → Prop} {E' : ε → S → Prop} (hQ : ∀ a s, Q a s → Q' a s)
    (hE : ∀ e s, E e s → E' e s) (h : p.Can step Q E s) : p.Can step Q' E' s := by
  induction p generalizing s with
  | ret a => exact hQ a s h
  | raise e => exact hE e s h
  | call o k ih =>
    obtain ⟨r, s', hr, h⟩ := h
    exact ⟨r, s', hr, ih r h⟩

theorem can_bind {f : α → Prog Val ε β} {Q : β → S → Prop} :
    (p.bind f).Can step Q E s ↔ p.Can step (fun a s => (f a).Can step Q E s) E s := by
  induction p generalizing s with
  | ret a => exact Iff.rfl
  | raise e => exact Iff.rfl
  | call o k ih => exact exists_congr fun r => exists_congr fun s' => and_congr_right fun _ => ih r

theorem can_handle {h : ε → Prog Val ε α} :
    (p.handle h).Can step Q E s ↔ p.Can step Q (fun e s => (h e).Can step Q E s) s := by
  induction p generalizing s with
  | ret a => exact Iff.rfl
  | raise e => exact Iff.rfl
  | call o k ih => exact exists_congr fun r => exists_congr fun s' => and_congr_right fun _ => ih r

theorem can_catching {Q : Except ε α → S → Prop} :
    p.catching.Can step Q E s ↔
    p.Can step (fun a s => Q (.ok a) s) (fun e s => Q (.error e) s) s := by
  induction p generalizing s with
  | ret a => exact Iff.rfl
  | raise e => exact Iff.rfl
  | call o k ih => exact exists_congr fun r => exists_congr fun s' => and_congr_right fun _ => ih r

theorem can_ensure {fin : Prog Val ε Unit} :
    (p.ensure fin).Can step Q E s ↔
      p.Can step (fun a s => fin.Can step (fun _ s => Q a s) E s)
      (fun e s => fin.Can step (fun _ s => E e s) E s) s := by
  induction p generalizing s with
  | ret a => exact can_bind
  | raise e => exact can_bind
  | call o k ih => exact exists_congr fun r => exists_congr fun s' => and_congr_right fun _ => ih r

/-- An operation may answer with a value. -/
theorem can_perform {o : Op} {v : Val o} {s' : S} {Q : Val o → S → Prop}
    (hstep : step o s (.ok v) s') (hq : Q v s') :
    (perform o).Can step Q E s :=
  ⟨.ok v, s', hstep, hq⟩

theorem Can.exists_steps (h : p₀.Can step Q E s₀) :
    (∃ a s, Steps step p₀ s₀ s (ret a) ∧ Q a s) ∨ ∃ e s, Steps step p₀ s₀ s (raise e) ∧ E e s := by
  suffices hsteps : ∀ (q : Prog Val ε α) s, Steps step p₀ s₀ s q → q.Can step Q E s →
      (∃ a s, Steps step p₀ s₀ s (ret a) ∧ Q a s) ∨ ∃ e s, Steps step p₀ s₀ s (raise e) ∧ E e s from
    hsteps p₀ s₀ .start h
  intro q
  induction q with
  | ret a => exact fun s hs hq => .inl ⟨a, s, hs, hq⟩
  | raise e => exact fun s hs hq => .inr ⟨e, s, hs, hq⟩
  | call o k ih =>
    rintro s hs ⟨r, s', hr, hq⟩
    exact ih r s' (hs.step hr) hq

/-- Where guarded operations can always go on, some run gets to an end. -/
theorem Always.can (hstep : ∀ o s, G o s → ∃ r s', step o s r s') (h : p.Always step G Q E s) :
    p.Can step Q E s := by
  induction p generalizing s with
  | ret a => exact h
  | raise e => exact h
  | call o k ih =>
    obtain ⟨r, s', hr⟩ := hstep o s h.1
    exact ⟨r, s', hr, ih r (h.2 r s' hr)⟩

theorem Always.exists_steps (hstep : ∀ o s, G o s → ∃ r s', step o s r s')
    (h : p₀.Always step G Q E s₀) :
    (∃ a s, Steps step p₀ s₀ s (ret a) ∧ Q a s) ∨ ∃ e s, Steps step p₀ s₀ s (raise e) ∧ E e s :=
  (h.can hstep).exists_steps

end

/-! ## Histories -/

section
variable (env : (o : Op) → Except ε (Val o) → Hist Val ε → Prop)

/-- The operation is answered as `env` allows. -/
def Records (o : Op) (t : Hist Val ε) (r : Except ε (Val o)) (t' : Hist Val ε) : Prop :=
  env o r t ∧ t' = ⟨o, r⟩ :: t

/-- A run of `p₀` after `t₀` has got to the history `t`, and `p` is left. -/
inductive Reaches (p₀ : Prog Val ε α) (t₀ : Hist Val ε) : Hist Val ε → Prog Val ε α → Prop
  | start : Reaches p₀ t₀ t₀ p₀
  | step {t o k r} : Reaches p₀ t₀ t (call o k) → env o r t → Reaches p₀ t₀ (⟨o, r⟩ :: t) (k r)

variable {env} {p₀ p : Prog Val ε α} {t₀ t : Hist Val ε} {G : Op → Hist Val ε → Prop}
  {Q : α → Hist Val ε → Prop} {E : ε → Hist Val ε → Prop}

theorem Always.reaches (h : p₀.Always (Records env) G Q E t₀) (hr : Reaches env p₀ t₀ t p) :
    p.Always (Records env) G Q E t := by
  induction hr with
  | start => exact h
  | step _ henv ih => exact ih.2 _ _ ⟨henv, rfl⟩

/-- Performing an operation, in terms of the history. -/
theorem always_event {o : Op} {Q : Val o → Hist Val ε → Prop} (hg : G o t)
    (hok : ∀ v, env o (.ok v) t → Q v (⟨o, .ok v⟩ :: t))
    (herr : ∀ e, env o (.error e) t → E e (⟨o, .error e⟩ :: t)) :
    (perform o).Always (Records env) G Q E t := by
  refine always_perform.2 ⟨hg, ?_, ?_⟩
  · rintro v _ ⟨henv, rfl⟩
    exact hok v henv
  · rintro e _ ⟨henv, rfl⟩
    exact herr e henv

end

/-! ## Successive runs -/

section
variable (P : (o : Op) → Except ε (Val o) → Hist Val ε → Prop)

/-- Every event of the history satisfies `P`, with the history before it. -/
def Each : Hist Val ε → Prop
  | [] => True
  | e :: t => P e.1 e.2 t ∧ Each t

variable (env : (o : Op) → Except ε (Val o) → Hist Val ε → Prop) (progs : Prog Val ε α → Prop)

/-- Runs of programs, one after the other, each up to some point. -/
inductive Sessions : Hist Val ε → Prop
  | nil : Sessions []
  | run {t t' p₀ p} : Sessions t → progs p₀ → Reaches env p₀ t t' p → Sessions t'

variable {P env progs} {p₀ p : Prog Val ε α} {t₀ t : Hist Val ε} {G : Op → Hist Val ε → Prop}
  {Q : α → Hist Val ε → Prop} {E : ε → Hist Val ε → Prop}

/-- What precedes an event of the history. -/
theorem Each.of_append {t₁ t₂ : Hist Val ε} (h : Each P (t₁ ++ t₂)) : Each P t₂ := by
  induction t₁ with
  | nil => exact h
  | cons e t₁ ih => exact ih h.2

theorem Each.mono {P' : (o : Op) → Except ε (Val o) → Hist Val ε → Prop}
    (hP : ∀ o r t, P o r t → P' o r t) (h : Each P t) : Each P' t := by
  induction t with
  | nil => trivial
  | cons e t ih => exact ⟨hP _ _ _ h.1, ih h.2⟩

/-- The events of a run are allowed by the environment and guarded by the specification. -/
theorem Always.each (h : p₀.Always (Records env) G Q E t₀) (hr : Reaches env p₀ t₀ t p)
    (h₀ : Each (fun o r t => env o r t ∧ G o t) t₀) : Each (fun o r t => env o r t ∧ G o t) t := by
  induction hr with
  | start => exact h₀
  | step hr henv ih => exact ⟨⟨henv, (h.reaches hr).1⟩, ih⟩

/-- **The rule for successive runs**: what every run guards, whatever such runs were before
    it, all of them guard. -/
theorem Sessions.each
    (hrun : ∀ p₀, progs p₀ → ∀ t₀, Each (fun o r t => env o r t ∧ G o t) t₀ →
      p₀.Always (Records env) G (fun _ _ => True) (fun _ _ => True) t₀)
    (h : Sessions env progs t) : Each (fun o r t => env o r t ∧ G o t) t := by
  induction h with
  | nil => trivial
  | run _ hp hr ih => exact (hrun _ hp _ ih).each hr ih

end

/-! ## Guards that hold everywhere -/

section
variable {S : Type} (step : (o : Op) → S → Except ε (Val o) → S → Prop) (G : Op → S → Prop)

/-- From every state the program performs only what is guarded. -/
def Everywhere (p : Prog Val ε α) : Prop :=
  ∀ s, p.Always step G (fun _ _ => True) (fun _ _ => True) s

variable {step G}

theorem Everywhere.bind {p : Prog Val ε α} {f : α → Prog Val ε β} (hp : Everywhere step G p)
    (hf : ∀ a, Everywhere step G (f a)) : Everywhere step G (p.bind f) := fun s =>
  always_bind.2 (Always.mono (fun _ _ h => h) (fun a s _ => hf a s) (fun _ _ h => h) (hp s))

theorem Everywhere.catching {p : Prog Val ε α} (hp : Everywhere step G p) :
    Everywhere step G p.catching :=
  fun s => always_catching.2 (hp s)

theorem Everywhere.iterate {f : α → Prog Val ε (α ⊕ β)}
    (hf : ∀ a, Everywhere step G (f a)) {n : ℕ} {a : α} :
    Everywhere step G (iterate f n a) := by
  induction n generalizing a with
  | zero => exact fun _ => trivial
  | succ n ih =>
    refine (hf a).bind fun x => ?_
    cases x with
    | inl a' => exact ih
    | inr b => exact fun _ => trivial

/-- Programs whose operations are guarded in every state. -/
theorem Everywhere.of_uses {A : Op → Prop} {p : Prog Val ε α} (hp : p.Uses A)
    (hA : ∀ o s, A o → G o s) :
    Everywhere step G p := fun _ =>
  Always.of_uses (J := fun _ => True) hp (fun o s ho _ => ⟨hA o s ho, fun _ _ _ => trivial⟩) trivial

end

/-! ## Implementing operations -/

section
variable {Op' : Type} {Val' : Op' → Type} (impl : (o : Op) → Prog Val' ε (Val o))

/-- The program with every operation replaced by its implementation. -/
def lower : Prog Val ε α → Prog Val' ε α
  | ret a => ret a
  | raise e => raise e
  | call o k => (impl o).catching.bind fun r => (k r).lower

variable {impl} {S S' : Type} {step : (o : Op) → S → Except ε (Val o) → S → Prop}
  {step' : (o : Op') → S' → Except ε (Val' o) → S' → Prop} {G : Op → S → Prop}
    {G' : Op' → S' → Prop}
  {Q : α → S → Prop} {E : ε → S → Prop}

/-- **Implementing the operations keeps a specification**: if `R` relates the states, and
    every implementation that starts where its operation is performed does what the
    operation is specified to do, then so does the whole program. -/
theorem Always.lower (R : S → S' → Prop)
    (himpl : ∀ o s s', R s s' → G o s → (impl o).Always step' G'
      (fun v s₁' => ∃ s₁, step o s (.ok v) s₁ ∧ R s₁ s₁')
      (fun e s₁' => ∃ s₁, step o s (.error e) s₁ ∧ R s₁ s₁') s')
    {p : Prog Val ε α} {s : S} {s' : S'} (h : p.Always step G Q E s) (hR : R s s') :
    (p.lower impl).Always step' G' (fun a s' => ∃ s, R s s' ∧ Q a s)
    (fun e s' => ∃ s, R s s' ∧ E e s) s' := by
  induction p generalizing s s' with
  | ret a => exact ⟨s, hR, h⟩
  | raise e => exact ⟨s, hR, h⟩
  | call o k ih =>
    obtain ⟨hg, hk⟩ := h
    refine always_bind.2 (always_catching.2
      (Always.mono (fun _ _ h => h) ?_ ?_ (himpl o s s' hR hg)))
    · rintro v s₁' ⟨s₁, hs, hR'⟩
      exact ih _ (hk _ _ hs) hR'
    · rintro e s₁' ⟨s₁, hs, hR'⟩
      exact ih _ (hk _ _ hs) hR'

end

/-! ## Runs in one environment -/

section
variable (env : (o : Op) → Hist Val ε → Except ε (Val o))

/-- The outcome and the history of a run whose environment answers by `env`. -/
def exec : Prog Val ε α → Hist Val ε → Except ε α × Hist Val ε
  | ret a, t => (.ok a, t)
  | raise e, t => (.error e, t)
  | call o k, t => exec (k (env o t)) (⟨o, env o t⟩ :: t)

/-- The run in an environment that answers as `rel` allows gets to its end. -/
theorem exec_reaches {rel : (o : Op) → Except ε (Val o) → Hist Val ε → Prop}
    (henv : ∀ o t, rel o (env o t) t) (p : Prog Val ε α) (t : Hist Val ε) :
    Reaches rel p t (p.exec env t).2 (ofExcept (p.exec env t).1) := by
  suffices h : ∀ (q : Prog Val ε α) t₁, Reaches rel p t t₁ q →
      Reaches rel p t (q.exec env t₁).2 (ofExcept (q.exec env t₁).1) from h p t .start
  intro q
  induction q with
  | ret a => exact fun t₁ h => h
  | raise e => exact fun t₁ h => h
  | call o k ih => exact fun t₁ h => ih _ _ (h.step (henv o t₁))

/-- What the environment answers, the history of a run shows. -/
theorem exec_answers {good : (o : Op) → Except ε (Val o) → Prop} {sel : Op → Bool}
    (henv : ∀ o t, sel o = true → good o (env o t)) (p : Prog Val ε α) :
    ∀ e ∈ (p.exec env []).2, sel e.1 = true → good e.1 e.2 := by
  suffices h : ∀ (p : Prog Val ε α) t, (∀ e ∈ t, sel e.1 = true → good e.1 e.2) →
      ∀ e ∈ (p.exec env t).2, sel e.1 = true → good e.1 e.2 from h p [] fun e he => by cases he
  intro p
  induction p with
  | ret a => exact fun t ht => ht
  | raise e => exact fun t ht => ht
  | call o k ih =>
    refine fun t ht => ih _ _ fun e he => ?_
    rcases List.mem_cons.1 he with rfl | he
    · exact henv o t
    · exact ht e he

variable (erased : Op → Bool) (good : (o : Op) → Except ε (Val o) → Prop)

/-- `q` is `p` without the erased operations: wherever they answer well, `p` goes on
    alike. -/
inductive Erases : Prog Val ε α → Prog Val ε α → Prop
  | ret (a) : Erases (ret a) (ret a)
  | raise (e) : Erases (raise e) (raise e)
  | keep {o k k'} : erased o = false → (∀ r, Erases (k r) (k' r)) → Erases (call o k) (call o k')
  | skip {o k q} : erased o = true → (∀ r, good o r → Erases (k r) q) → Erases (call o k) q

variable {env erased good}

theorem Erases.refl {p : Prog Val ε α} (h : p.Uses (erased · = false)) :
    Erases erased good p p := by
  induction p with
  | ret a => exact .ret a
  | raise e => exact .raise e
  | call o k ih => exact .keep h.1 fun r => ih r (h.2 r)

theorem Erases.bind {p q : Prog Val ε α} {f g : α → Prog Val ε β} (h : Erases erased good p q)
    (hf : ∀ a, Erases erased good (f a) (g a)) : Erases erased good (p.bind f) (q.bind g) := by
  induction h with
  | ret a => exact hf a
  | raise e => exact .raise e
  | keep ho _ ih => exact .keep ho ih
  | skip ho _ ih => exact .skip ho ih

theorem Erases.catching {p q : Prog Val ε α} (h : Erases erased good p q) :
    Erases erased good p.catching q.catching := by
  induction h with
  | ret a => exact .ret _
  | raise e => exact .ret _
  | keep ho _ ih => exact .keep ho ih
  | skip ho _ ih => exact .skip ho ih

theorem Erases.handle {p q : Prog Val ε α} {f g : ε → Prog Val ε α} (h : Erases erased good p q)
    (hf : ∀ e, Erases erased good (f e) (g e)) : Erases erased good (p.handle f) (q.handle g) := by
  induction h with
  | ret a => exact .ret a
  | raise e => exact hf e
  | keep ho _ ih => exact .keep ho ih
  | skip ho _ ih => exact .skip ho ih

theorem Erases.ensure {p q : Prog Val ε α} {f g : Prog Val ε Unit} (h : Erases erased good p q)
    (hf : Erases erased good f g) : Erases erased good (p.ensure f) (q.ensure g) := by
  induction h with
  | ret a => exact hf.bind fun _ => .ret a
  | raise e => exact hf.bind fun _ => .raise e
  | keep ho _ ih => exact .keep ho ih
  | skip ho _ ih => exact .skip ho ih

theorem Erases.iterate {f g : α → Prog Val ε (α ⊕ β)} (h : ∀ a, Erases erased good (f a) (g a))
    {n : ℕ} {a : α} : Erases erased good (iterate f n a) (iterate g n a) := by
  induction n generalizing a with
  | zero => exact .ret none
  | succ n ih =>
    refine (h a).bind fun x => ?_
    cases x with
    | inl a' => exact ih
    | inr b => exact .ret (some b)

/-- The history without the erased operations. -/
def kept (erased : Op → Bool) (t : Hist Val ε) : Hist Val ε := t.filter fun e => !erased e.1

/-- The history of a run begins with that before it. -/
theorem exec_suffix (p : Prog Val ε α) (t : Hist Val ε) : t <:+ (p.exec env t).2 := by
  induction p generalizing t with
  | ret a => exact List.suffix_refl t
  | raise e => exact List.suffix_refl t
  | call o k ih => exact (List.suffix_cons _ t).trans (ih _ _)

/-- **The erased operations change nothing else**: if their answers are good in the run of
    `p`, and the environment answers the other operations without regard to them, then
    `q` has the same outcome and makes the same other calls. -/
theorem Erases.exec {env' : (o : Op) → Hist Val ε → Except ε (Val o)} {p q : Prog Val ε α}
    (h : Erases erased good p q) {t : Hist Val ε}
    (henv : ∀ o t, erased o = false → env o t = env' o (kept erased t))
    (hgood : ∀ e ∈ (p.exec env t).2, erased e.1 = true → good e.1 e.2) :
    q.exec env' (kept erased t) = ((p.exec env t).1, kept erased (p.exec env t).2) := by
  induction h generalizing t with
  | ret a => rfl
  | raise e => rfl
  | @keep o k k' ho _ ih =>
    have hkept : kept erased (⟨o, env o t⟩ :: t) = ⟨o, env o t⟩ :: kept erased t := by
      simp [kept, ho]
    simp only [Prog.exec]
    rw [← henv o t ho, ← ih (env o t) (t := ⟨o, env o t⟩ :: t) hgood, hkept]
  | @skip o k q ho _ ih =>
    have hmem : (⟨o, env o t⟩ : Event Val ε) ∈ ((k (env o t)).exec env (⟨o, env o t⟩ :: t)).2 :=
      (exec_suffix _ _).subset List.mem_cons_self
    have hkept : kept erased (⟨o, env o t⟩ :: t) = kept erased t := by
      simp [kept, ho]
    have hrest := ih (env o t) (hgood _ hmem ho) (t := ⟨o, env o t⟩ :: t) hgood
    rw [hkept] at hrest
    exact hrest

end

end Prog

end Interleave

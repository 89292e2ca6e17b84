/-
  Interleave — sequential programs over atomic operations.

  A program (`Prog`) returns a value, raises an exception, or performs one
  operation and continues with its answer, which is a value or an exception.
  Operations have no meaning here: `Val o` is the type of the value `o` answers.

  * `bind`, `handle`, `ensure`: sequencing, `try … except`, `try … finally`;
  * `Always step G Q E p s`: along every run of `p` from `s` in which operations
    move the state by `step`, the guard `G` holds before each operation, `Q` when
    `p` returns and `E` when it raises.  The rules `always_bind`, `always_handle`,
    `always_ensure` compose specifications along the program text;
  * `Uses A p`: every operation `p` may perform satisfies `A`
    (`Always.of_uses`: what all these operations keep, `p` keeps).
-/
import Mathlib.Data.Nat.Notation
import Mathlib.Logic.Function.Basic

namespace Interleave

/-- A program over operations `Op`: `o` answers a value of type `Val o` or an
    exception `ε`. -/
inductive Prog {Op : Type} (Val : Op → Type) (ε α : Type) where
  | ret (a : α)
  | raise (e : ε)
  | call (o : Op) (k : Except ε (Val o) → Prog Val ε α)

namespace Prog
variable {Op : Type} {Val : Op → Type} {ε α β : Type}

/-- Run `p`, then `f` on its value. -/
def bind : Prog Val ε α → (α → Prog Val ε β) → Prog Val ε β
  | ret a, f => f a
  | raise e, _ => raise e
  | call o k, f => call o fun r => (k r).bind f

instance : Monad (Prog Val ε) where
  pure := ret
  bind := bind

/-- The program that has ended with the outcome. -/
def ofExcept : Except ε α → Prog Val ε α
  | .ok a => ret a
  | .error e => raise e

/-- Perform `o`; its exception is raised. -/
def perform (o : Op) : Prog Val ε (Val o) :=
  call o fun
    | .ok v => ret v
    | .error e => raise e

/-- Perform `o`; its exception is a value. -/
def attempt (o : Op) : Prog Val ε (Except ε (Val o)) := call o ret

/-- `try p except e: h e`. -/
def handle : Prog Val ε α → (ε → Prog Val ε α) → Prog Val ε α
  | ret a, _ => ret a
  | raise e, h => h e
  | call o k, h => call o fun r => (k r).handle h

instance : MonadExcept ε (Prog Val ε) := ⟨raise, handle⟩

/-- `try p finally fin`: an exception of `fin` replaces the outcome of `p`. -/
def ensure : Prog Val ε α → Prog Val ε Unit → Prog Val ε α
  | ret a, fin => fin.bind fun _ => ret a
  | raise e, fin => fin.bind fun _ => raise e
  | call o k, fin => call o fun r => (k r).ensure fin

@[simp] theorem pure_eq (a : α) : (pure a : Prog Val ε α) = ret a := rfl
@[simp] theorem bind_eq (p : Prog Val ε α) (f : α → Prog Val ε β) : p >>= f = p.bind f := rfl
@[simp] theorem ret_bind (a : α) (f : α → Prog Val ε β) : (ret a).bind f = f a := rfl
@[simp] theorem raise_bind (e : ε) (f : α → Prog Val ε β) : (raise e).bind f = raise e := rfl
@[simp] theorem throw_eq (e : ε) : (throw e : Prog Val ε α) = raise e := rfl
@[simp] theorem tryCatch_eq (p : Prog Val ε α) (h : ε → Prog Val ε α) :
    tryCatch p h = p.handle h := rfl

@[simp] theorem ofExcept_eq (r : Except ε α) :
    (MonadExcept.ofExcept r : Prog Val ε α) = ofExcept r := by
  cases r <;> rfl

/-! ## Specifications -/

section
variable {S : Type} (step : (o : Op) → S → Except ε (Val o) → S → Prop)

/-- Along every run of `p` from `s`: `G` before each operation, `Q` at a return,
    `E` at a raise. -/
def Always (G : Op → S → Prop) (Q : α → S → Prop) (E : ε → S → Prop) :
    Prog Val ε α → S → Prop
  | ret a, s => Q a s
  | raise e, s => E e s
  | call o k, s => G o s ∧ ∀ r s', step o s r s' → Always G Q E (k r) s'

variable {step} {G G' : Op → S → Prop} {Q Q' : α → S → Prop} {E E' : ε → S → Prop} {s : S}

@[simp] theorem always_ret {a : α} : (ret a : Prog Val ε α).Always step G Q E s ↔ Q a s := Iff.rfl

@[simp] theorem always_raise {e : ε} : (raise e : Prog Val ε α).Always step G Q E s ↔ E e s :=
  Iff.rfl

theorem always_call {o : Op} {k : Except ε (Val o) → Prog Val ε α} :
    (call o k).Always step G Q E s ↔
      G o s ∧ ∀ r s', step o s r s' → (k r).Always step G Q E s' := Iff.rfl

theorem always_perform {o : Op} {Q : Val o → S → Prop} :
    (perform o).Always step G Q E s ↔
      G o s ∧ (∀ v s', step o s (.ok v) s' → Q v s') ∧ ∀ e s', step o s (.error e) s' → E e s' := by
  constructor
  · rintro ⟨hg, h⟩
    exact ⟨hg, fun v s' hs => h _ s' hs, fun e s' hs => h _ s' hs⟩
  · rintro ⟨hg, hok, herr⟩
    refine ⟨hg, fun r s' hs => ?_⟩
    cases r with
    | ok v => exact hok v s' hs
    | error e => exact herr e s' hs

theorem always_attempt {o : Op} {Q : Except ε (Val o) → S → Prop} :
    (attempt o).Always step G Q E s ↔ G o s ∧ ∀ r s', step o s r s' → Q r s' := Iff.rfl

theorem Always.mono {p : Prog Val ε α} (hG : ∀ o s, G o s → G' o s) (hQ : ∀ a s, Q a s → Q' a s)
    (hE : ∀ e s, E e s → E' e s) (h : p.Always step G Q E s) : p.Always step G' Q' E' s := by
  induction p generalizing s with
  | ret a => exact hQ a s h
  | raise e => exact hE e s h
  | call o k ih => exact ⟨hG o s h.1, fun r s' hs => ih r (h.2 r s' hs)⟩

/-- The specification that says nothing. -/
theorem always_true {p : Prog Val ε α} :
    p.Always step (fun _ _ => True) (fun _ _ => True) (fun _ _ => True) s := by
  induction p generalizing s with
  | ret a => trivial
  | raise e => trivial
  | call o k ih => exact ⟨trivial, fun r s' _ => ih r⟩

/-- A specification holds in an environment that answers less. -/
theorem Always.restrict {step' : (o : Op) → S → Except ε (Val o) → S → Prop} {p : Prog Val ε α}
    (hstep : ∀ o s r s', step' o s r s' → step o s r s') (h : p.Always step G Q E s) :
    p.Always step' G Q E s := by
  induction p generalizing s with
  | ret a => exact h
  | raise e => exact h
  | call o k ih => exact ⟨h.1, fun r s' hs => ih r (h.2 r s' (hstep o s r s' hs))⟩

/-- A specification over a view of the state holds over the state. -/
theorem Always.of_view {L : Type} {view : S → L} {upd : (o : Op) → L → Except ε (Val o) → L → Prop}
    {G : Op → L → Prop} {Q : α → L → Prop} {E : ε → L → Prop} {p : Prog Val ε α}
    (hstep : ∀ o s r s', step o s r s' → upd o (view s) r (view s'))
    (h : p.Always upd G Q E (view s)) :
    p.Always step (fun o s => G o (view s)) (fun a s => Q a (view s))
    (fun e s => E e (view s)) s := by
  induction p generalizing s with
  | ret a => exact h
  | raise e => exact h
  | call o k ih => exact ⟨h.1, fun r s' hs => ih r (h.2 r (view s') (hstep o s r s' hs))⟩

/-- The guards and postconditions of two specifications hold together. -/
theorem Always.and {p : Prog Val ε α} (h : p.Always step G Q E s) (h' : p.Always step G' Q' E' s) :
    p.Always step (fun o s => G o s ∧ G' o s) (fun a s => Q a s ∧ Q' a s)
      (fun e s => E e s ∧ E' e s) s := by
  induction p generalizing s with
  | ret a => exact ⟨h, h'⟩
  | raise e => exact ⟨h, h'⟩
  | call o k ih =>
    exact ⟨⟨h.1, h'.1⟩, fun r s' hs => ih r (h.2 r s' hs) (h'.2 r s' hs)⟩

/-- What every guarded step keeps, a guarded run keeps. -/
theorem Always.keeping {p : Prog Val ε α} {J : S → Prop}
    (hJ : ∀ o s r s', J s → G o s → step o s r s' → J s') (h : p.Always step G Q E s) (hs : J s) :
    p.Always step (fun o s => J s ∧ G o s) (fun a s => J s ∧ Q a s) (fun e s => J s ∧ E e s) s := by
  induction p generalizing s with
  | ret a => exact ⟨hs, h⟩
  | raise e => exact ⟨hs, h⟩
  | call o k ih => exact ⟨⟨hs, h.1⟩, fun r s' hstep =>
    ih r (h.2 r s' hstep) (hJ o s r s' hs h.1 hstep)⟩

/-- What holds before every operation and at the end of a program holds now. -/
theorem Always.now {J : S → Prop} {p : Prog Val ε α}
    (h : p.Always step (fun _ s => J s) (fun _ s => J s) (fun _ s => J s) s) : J s := by
  cases p with
  | ret a => exact h
  | raise e => exact h
  | call o k => exact h.1

/-- Where operations can always go on, some run gets to an end. -/
theorem Always.exists_end {J : S → Prop} {p : Prog Val ε α}
    (hstep : ∀ o s, J s → G o s → ∃ r s', step o s r s' ∧ J s')
    (h : p.Always step G Q E s) (hs : J s) :
    (∃ a s', Q a s') ∨ ∃ e s', E e s' := by
  induction p generalizing s with
  | ret a => exact .inl ⟨a, s, h⟩
  | raise e => exact .inr ⟨e, s, h⟩
  | call o k ih =>
    obtain ⟨r, s', hstep', hs'⟩ := hstep o s hs h.1
    exact ih r (h.2 r s' hstep') hs'

theorem always_bind {p : Prog Val ε α} {f : α → Prog Val ε β} {Q : β → S → Prop} :
    (p.bind f).Always step G Q E s ↔
      p.Always step G (fun a s => (f a).Always step G Q E s) E s := by
  induction p generalizing s with
  | ret a => exact Iff.rfl
  | raise e => exact Iff.rfl
  | call o k ih =>
    exact and_congr_right fun _ => forall_congr' fun r => forall_congr' fun s' =>
      imp_congr_right fun _ => ih r

/-- Where only the value counts, only the last part does. -/
theorem always_bind_last {p : Prog Val ε α} {f : α → Prog Val ε β} {Q : β → S → Prop}
    (hf : ∀ a s, (f a).Always step (fun _ _ => True) Q (fun _ _ => True) s) :
    (p.bind f).Always step (fun _ _ => True) Q (fun _ _ => True) s :=
  always_bind.2 (always_true.mono (fun _ _ h => h) (fun a s _ => hf a s) fun _ _ h => h)

theorem always_handle {p : Prog Val ε α} {h : ε → Prog Val ε α} :
    (p.handle h).Always step G Q E s ↔
      p.Always step G Q (fun e s => (h e).Always step G Q E s) s := by
  induction p generalizing s with
  | ret a => exact Iff.rfl
  | raise e => exact Iff.rfl
  | call o k ih =>
    exact and_congr_right fun _ => forall_congr' fun r => forall_congr' fun s' =>
      imp_congr_right fun _ => ih r

theorem always_ensure {p : Prog Val ε α} {fin : Prog Val ε Unit} :
    (p.ensure fin).Always step G Q E s ↔
      p.Always step G (fun a s => fin.Always step G (fun _ s => Q a s) E s)
        (fun e s => fin.Always step G (fun _ s => E e s) E s) s := by
  induction p generalizing s with
  | ret a => exact always_bind
  | raise e => exact always_bind
  | call o k ih =>
    exact and_congr_right fun _ => forall_congr' fun r => forall_congr' fun s' =>
      imp_congr_right fun _ => ih r

end

/-! ## The operations of a program -/

/-- Every operation of the program satisfies `A`. -/
def Uses (A : Op → Prop) : Prog Val ε α → Prop
  | ret _ => True
  | raise _ => True
  | call o k => A o ∧ ∀ r, (k r).Uses A

section
variable {A A' : Op → Prop}

@[simp] theorem uses_ret {a : α} : (ret a : Prog Val ε α).Uses A := trivial
@[simp] theorem uses_raise {e : ε} : (raise e : Prog Val ε α).Uses A := trivial

theorem uses_perform {o : Op} (h : A o) : (perform o : Prog Val ε (Val o)).Uses A :=
  ⟨h, fun r => by cases r <;> trivial⟩

theorem uses_attempt {o : Op} (h : A o) : (attempt o : Prog Val ε _).Uses A := ⟨h, fun _ => trivial⟩

theorem uses_of_forall (hA : ∀ o, A o) (p : Prog Val ε α) : p.Uses A := by
  induction p with
  | ret a => trivial
  | raise e => trivial
  | call o k ih => exact ⟨hA o, ih⟩

theorem Uses.mono {p : Prog Val ε α} (h : p.Uses A) (hA : ∀ o, A o → A' o) : p.Uses A' := by
  induction p with
  | ret a => trivial
  | raise e => trivial
  | call o k ih => exact ⟨hA o h.1, fun r => ih r (h.2 r)⟩

theorem Uses.bind {p : Prog Val ε α} {f : α → Prog Val ε β} (hp : p.Uses A)
    (hf : ∀ a, (f a).Uses A) : (p.bind f).Uses A := by
  induction p with
  | ret a => exact hf a
  | raise e => trivial
  | call o k ih => exact ⟨hp.1, fun r => ih r (hp.2 r)⟩

theorem Uses.handle {p : Prog Val ε α} {h : ε → Prog Val ε α} (hp : p.Uses A)
    (hh : ∀ e, (h e).Uses A) : (p.handle h).Uses A := by
  induction p with
  | ret a => trivial
  | raise e => exact hh e
  | call o k ih => exact ⟨hp.1, fun r => ih r (hp.2 r)⟩

theorem Uses.ensure {p : Prog Val ε α} {fin : Prog Val ε Unit} (hp : p.Uses A)
    (hf : fin.Uses A) : (p.ensure fin).Uses A := by
  induction p with
  | ret a => exact hf.bind fun _ => trivial
  | raise e => exact hf.bind fun _ => trivial
  | call o k ih => exact ⟨hp.1, fun r => ih r (hp.2 r)⟩

/-- **What all operations of a program keep, the program keeps.** -/
theorem Always.of_uses {S : Type} {step : (o : Op) → S → Except ε (Val o) → S → Prop}
    {G : Op → S → Prop} {J : S → Prop} {p : Prog Val ε α} (hp : p.Uses A)
    (hA : ∀ o s, A o → J s → G o s ∧ ∀ r s', step o s r s' → J s') {s : S} (hs : J s) :
    p.Always step G (fun _ => J) (fun _ => J) s := by
  induction p generalizing s with
  | ret a => exact hs
  | raise e => exact hs
  | call o k ih =>
    obtain ⟨hg, hk⟩ := hA o s hp.1 hs
    exact ⟨hg, fun r s' h => ih r (hp.2 r) (hk r s' h)⟩

end

end Prog

end Interleave

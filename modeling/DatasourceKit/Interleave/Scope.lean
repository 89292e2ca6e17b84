/-
  Interleave — programs with variables.

  A variable keeps its value when an exception is raised, and the handler sees it.

  * `Scope Val ε V`: programs over operations and the variables `V`; `Scope.perform`,
    `Scope.close`;
  * `Scope.Does step G Q E x v s`: along every run of `x` from the variables `v` and the state `s`,
    `G` before each operation, `Q` at a return and `E` at an exception.  The rules `does_bind`,
    `does_tryCatch`, `does_forM` compose specifications along the program text.
-/
import DatasourceKit.Interleave.Prog

namespace Interleave

variable {Op : Type} {Val : Op → Type} {ε α β V S : Type}

/-- A program over the variables `V`. -/
abbrev Scope (Val : Op → Type) (ε V : Type) := ExceptT ε (StateT V (Prog Val ε))

namespace Scope

/-- Perform `o`; its exception is raised. -/
def perform (o : Op) : Scope Val ε V (Val o) := fun v => .call o fun r => .ret (r, v)

/-- The program that begins with the variables `v`. -/
def close (x : Scope Val ε V α) (v : V) : Prog Val ε α :=
  (StateT.run x v).bind fun r => .ofExcept r.1

section
variable (step : (o : Op) → S → Except ε (Val o) → S → Prop)

/-- A postcondition: `Q` for a value, `E` for an exception. -/
def Outcome (Q : α → V → S → Prop) (E : ε → V → S → Prop) : Except ε α × V → S → Prop
  | (.ok a, v), s => Q a v s
  | (.error e, v), s => E e v s

/-- Along every run of `x`: `G` before each operation, `Q` at a return, `E` at an exception. -/
def Does (G : Op → S → Prop) (Q : α → V → S → Prop) (E : ε → V → S → Prop)
    (x : Scope Val ε V α) (v : V) (s : S) : Prop :=
  (StateT.run x v).Always step G (Outcome Q E) (fun _ _ => False) s

variable {step} {G G' : Op → S → Prop} {Q Q' : α → V → S → Prop}
  {E E' : ε → V → S → Prop} {v : V} {s : S}

@[simp] theorem does_pure {a : α} : Does step G Q E (pure a) v s ↔ Q a v s := Iff.rfl

@[simp] theorem does_throw {e : ε} : Does step G Q E (throw e) v s ↔ E e v s := Iff.rfl

theorem does_ofExcept {r : Except ε α} : Does step G Q E (MonadExcept.ofExcept r) v s ↔
    Outcome Q E (r, v) s := by
  cases r <;> exact Iff.rfl

theorem does_get {Q : V → V → S → Prop} : Does step G Q E get v s ↔ Q v v s := Iff.rfl

theorem does_modify {f : V → V} {Q : Unit → V → S → Prop} :
    Does step G Q E (modify f) v s ↔ Q () (f v) s := Iff.rfl

theorem does_perform {o : Op} {Q : Val o → V → S → Prop} :
    Does step G Q E (perform o) v s ↔
      G o s ∧ (∀ a s', step o s (.ok a) s' → Q a v s') ∧
      ∀ e s', step o s (.error e) s' → E e v s' := by
  constructor
  · rintro ⟨hg, h⟩
    exact ⟨hg, fun a s' hs => h _ s' hs, fun e s' hs => h _ s' hs⟩
  · rintro ⟨hg, hok, herr⟩
    refine ⟨hg, fun r s' hs => ?_⟩
    cases r with
    | ok a => exact hok a s' hs
    | error e => exact herr e s' hs

theorem Does.mono {x : Scope Val ε V α} (hG : ∀ o s, G o s → G' o s)
    (hQ : ∀ a v s, Q a v s → Q' a v s) (hE : ∀ e v s, E e v s → E' e v s)
    (h : Does step G Q E x v s) : Does step G' Q' E' x v s := by
  refine Prog.Always.mono hG ?_ (fun _ _ h => h) h
  rintro ⟨e | a, v⟩ s hr
  · exact hE e v s hr
  · exact hQ a v s hr

/-- Equivalent postconditions. -/
theorem always_congr {p : Prog Val ε α} {Q Q' : α → S → Prop} {E : ε → S → Prop}
    (hQ : ∀ a s, Q a s ↔ Q' a s) :
    p.Always step G Q E s ↔ p.Always step G Q' E s := by
  constructor
  · exact Prog.Always.mono (fun _ _ h => h) (fun a s => (hQ a s).1) fun _ _ h => h
  · exact Prog.Always.mono (fun _ _ h => h) (fun a s => (hQ a s).2) fun _ _ h => h

theorem does_bind {x : Scope Val ε V α} {f : α → Scope Val ε V β} {Q : β → V → S → Prop} :
    Does step G Q E (x >>= f) v s ↔
    Does step G (fun a v s => Does step G Q E (f a) v s) E x v s := by
  refine Prog.always_bind.trans (always_congr ?_)
  rintro ⟨e | a, v⟩ s
  · exact Iff.rfl
  · exact Iff.rfl

theorem does_tryCatch {x : Scope Val ε V α} {h : ε → Scope Val ε V α} :
    Does step G Q E (tryCatch x h) v s ↔
    Does step G Q (fun e v s => Does step G Q E (h e) v s) x v s := by
  refine Prog.always_bind.trans (always_congr ?_)
  rintro ⟨e | a, v⟩ s
  · exact Iff.rfl
  · exact Iff.rfl

/-- The rule for loops over a list: `I l` holds before the rest `l`, and `E` where a round
    raises. -/
theorem does_forM {γ : Type} {body : γ → Scope Val ε V PUnit} {I : List γ → V → S → Prop}
    (hbody : ∀ c l v s, I (c :: l) v s → Does step G (fun _ => I l) E (body c) v s)
    {l : List γ} (h : I l v s) :
    Does step G (fun _ => I []) E (l.forM body) v s := by
  induction l generalizing v s with
  | nil => exact h
  | cons c l ih => exact does_bind.2 ((hbody c l v s h).mono (fun _ _ h => h) (fun _ _ _ h => ih h)
    fun _ _ _ h => h)

/-- A program from its first variables on. -/
theorem Does.close {x : Scope Val ε V α} {Q : α → S → Prop} {E : ε → S → Prop}
    (h : Does step G (fun a _ => Q a) (fun e _ => E e) x v s) :
    (x.close v).Always step G Q E s := by
  refine Prog.always_bind.2 (Prog.Always.mono (fun _ _ h => h) ?_ (fun _ _ h => h.elim) h)
  rintro ⟨e | a, v⟩ s hr
  · exact hr
  · exact hr

end

end Scope

end Interleave

/-
  Interleave — families of states, and the moments of a call.

  * `Prog.embed`: a program as one over more operations; `Indexed ι Op`: an operation on one member
    of a family; `Prog.member i p`: the program `p` on the member `i`; with their rules;
  * `Machine.Reach.moments`: what a thread has performed since a configuration of a run is a
    history of its program, and every event of it took place in a step of the run;
  * `Machine.Reach.returns`: what all returns of a call satisfy.
-/
import DatasourceKit.Interleave.History
import DatasourceKit.Interleave.Pool

namespace Interleave

variable {Op ι : Type} {Val : Op → Type} {ε α S Call Ch : Type}

/-! ## Families -/

/-- An operation on the member `index` of a family. -/
structure Indexed (ι Op : Type) where
  index : ι
  op : Op

/-- What an operation on a member answers. -/
abbrev IndexedVal (Val : Op → Type) (o : Indexed ι Op) : Type := Val o.op

namespace Prog

section
variable {Op' : Type} {Val' : Op' → Type} {f : Op → Op'} {p : Prog (fun o => Val' (f o)) ε α}

/-- The program as one over more operations. -/
def embed (f : Op → Op') : Prog (fun o => Val' (f o)) ε α → Prog Val' ε α
  | ret a => ret a
  | raise e => raise e
  | call o k => .call (f o) fun r => (k r).embed f

theorem always_embed {step : (o : Op') → S → Except ε (Val' o) → S → Prop} {G : Op' → S → Prop}
    {Q : α → S → Prop} {E : ε → S → Prop} {s : S} :
    (p.embed f).Always step G Q E s ↔ p.Always (fun o => step (f o)) (fun o => G (f o)) Q E s := by
  induction p generalizing s with
  | ret a => exact Iff.rfl
  | raise e => exact Iff.rfl
  | call o k ih =>
    exact and_congr_right fun _ => forall_congr' fun r => forall_congr' fun s' =>
      imp_congr_right fun _ => ih r

theorem uses_embed {A : Op' → Prop} (h : p.Uses fun o => A (f o)) : (p.embed f).Uses A := by
  induction p with
  | ret a => trivial
  | raise e => trivial
  | call o k ih => exact ⟨h.1, fun r => ih r (h.2 r)⟩

end

/-- The program on the member `i`. -/
abbrev member (i : ι) (p : Prog Val ε α) : Prog (IndexedVal (ι := ι) Val) ε α :=
  p.embed (Indexed.mk i)

theorem always_member {i : ι} {p : Prog Val ε α}
    {step : (o : Indexed ι Op) → S → Except ε (Val o.op) → S → Prop} {G : Indexed ι Op → S → Prop}
    {Q : α → S → Prop} {E : ε → S → Prop} {s : S} :
    (p.member i).Always step G Q E s ↔
    p.Always (fun o => step ⟨i, o⟩) (fun o => G ⟨i, o⟩) Q E s := always_embed

theorem uses_member {i : ι} {p : Prog Val ε α} {A : Indexed ι Op → Prop}
    (h : p.Uses fun o => A ⟨i, o⟩) :
    (p.member i).Uses A := uses_embed h

end Prog

/-! ## Moments -/

namespace Machine
variable {M : Machine Val ε α S Call Ch} {P : Cfg Val ε α S Call → Act Call Ch → Prop}
  {c₁ c : Cfg Val ε α S Call} {env : (o : Op) → Except ε (Val o) → Hist Val ε → Prop} {i : ℕ}
  {k : Call} {p : Prog Val ε α}

/-- The event took place in a step of thread `i` between two configurations. -/
structure Moment (M : Machine Val ε α S Call Ch) (P : Cfg Val ε α S Call → Act Call Ch → Prop)
    (c₁ c : Cfg Val ε α S Call) (i : ℕ) (e : Event Val ε) (c' c'' : Cfg Val ε α S Call) : Prop where
  before : M.Reach P c₁ c'
  step : ∃ ch, P c' (.op i ch) ∧ M.step c' (.op i ch) = some c'' ∧
    M.op i ch e.1 c'.sh = some (e.2, c''.sh)
  after : M.Reach P c'' c

/-- **The moments of a call**: what a thread has performed since `c₁`, in which `p` was left of
    its call, is a history of `p`, and every event of it took place in between. -/
theorem Reach.moments (hP : ∀ c a, P c a → a ≠ .finish i ∧ a ≠ .kill i)
    (henv : ∀ c ch o r s t, M.Reach P c₁ c → M.op i ch o c.sh = some (r, s) → env o r t)
    (hrun : c₁.run i = some (k, p)) (h : M.Reach P c₁ c) :
    ∃ q t, c.run i = some (k, q) ∧ Prog.Reaches env p [] t q ∧
    ∀ e ∈ t, ∃ c' c'', Moment M P c₁ c i e c' c'' := by
  induction h with
  | refl => exact ⟨p, [], hrun, .start, nofun⟩
  | @step c c' a hc hp hs ih =>
    obtain ⟨q, t, hq, ht, hmoment⟩ := ih
    have hlater : ∀ e ∈ t, ∃ c₂ c₃, Moment M P c₁ c' i e c₂ c₃ := by
      intro e he
      obtain ⟨c₂, c₃, hm⟩ := hmoment e he
      exact ⟨c₂, c₃, hm.before, hm.step, .step hm.after hp hs⟩
    -- a step of another thread leaves the program
    have hother : ∀ {j : ℕ} {x : Option (Call × Prog Val ε α)} {s : S}, j ≠ i →
        c' = ⟨s, Function.update c.run j x⟩ →
        ∃ q t, c'.run i = some (k, q) ∧ Prog.Reaches env p [] t q ∧
        ∀ e ∈ t, ∃ c₂ c₃, Moment M P c₁ c' i e c₂ c₃ := by
      rintro j x s hj rfl
      exact ⟨q, t, (Function.update_of_ne (Ne.symm hj) ..).trans hq, ht, hlater⟩
    rcases step_cases hs with ⟨j, k', s, rfl, hnone, -, rfl⟩ |
      ⟨j, ch, k', o, f, r, s, rfl, hj, hop, rfl⟩ | ⟨j, k', r, rfl, -, rfl⟩ | ⟨j, rfl, rfl⟩ <;>
      by_cases hji : j = i
    · subst hji
      cases hnone.symm.trans hq
    · exact hother hji rfl
    · subst hji
      cases hj.symm.trans hq
      refine ⟨f r, ⟨o, r⟩ :: t, Function.update_self .., ht.step (henv _ _ _ _ _ _ hc hop), ?_⟩
      rintro e he
      rcases List.mem_cons.1 he with rfl | he
      · exact ⟨c, _, hc, ⟨ch, hp, hs, hop⟩, .refl⟩
      · exact hlater e he
    · exact hother hji rfl
    · subst hji
      exact absurd rfl (hP _ _ hp).1
    · exact hother hji rfl
    · subst hji
      exact absurd rfl (hP _ _ hp).2
    · exact hother hji rfl

/-- What all returns of the calls satisfy, whatever is answered, holds of what is returned in a
    run. -/
theorem Reach.returns {T : Call → α → Prop} {s₀ : S} {x : α}
    (hT : ∀ k, (M.code k).Always (S := Unit) (fun _ _ _ _ => True) (fun _ _ => True)
      (fun x _ => T k x) (fun _ _ => True) ()) (h : M.Reach P (idle s₀) c) (hrun :
      c.run i = some (k, .ret x)) : T k x := by
  have R : Rely M P (fun _ => True) (fun _ _ => ()) (fun _ _ _ _ => True) (fun _ _ => True)
      (fun k r _ => ∀ x, r = .ok x → T k x) := by
    refine {
      start := fun c i k s _ _ _ _ =>
      ⟨trivial, (hT k).mono (fun _ _ h => h) (fun v _ hv x hx => ?_) fun e _ _ x hx =>
        ?_, fun _ _ => rfl⟩
      op := fun _ _ _ _ _ _ _ _ _ _ _ _ _ => ⟨trivial, trivial, fun _ _ => rfl⟩
      finish := fun _ _ _ _ _ _ _ _ => ⟨trivial, fun _ _ => rfl⟩
      die := fun _ _ _ _ => ⟨trivial, fun _ _ => rfl⟩ }
    · cases hx
      exact hv
    · cases hx
  exact (R.inv trivial h).2 i k _ hrun x rfl

end Machine

end Interleave

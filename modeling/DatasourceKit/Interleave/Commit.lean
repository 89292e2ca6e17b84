/-
  Interleave — operations whose implementations are cut.

  The operations of a program are implemented by programs over other operations (`lower`),
  and a run of these may be cut between any two of their steps.

  * `Always.simulate`: a specification over one kind of states, for runs over another
    that move along with it;
  * `Commits`: wherever an implementation is cut, the state shows the history without the
    operation or with it, and at its end with it;
  * `Commits.sessions`: successive runs of implementations, each cut anywhere, show
    successive runs of the programs, each cut between two operations.
-/
import DatasourceKit.Interleave.History

namespace Interleave.Prog

variable {Op Op' : Type} {Val : Op → Type} {Val' : Op' → Type} {ε α S L : Type}

/-- **A run is simulated**: if every step over `S` that is guarded over `L` has a step over
    `L` that keeps `J`, then what is specified over `L` holds of some related state. -/
theorem Always.simulate {step : (o : Op) → S → Except ε (Val o) → S → Prop}
    {upd : (o : Op) → L → Except ε (Val o) → L → Prop} {J : L → S → Prop}
    {G : Op → L → Prop} {Q : α → L → Prop} {E : ε → L → Prop} {p : Prog Val ε α}
    (hstep : ∀ o l s r s', J l s → G o l → step o s r s' → ∃ l', upd o l r l' ∧ J l' s')
    {l : L} {s : S} (h : p.Always upd G Q E l) (hJ : J l s) :
    p.Always step (fun o s => ∃ l, J l s ∧ G o l) (fun a s => ∃ l, J l s ∧ Q a l)
    (fun e s => ∃ l, J l s ∧ E e l) s := by
  induction p generalizing l s with
  | ret a => exact ⟨l, hJ, h⟩
  | raise e => exact ⟨l, hJ, h⟩
  | call o k ih =>
    refine ⟨⟨l, hJ, h.1⟩, fun r s' hs => ?_⟩
    obtain ⟨l', hupd, hJ'⟩ := hstep o l s r s' hJ h.1 hs
    exact ih r (h.2 r l' hupd) hJ'

/-- A run is the first one of a series. -/
theorem Serial.of_steps {step : (o : Op) → S → Except ε (Val o) → S → Prop}
    {opens : S → Prog Val ε α → S → Prop} {p q : Prog Val ε α} {s₀ s s' : S} (ho : opens s₀ p s)
    (h : Steps step p s s' q) : Serial step opens s₀ s' q := by
  induction h with
  | start => exact .first ho
  | step _ hs ih => exact ih.step hs

/-! ## Implementations that are cut -/

section
variable (env : (o : Op) → Except ε (Val o) → Hist Val ε → Prop) (G : Op → Hist Val ε → Prop)
  (step : (o : Op') → S → Except ε (Val' o) → S → Prop) (impl : (o : Op) → Prog Val' ε (Val o))
  (shows : Hist Val ε → S → Prop)

/-- Where an implementation is cut, the state shows the history before `o`, or that with an
    answer to `o`; at its end it shows the answer that the implementation gives. -/
def Commits : Prop := ∀ o t s, shows t s → G o t → (impl o).Always step
  (fun _ s => shows t s ∨ ∃ r, env o r t ∧ shows (⟨o, r⟩ :: t) s)
  (fun v s => env o (.ok v) t ∧ shows (⟨o, .ok v⟩ :: t) s)
  (fun e s => env o (.error e) t ∧ shows (⟨o, .error e⟩ :: t) s) s

/-- The state shows a history that a run of `p₀` after `t₀` gets to. -/
def ShowsRun (p₀ : Prog Val ε α) (t₀ : Hist Val ε) (s : S) : Prop :=
  ∃ t p, Reaches env p₀ t₀ t p ∧ shows t s

variable {env G step impl shows} {p₀ p : Prog Val ε α} {t₀ t : Hist Val ε} {s : S}

/-- A run goes on from the history before it. -/
theorem Reaches.suffix (h : Reaches env p₀ t₀ t p) : t₀ <:+ t := by
  induction h with
  | start => exact List.suffix_refl t₀
  | step _ _ ih => exact ih.trans (List.suffix_cons _ _)

/-- The whole program shows where it has got to, wherever it is cut. -/
theorem Commits.lower (hc : Commits env G step impl shows)
    (h : p.Always (Records env) G (fun _ _ => True) (fun _ _ => True) t)
    (hr : Reaches env p₀ t₀ t p) (hs : shows t s) :
    (p.lower impl).Always step (fun _ => ShowsRun env shows p₀ t₀)
    (fun _ => ShowsRun env shows p₀ t₀) (fun _ => ShowsRun env shows p₀ t₀) s := by
  induction p generalizing t s with
  | ret a => exact ⟨t, _, hr, hs⟩
  | raise e => exact ⟨t, _, hr, hs⟩
  | call o k ih =>
    refine always_bind.2 (always_catching.2 ((hc o t s hs h.1).mono (fun _ s hcut => ?_) ?_ ?_))
    · rcases hcut with hs | ⟨r, henv, hs⟩
      · exact ⟨t, _, hr, hs⟩
      · exact ⟨_, _, hr.step henv, hs⟩
    · rintro v s' ⟨henv, hs'⟩
      exact ih _ (h.2 _ _ ⟨henv, rfl⟩) (hr.step henv) hs'
    · rintro e s' ⟨henv, hs'⟩
      exact ih _ (h.2 _ _ ⟨henv, rfl⟩) (hr.step henv) hs'

/-- **Successive runs of implementations show successive runs of the programs**: where the
    former have been cut anywhere, the latter have been cut between two operations, and
    they go on from the same history. -/
theorem Commits.sessions {progs : Prog Val ε α → Prop} {opens : S → Prog Val' ε α → S → Prop}
    {s₀ : S} {q : Prog Val' ε α} (hc : Commits env G step impl shows)
    (hprogs : ∀ p, progs p → ∀ t, p.Always (Records env) G (fun _ _ => True) (fun _ _ => True) t)
    (hopens : ∀ s q s', opens s q s' → ∃ p, progs p ∧ q = p.lower impl ∧
      ∀ t, shows t s → shows t s')
    (ht₀ : Sessions env progs t₀) (hs₀ : shows t₀ s₀) (h : Serial step opens s₀ s q) :
    ∃ t, Sessions env progs t ∧ t₀ <:+ t ∧ shows t s := by
  let J : S → Prop := fun s => ∃ t, Sessions env progs t ∧ t₀ <:+ t ∧ shows t s
  refine (Serial.invariant (J := J) (G := fun _ _ => True) (Q := fun _ _ => True)
    (E := fun _ _ => True) ?_ ⟨t₀, ht₀, List.suffix_refl t₀, hs₀⟩ h).1
  rintro s q s' ⟨t, ht, hsuffix, hshows⟩ hopen
  obtain ⟨p, hp, rfl, hkeep⟩ := hopens s q s' hopen
  have hshown : ∀ s, ShowsRun env shows p t s → J s := by
    rintro s ⟨t', p', hr, hs⟩
    exact ⟨t', .run ht hp hr, hsuffix.trans hr.suffix, hs⟩
  exact (hc.lower (hprogs p hp t) .start (hkeep t hshows)).mono
    (fun _ s hs => ⟨hshown s hs, trivial⟩) (fun _ s hs => ⟨hshown s hs, trivial⟩) fun _ s hs =>
    ⟨hshown s hs, trivial⟩

end

end Interleave.Prog

/-
  Interleave — threads running programs over shared state.

  A `Machine` gives the program of each call and what an operation of a thread
  does to the shared state; the choice `Ch` is the environment's (an answer from
  outside, a fault).  A configuration (`Cfg`) is the shared state and the
  remaining program of every busy thread.  The scheduler (`Act`) starts a call
  on an idle thread, performs the next operation of a thread, takes the outcome
  of a finished program, or kills a thread at any point.

  * `Reach M P c₀ c`: `c` is reached from `c₀` by steps that all satisfy `P`;
  * `run ok`: the steps of a given list, each checked by `ok` (`Reach.of_run`);
  * `Rely`, `Rely.inv`: the invariant rule for interleavings.  Each thread has a
    local view `loc i` of the shared state that only its own steps change; a
    program is checked once, against its local view (`Prog.Always`), and an
    operation once, against the invariant.
  * `Sole`, `Sole.inv`: the rule for one thread, whose part of the state the others
    leave alone.
-/
import DatasourceKit.Interleave.Prog

namespace Interleave

variable {Op : Type} {Val : Op → Type} {ε α S Call Ch L : Type}

/-- Calls over shared state `S`. -/
structure Machine (Val : Op → Type) (ε α S Call Ch : Type) where
  /-- the program of a call -/
  code : Call → Prog Val ε α
  /-- an operation of a thread, if it is enabled under the choice -/
  op : ℕ → Ch → (o : Op) → S → Option (Except ε (Val o) × S)
  /-- the state when a thread starts a call, if it may -/
  start : ℕ → Call → S → Option S
  /-- the state when the program of a call has ended -/
  finish : ℕ → Call → Except ε α → S → S
  /-- the state when a thread is killed -/
  die : ℕ → S → S

/-- The shared state, and the call and remaining program of each busy thread. -/
structure Cfg (Val : Op → Type) (ε α S Call : Type) where
  sh : S
  run : ℕ → Option (Call × Prog Val ε α)

/-- The operation a thread performs next. -/
def Cfg.next (c : Cfg Val ε α S Call) (i : ℕ) : Option Op :=
  match c.run i with
  | some (_, .call o _) => some o
  | _ => none

theorem Cfg.next_call {c : Cfg Val ε α S Call} {i : ℕ} {k : Call} {o : Op}
    {f : Except ε (Val o) → Prog Val ε α} (h : c.run i = some (k, .call o f)) :
    c.next i = some o := by
  simp only [next, h]

/-- A step of the scheduler. -/
inductive Act (Call Ch : Type) where
  | start (i : ℕ) (k : Call)
  | op (i : ℕ) (ch : Ch)
  | finish (i : ℕ)
  | kill (i : ℕ)
deriving DecidableEq

/-- The thread of a step. -/
def Act.thread : Act Call Ch → ℕ
  | start i _ | op i _ | finish i | kill i => i

namespace Machine
variable (M : Machine Val ε α S Call Ch)

/-- One step; `none` if it is not enabled. -/
def step (c : Cfg Val ε α S Call) : Act Call Ch → Option (Cfg Val ε α S Call)
  | .start i k =>
    match c.run i with
    | none => (M.start i k c.sh).map fun s => ⟨s, Function.update c.run i (some (k, M.code k))⟩
    | some _ => none
  | .op i ch =>
    match c.run i with
    | some (k, .call o f) =>
      (M.op i ch o c.sh).map fun r => ⟨r.2, Function.update c.run i (some (k, f r.1))⟩
    | _ => none
  | .finish i =>
    match c.run i with
    | some (k, .ret a) => some ⟨M.finish i k (.ok a) c.sh, Function.update c.run i none⟩
    | some (k, .raise e) => some ⟨M.finish i k (.error e) c.sh, Function.update c.run i none⟩
    | _ => none
  | .kill i => some ⟨M.die i c.sh, Function.update c.run i none⟩

/-- The steps of a list, one after the other; `none` if one of them is not
    enabled or not `ok`. -/
def run (ok : Cfg Val ε α S Call → Act Call Ch → Bool) (c : Cfg Val ε α S Call) :
    List (Act Call Ch) → Option (Cfg Val ε α S Call)
  | [] => some c
  | a :: as => if ok c a then (M.step c a).bind fun c' => run ok c' as else none

/-- The configuration in which no thread is busy. -/
def idle (s : S) : Cfg Val ε α S Call := ⟨s, fun _ => none⟩

/-- `c` is reached from `c₀` by steps satisfying `P`. -/
inductive Reach (P : Cfg Val ε α S Call → Act Call Ch → Prop) (c₀ : Cfg Val ε α S Call) :
    Cfg Val ε α S Call → Prop
  | refl : Reach P c₀ c₀
  | step {c c' a} : Reach P c₀ c → P c a → M.step c a = some c' → Reach P c₀ c'

variable {M} {P P' : Cfg Val ε α S Call → Act Call Ch → Prop} {c₀ c c' : Cfg Val ε α S Call}

theorem Reach.mono (h : M.Reach P c₀ c) (hP : ∀ c a, P c a → P' c a) : M.Reach P' c₀ c := by
  induction h with
  | refl => exact .refl
  | step _ hp hs ih => exact .step ih (hP _ _ hp) hs

theorem Reach.trans (h : M.Reach P c₀ c) (h' : M.Reach P c c') : M.Reach P c₀ c' := by
  induction h' with
  | refl => exact h
  | step _ hp hs ih => exact .step ih hp hs

theorem Reach.of_run {ok : Cfg Val ε α S Call → Act Call Ch → Bool} {as : List (Act Call Ch)}
    (hok : ∀ c a, ok c a = true → P c a) (h : M.run ok c₀ as = some c) : M.Reach P c₀ c := by
  induction as generalizing c₀ with
  | nil => simp only [run, Option.some.injEq] at h; exact h ▸ .refl
  | cons a as ih =>
    simp only [run, Option.ite_none_right_eq_some, Option.bind_eq_some_iff] at h
    obtain ⟨ha, c₁, h₁, h⟩ := h
    exact (Reach.step .refl (hok _ _ ha) h₁).trans (ih h)

/-- What a step is, by the thread's program. -/
theorem step_cases {a : Act Call Ch} (h : M.step c a = some c') :
    (∃ i k s, a = .start i k ∧ c.run i = none ∧ M.start i k c.sh = some s ∧
      c' = ⟨s, Function.update c.run i (some (k, M.code k))⟩) ∨
    (∃ i ch k o f r s, a = .op i ch ∧ c.run i = some (k, .call o f) ∧
      M.op i ch o c.sh = some (r, s) ∧ c' = ⟨s, Function.update c.run i (some (k, f r))⟩) ∨
    (∃ i k r, a = .finish i ∧ c.run i = some (k, .ofExcept r) ∧
      c' = ⟨M.finish i k r c.sh, Function.update c.run i none⟩) ∨
    (∃ i, a = .kill i ∧ c' = ⟨M.die i c.sh, Function.update c.run i none⟩) := by
  cases a with
  | start i k =>
    simp only [step] at h
    split at h
    · rename_i hr
      obtain ⟨s, hs, rfl⟩ := Option.map_eq_some_iff.1 h
      exact .inl ⟨i, k, s, rfl, hr, hs, rfl⟩
    · cases h
  | op i ch =>
    simp only [step] at h
    split at h
    · rename_i k o f hr
      obtain ⟨⟨r, s⟩, hs, rfl⟩ := Option.map_eq_some_iff.1 h
      exact .inr (.inl ⟨i, ch, k, o, f, r, s, rfl, hr, hs, rfl⟩)
    · cases h
  | finish i =>
    simp only [step] at h
    split at h
    · rename_i k v hr; cases h; exact .inr (.inr (.inl ⟨i, k, .ok v, rfl, hr, rfl⟩))
    · rename_i k e hr; cases h; exact .inr (.inr (.inl ⟨i, k, .error e, rfl, hr, rfl⟩))
    · cases h
  | kill i => cases h; exact .inr (.inr (.inr ⟨i, rfl, rfl⟩))

theorem run_of_notMem {ok : Cfg Val ε α S Call → Act Call Ch → Bool} {as : List (Act Call Ch)}
    {i : ℕ} (h : M.run ok c₀ as = some c) (hi : i ∉ as.map Act.thread) : c.run i = c₀.run i := by
  induction as generalizing c₀ with
  | nil => simp only [run, Option.some.injEq] at h; rw [h]
  | cons a as ih =>
    simp only [run, Option.ite_none_right_eq_some, Option.bind_eq_some_iff] at h
    obtain ⟨-, c₁, h₁, h⟩ := h
    simp only [List.map_cons, List.mem_cons, not_or] at hi
    rw [ih h hi.2]
    rcases step_cases h₁ with ⟨j, k, s, rfl, -, -, rfl⟩ | ⟨j, ch, k, o, f, r, s, rfl, -, -, rfl⟩ |
      ⟨j, k, r, rfl, -, rfl⟩ | ⟨j, rfl, rfl⟩ <;> exact Function.update_of_ne hi.1 ..

/-- A run whose last configuration satisfies `q` shows one that is reachable; the
    threads that take no step are as before. -/
theorem Reach.exists_of_run (M : Machine Val ε α S Call Ch) (c₀ : Cfg Val ε α S Call)
    (ok : Cfg Val ε α S Call → Act Call Ch → Bool) (as : List (Act Call Ch))
    (q : Cfg Val ε α S Call → Bool) (hok : ∀ c a, ok c a = true → P c a)
    (h : (M.run ok c₀ as).any q = true) :
    ∃ c, M.Reach P c₀ c ∧ q c = true ∧ ∀ i, i ∉ as.map Act.thread → c.run i = c₀.run i := by
  cases hr : M.run ok c₀ as with
  | none => simp [hr] at h
  | some c => exact ⟨c, .of_run hok hr, by simpa [hr] using h, fun i => run_of_notMem hr⟩

/-- What is left of a call performs only operations of the call. -/
theorem Reach.uses {A : Call → Op → Prop} {s₀ : S} (hA : ∀ k, (M.code k).Uses (A k))
    (h : M.Reach P (idle s₀) c) :
    ∀ i k p, c.run i = some (k, p) → p.Uses (A k) := by
  induction h with
  | refl => exact fun i k p hr => by simp [idle] at hr
  | @step c c' a _ _ hs ih =>
    have hupdate : ∀ {j : ℕ} {x : Option (Call × Prog Val ε α)},
        (∀ k p, x = some (k, p) → p.Uses (A k)) →
        ∀ i k p, Function.update c.run j x i = some (k, p) → p.Uses (A k) := by
      intro j x hx i k p hr
      by_cases hij : i = j
      · subst hij
        exact hx k p ((Function.update_self i x c.run).symm.trans hr)
      · exact ih i k p ((Function.update_of_ne hij ..).symm.trans hr)
    rcases step_cases hs with ⟨j, k, s, -, -, -, rfl⟩ | ⟨j, ch, k, o, f, r, s, -, hrun, -, rfl⟩ |
      ⟨j, k, r, -, -, rfl⟩ | ⟨j, -, rfl⟩
    · exact hupdate fun _ _ hx => by cases hx; exact hA k
    · exact hupdate fun _ _ hx => by cases hx; exact (ih j k _ hrun).2 r
    · exact hupdate fun _ _ hx => by cases hx
    · exact hupdate fun _ _ hx => by cases hx

/-- Where the operations of a thread can go on, some run gets to the end of its program. -/
theorem Reach.exists_end {i : ℕ} {k : Call} {step : (o : Op) → S → Except ε (Val o) → S → Prop}
    {G : Op → S → Prop} {Q : α → S → Prop} {E : ε → S → Prop} {p : Prog Val ε α}
    (hP : ∀ c ch, P c (.op i ch))
    (hop : ∀ o s, G o s → ∃ ch r s', M.op i ch o s = some (r, s') ∧ step o s r s')
    (h : p.Always step G Q E c.sh) (hc : M.Reach P c₀ c) (hrun : c.run i = some (k, p)) :
    ∃ c', M.Reach P c₀ c' ∧
      ((∃ v, c'.run i = some (k, .ret v) ∧ Q v c'.sh) ∨
        ∃ e, c'.run i = some (k, .raise e) ∧ E e c'.sh) := by
  induction p generalizing c with
  | ret v => exact ⟨c, hc, .inl ⟨v, hrun, h⟩⟩
  | raise e => exact ⟨c, hc, .inr ⟨e, hrun, h⟩⟩
  | call o f ih =>
    obtain ⟨ch, r, s', hs', hstep⟩ := hop o c.sh h.1
    have hnext : M.step c (.op i ch) = some ⟨s', Function.update c.run i (some (k, f r))⟩ := by
      simp only [Machine.step, hrun, hs', Option.map_some]
    exact ih r (h.2 r s' hstep) (.step hc (hP _ _) hnext) (Function.update_self ..)

/-! ## Invariants of interleavings -/

/-- The obligations of an invariant `I` of all interleavings.  `loc i` is the
    local view of thread `i`; a program moves it by `upd` and performs `o` only
    where `ok o`; `fin` relates a call, its outcome and the view at its end. -/
structure Rely (M : Machine Val ε α S Call Ch) (P : Cfg Val ε α S Call → Act Call Ch → Prop)
    (I : S → Prop) (loc : ℕ → S → L) (upd : (o : Op) → L → Except ε (Val o) → L → Prop)
    (ok : Op → L → Prop) (fin : Call → Except ε α → L → Prop) : Prop where
  start : ∀ c i k s, P c (.start i k) → I c.sh → c.run i = none → M.start i k c.sh = some s →
    I s ∧ (M.code k).Always upd ok (fun v => fin k (.ok v)) (fun e => fin k (.error e)) (loc i s) ∧
      ∀ j ≠ i, loc j s = loc j c.sh
  op : ∀ c i ch k o f r s, P c (.op i ch) → I c.sh → c.run i = some (k, .call o f) →
    ok o (loc i c.sh) → M.op i ch o c.sh = some (r, s) →
    I s ∧ upd o (loc i c.sh) r (loc i s) ∧ ∀ j ≠ i, loc j s = loc j c.sh
  finish : ∀ c i k r, P c (.finish i) → I c.sh → c.run i = some (k, .ofExcept r) →
    fin k r (loc i c.sh) →
    I (M.finish i k r c.sh) ∧ ∀ j ≠ i, loc j (M.finish i k r c.sh) = loc j c.sh
  die : ∀ c i, P c (.kill i) → I c.sh →
    I (M.die i c.sh) ∧ ∀ j ≠ i, loc j (M.die i c.sh) = loc j c.sh

section
variable {loc : ℕ → S → L} {upd : (o : Op) → L → Except ε (Val o) → L → Prop} {ok : Op → L → Prop}
  {fin : Call → Except ε α → L → Prop}

/-- Every remaining program respects its thread's local view. -/
def Fits (loc : ℕ → S → L) (upd : (o : Op) → L → Except ε (Val o) → L → Prop) (ok : Op → L → Prop)
    (fin : Call → Except ε α → L → Prop) (c : Cfg Val ε α S Call) : Prop :=
  ∀ i k p, c.run i = some (k, p) →
    p.Always upd ok (fun v => fin k (.ok v)) (fun e => fin k (.error e)) (loc i c.sh)

theorem fits_update (h : Fits loc upd ok fin c) {i : ℕ} {s : S}
    {x : Option (Call × Prog Val ε α)} (hf : ∀ j ≠ i, loc j s = loc j c.sh)
    (hx : ∀ k p, x = some (k, p) →
      p.Always upd ok (fun v => fin k (.ok v)) (fun e => fin k (.error e)) (loc i s)) :
    Fits loc upd ok fin ⟨s, Function.update c.run i x⟩ := by
  intro j k p hj
  by_cases hji : j = i
  · subst hji; exact hx k p (by simpa using hj)
  · have := h j k p (by simpa [Function.update_of_ne hji] using hj)
    simpa only [hf j hji] using this

/-- **The invariant holds in every reachable configuration**, and every remaining
    program respects its local view. -/
theorem Rely.inv {I : S → Prop} (R : Rely M P I loc upd ok fin) {s₀ : S} (h₀ : I s₀)
    (h : M.Reach P (idle s₀) c) : I c.sh ∧ Fits loc upd ok fin c := by
  induction h with
  | refl => exact ⟨h₀, fun i k p h => by simp [idle] at h⟩
  | @step c c' a _ hp hs ih =>
    obtain ⟨hI, hA⟩ := ih
    rcases step_cases hs with ⟨i, k, s, rfl, hr, hst, rfl⟩ |
      ⟨i, ch, k, o, f, r, s, rfl, hr, hop, rfl⟩ | ⟨i, k, r, rfl, hr, rfl⟩ | ⟨i, rfl, rfl⟩
    · obtain ⟨hI', hk, hf⟩ := R.start c i k s hp hI hr hst
      exact ⟨hI', fits_update hA hf fun k' p h => by cases h; exact hk⟩
    · have hi := hA i k _ hr
      obtain ⟨hI', hu, hf⟩ := R.op c i ch k o f r s hp hI hr hi.1 hop
      exact ⟨hI', fits_update hA hf fun k' p h => by cases h; exact hi.2 r _ hu⟩
    · have hfin : fin k r (loc i c.sh) := by
        cases r <;> exact hA i k _ hr
      obtain ⟨hI', hf⟩ := R.finish c i k r hp hI hr hfin
      exact ⟨hI', fits_update hA hf fun k' p h => by cases h⟩
    · obtain ⟨hI', hf⟩ := R.die c i hp hI
      exact ⟨hI', fits_update hA hf fun k' p h => by cases h⟩

/-- What a thread does next in a reachable configuration, it does where `ok`. -/
theorem Rely.ok_next {I : S → Prop} (R : Rely M P I loc upd ok fin) {s₀ : S} (h₀ : I s₀)
    (h : M.Reach P (idle s₀) c) {i : ℕ} {k : Call} {o : Op} {f : Except ε (Val o) → Prog Val ε α}
    (hr : c.run i = some (k, .call o f)) : ok o (loc i c.sh) :=
  ((R.inv h₀ h).2 i k _ hr).1

end

/-! ## One thread -/

/-- The obligations of a specification of the calls of thread `i₀`: `view` is the part of
    the state that only its steps change, by `upd`; the other threads perform operations
    in `A` only.  `J` holds of the view all along, `G` before an operation, `fin` at the
    end of a call. -/
structure Sole (M : Machine Val ε α S Call Ch) (P : Cfg Val ε α S Call → Act Call Ch → Prop)
    (i₀ : ℕ) (view : S → L) (upd : (o : Op) → L → Except ε (Val o) → L → Prop) (A : Op → Prop)
    (J : L → Prop) (G : Op → L → Prop) (fin : Call → Except ε α → L → Prop) : Prop where
  start : ∀ c k s, P c (.start i₀ k) → J (view c.sh) → M.start i₀ k c.sh = some s →
    (M.code k).Always upd (fun o l => J l ∧ G o l) (fun v l => J l ∧ fin k (.ok v) l)
      (fun e l => J l ∧ fin k (.error e) l) (view s)
  op : ∀ c ch o r s, P c (.op i₀ ch) → c.next i₀ = some o → M.op i₀ ch o c.sh = some (r, s) →
    upd o (view c.sh) r (view s)
  finish : ∀ k r s, J (view s) → J (view (M.finish i₀ k r s))
  die : ∀ s, J (view s) → J (view (M.die i₀ s))
  otherStart : ∀ c i k s, i ≠ i₀ → P c (.start i k) → M.start i k c.sh = some s →
    (M.code k).Uses A ∧ view s = view c.sh
  otherOp : ∀ i ch o r s s', i ≠ i₀ → A o → M.op i ch o s = some (r, s') → view s' = view s
  otherFinish : ∀ i k r s, i ≠ i₀ → view (M.finish i k r s) = view s
  otherDie : ∀ i s, i ≠ i₀ → view (M.die i s) = view s

section
variable {i₀ : ℕ} {s₀ : S} {view : S → L} {upd : (o : Op) → L → Except ε (Val o) → L → Prop}
  {A : Op → Prop} {J : L → Prop} {G : Op → L → Prop} {fin : Call → Except ε α → L → Prop}

/-- The specification of thread `i₀` in a configuration. -/
structure SoleFits (i₀ : ℕ) (view : S → L) (upd : (o : Op) → L → Except ε (Val o) → L → Prop)
    (A : Op → Prop) (J : L → Prop) (G : Op → L → Prop) (fin : Call → Except ε α → L → Prop)
    (c : Cfg Val ε α S Call) : Prop where
  now : J (view c.sh)
  left : ∀ k p, c.run i₀ = some (k, p) → p.Always upd (fun o l => J l ∧ G o l)
    (fun v l => J l ∧ fin k (.ok v) l) (fun e l => J l ∧ fin k (.error e) l) (view c.sh)
  others : ∀ i k p, i ≠ i₀ → c.run i = some (k, p) → p.Uses A

/-- A step of thread `i₀`. -/
theorem SoleFits.own (h : SoleFits i₀ view upd A J G fin c) {s : S}
    {x : Option (Call × Prog Val ε α)} (hJ : J (view s))
    (hx : ∀ k p, x = some (k, p) → p.Always upd (fun o l => J l ∧ G o l)
      (fun v l => J l ∧ fin k (.ok v) l) (fun e l => J l ∧ fin k (.error e) l) (view s)) :
    SoleFits i₀ view upd A J G fin ⟨s, Function.update c.run i₀ x⟩ where
  now := hJ
  left := fun k p hr => hx k p ((Function.update_self i₀ x c.run).symm.trans hr)
  others := fun i k p hi hr => h.others i k p hi ((Function.update_of_ne hi ..).symm.trans hr)

/-- A step of another thread. -/
theorem SoleFits.other (h : SoleFits i₀ view upd A J G fin c) {i : ℕ} (hi : i ≠ i₀) {s : S}
    {x : Option (Call × Prog Val ε α)} (hs : view s = view c.sh)
    (hx : ∀ k p, x = some (k, p) → p.Uses A) :
    SoleFits i₀ view upd A J G fin ⟨s, Function.update c.run i x⟩ where
  now := by
    show J (view s)
    rw [hs]
    exact h.now
  left := by
    intro k p hr
    show p.Always _ _ _ _ (view s)
    rw [hs]
    exact h.left k p ((Function.update_of_ne (Ne.symm hi) ..).symm.trans hr)
  others := by
    intro j k p hj hr
    refine (ne_or_eq j i).elim (fun hji => ?_) fun hji => ?_
    · exact h.others j k p hj ((Function.update_of_ne hji ..).symm.trans hr)
    · subst hji
      exact hx k p ((Function.update_self j x c.run).symm.trans hr)

/-- **The specification of the thread holds in every reachable configuration.** -/
theorem Sole.inv (R : Sole M P i₀ view upd A J G fin) (h₀ : J (view s₀))
    (h : M.Reach P (idle s₀) c) :
    SoleFits i₀ view upd A J G fin c := by
  induction h with
  | refl => exact ⟨h₀, fun k p hr => by simp [idle] at hr, fun i k p _ hr => by simp [idle] at hr⟩
  | @step c c' a _ hp hs ih =>
    have hnow : ∀ {s : S} {p : Prog Val ε α} {k : Call}, p.Always upd (fun o l => J l ∧ G o l)
        (fun v l => J l ∧ fin k (.ok v) l) (fun e l => J l ∧ fin k (.error e) l) (view s) →
            J (view s) :=
      fun hp => (hp.mono (fun _ _ h => h.1) (fun _ _ h => h.1) fun _ _ h => h.1).now
    rcases step_cases hs with ⟨i, k, s, rfl, -, hst, rfl⟩ |
      ⟨i, ch, k, o, f, r, s, rfl, hrun, hop, rfl⟩ | ⟨i, k, r, rfl, -, rfl⟩ | ⟨i, rfl, rfl⟩ <;>
      refine (ne_or_eq i i₀).elim (fun hi => ?_) fun hi => ?_
    · obtain ⟨huses, hv⟩ := R.otherStart c i k s hi hp hst
      exact ih.other hi hv fun _ _ hx => by cases hx; exact huses
    · subst hi
      have hk := R.start c k s hp ih.now hst
      exact ih.own (hnow hk) fun _ _ hx => by cases hx; exact hk
    · have huses := ih.others i k _ hi hrun
      exact ih.other hi (R.otherOp i ch o r c.sh s hi huses.1 hop) fun _ _ hx => by
        cases hx; exact huses.2 r
    · subst hi
      have hk := (ih.left k _ hrun).2 r _ (R.op c ch o r s hp (Cfg.next_call hrun) hop)
      exact ih.own (hnow hk) fun _ _ hx => by cases hx; exact hk
    · exact ih.other hi (R.otherFinish i k r c.sh hi) fun _ _ hx => by cases hx
    · subst hi
      exact ih.own (R.finish k r _ ih.now) fun _ _ hx => by cases hx
    · exact ih.other hi (R.otherDie i c.sh hi) fun _ _ hx => by cases hx
    · subst hi
      exact ih.own (R.die _ ih.now) fun _ _ hx => by cases hx

end

/-! ## Changes at once -/

/-- The machine in which threads also change the state at once, by `edit`. -/
def extend {X : Type} (M : Machine Val ε α S Call Ch) (edit : X → S → S) (answer : α) :
    Machine Val ε α S (Call ⊕ X) Ch where
  code := Sum.elim M.code fun _ => .ret answer
  op := M.op
  start := fun i k s => Sum.elim (fun k => M.start i k s) (fun x => some (edit x s)) k
  finish := fun i k r s => Sum.elim (fun k => M.finish i k r s) (fun _ => s) k
  die := M.die

end Machine

end Interleave

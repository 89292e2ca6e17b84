/-
  What the validation of a profile is good for.

  * `resolve_cases`, `resolveSlots_cases`: a slot of a validated profile has the provider that the
    profile names for it, or no name at all;
  * `validated_resolves`: a run resolves its six providers exactly where all six slots are named,
    and is rejected before any call otherwise.  `partial_profile_fails`: the validation does not
    ask for the slots, nor for the categories.
-/
import DatasourceKit.Ingest.Run

namespace DatasourceKit

open Interleave Interleave.Prog

/-- The slots that a run fills. -/
def slotNames : List String := ["enumerator", "fetcher", "mapper", "diff", "assess", "store"]

/-- The slots with their providers. -/
def Slots.all {P : Type} (s : Slots P) : List (String × P) :=
  [("enumerator", s.enumerator), ("fetcher", s.fetcher), ("mapper", s.mapper), ("diff", s.differ),
      ("assess", s.assessor),
    ("store", s.storeFactory)]

section
variable {ε P Obj : Type} {profile : SourceProfile Obj} {registry : ProviderRegistry P}

/-- The provider of the slot is the one registered under the name that the profile gives. -/
def Fills (profile : SourceProfile Obj) (registry : ProviderRegistry P)
    (slot : String) (fn : P) : Prop :=
  ∃ name, profile.providers.lookup slot = some name ∧ registry.byName.lookup name = some fn

theorem resolve_cases (hvalid : (validateSource profile registry : Except (RunExc ε) Unit) = .ok ())
    (slot : String) :
    (∃ fn, Fills profile registry slot fn ∧
      (resolve profile registry slot : Except (RunExc ε) P) = .ok fn) ∨
      slot ∉ profile.providers ∧ (resolve profile registry slot : Except (RunExc ε) P) =
      .error (.key slot) := by
  cases hname : profile.providers.lookup slot with
  | some name =>
    obtain ⟨fn, hfn, hresolve⟩ := resolve_of_valid hvalid hname
    exact .inl ⟨fn, ⟨name, hname, hfn⟩, hresolve⟩
  | none => exact .inr ⟨AList.lookup_eq_none.1 hname, by rw [resolve, hname]⟩

theorem Fills.named {slot : String} {fn : P} (h : Fills profile registry slot fn) :
    slot ∈ profile.providers := by
  obtain ⟨name, hname, -⟩ := h
  exact AList.lookup_isSome.1 (by rw [hname]; rfl)

/-- In a validated profile all slots are filled, or one has no name. -/
theorem resolveSlots_cases
    (hvalid : (validateSource profile registry : Except (RunExc ε) Unit) = .ok ()) :
    (∃ slots, (resolveSlots profile registry : Except (RunExc ε) (Slots P)) = .ok slots ∧
      ∀ x ∈ slots.all, Fills profile registry x.1 x.2) ∨
    ∃ slot ∈ slotNames, slot ∉ profile.providers ∧
      (resolveSlots profile registry : Except (RunExc ε) (Slots P)) = .error (.key slot) := by
  unfold resolveSlots
  rcases resolve_cases hvalid "enumerator" with ⟨enumerator, h₁, he₁⟩ | ⟨hno, he⟩
  swap
  · exact .inr ⟨_, by simp [slotNames], hno, by rw [he]; rfl⟩
  rcases resolve_cases hvalid "fetcher" with ⟨fetcher, h₂, he₂⟩ | ⟨hno, he⟩
  swap
  · exact .inr ⟨_, by simp [slotNames], hno, by rw [he₁, he]; rfl⟩
  rcases resolve_cases hvalid "mapper" with ⟨mapper, h₃, he₃⟩ | ⟨hno, he⟩
  swap
  · exact .inr ⟨_, by simp [slotNames], hno, by rw [he₁, he₂, he]; rfl⟩
  rcases resolve_cases hvalid "diff" with ⟨differ, h₄, he₄⟩ | ⟨hno, he⟩
  swap
  · exact .inr ⟨_, by simp [slotNames], hno, by rw [he₁, he₂, he₃, he]; rfl⟩
  rcases resolve_cases hvalid "assess" with ⟨assessor, h₅, he₅⟩ | ⟨hno, he⟩
  swap
  · exact .inr ⟨_, by simp [slotNames], hno, by rw [he₁, he₂, he₃, he₄, he]; rfl⟩
  rcases resolve_cases hvalid "store" with ⟨storeFactory, h₆, he₆⟩ | ⟨hno, he⟩
  swap
  · exact .inr ⟨_, by simp [slotNames], hno, by rw [he₁, he₂, he₃, he₄, he₅, he]; rfl⟩
  refine .inl ⟨⟨enumerator, fetcher, mapper, differ, assessor, storeFactory⟩,
      by rw [he₁, he₂, he₃, he₄, he₅, he₆]; rfl, ?_⟩
  simp only [Slots.all, List.forall_mem_cons, List.not_mem_nil, false_implies,
    implies_true, and_true]
  exact ⟨h₁, h₂, h₃, h₄, h₅, h₆⟩

end

section
variable {ε Obj : Type} [StrRepr] (objects : Objects ε Obj) (conv : Convert ε Obj)
  (builtin : String → Obj) (rounds : ℕ) {source : Source Obj}
  {registry : Option (ProviderRegistry Obj)} {profile : SourceProfile Obj}
      {r : ProviderRegistry Obj}

/-- **What validation gives**: a profile passes iff all its names are registered; else the run is
    rejected with all that are missing.  A run with a profile that passes has for each of its
    slots the provider that is registered under the name the profile gives, if it gives one for
    each; else it ends with the key of a slot without a name.  A rejected run makes no call. -/
theorem validated_resolves (hr : registryOr builtin registry = (.ok r : Except (RunExc ε) _))
    (hp : source.load conv = .ok profile) :
    ((validateSource profile r = (.ok () : Except (RunExc ε) Unit)) ↔
      ∀ slot name, profile.providers.lookup slot = some name → ∃ category, r.Under category name) ∧
    (validateSource profile r ≠ (.ok () : Except (RunExc ε) Unit) →
      runIngest objects conv builtin rounds source registry =
      raise (.profile ("unknown providers: " ++
        ", ".intercalate ((missingProviders profile r).mergeSort fun a b => decide (a ≤ b))))) ∧
    (validateSource profile r = (.ok () : Except (RunExc ε) Unit) →
      (∀ slot ∈ slotNames, slot ∈ profile.providers) →
      ∃ slots, runIngest objects conv builtin rounds source registry =
      ingest objects rounds profile slots ∧ ∀ x ∈ slots.all, Fills profile r x.1 x.2) ∧
    (validateSource profile r = (.ok () : Except (RunExc ε) Unit) →
      (¬ ∀ slot ∈ slotNames, slot ∈ profile.providers) →
      ∃ slot ∈ slotNames, slot ∉ profile.providers ∧
      runIngest objects conv builtin rounds source registry = raise (.key slot)) := by
  have hrun : runIngest objects conv builtin rounds source registry = _ := runIngest_eq hr hp
  refine ⟨?_, fun hno => ?_, fun hvalid hall => ?_, fun hvalid hsome => ?_⟩
  · simp only [validateSource_ok, r.has_iff, ← Option.isSome_iff_exists, AList.lookup_isSome,
      r.listed, ProviderRegistry.Under]
  · rw [hrun]
    cases he : (validateSource profile r : Except (RunExc ε) Unit) with
    | ok u => exact absurd he hno
    | error e =>
      rw [validateSource_error he]
      rfl
  · rcases resolveSlots_cases hvalid with ⟨slots, hslots, hfills⟩ | ⟨slot, hslot, hno, -⟩
    · exact ⟨slots, by rw [hrun, hvalid, hslots]; rfl, hfills⟩
    · exact absurd (hall slot hslot) hno
  · rcases resolveSlots_cases hvalid with ⟨slots, -, hfills⟩ | ⟨slot, hslot, hno, he⟩
    · refine absurd (fun slot hslot => ?_) hsome
      simp only [slotNames, List.mem_cons, List.not_mem_nil, or_false] at hslot
      simp only [Slots.all, List.forall_mem_cons] at hfills
      obtain ⟨h₁, h₂, h₃, h₄, h₅, h₆, -⟩ := hfills
      rcases hslot with rfl | rfl | rfl | rfl | rfl | rfl
      · exact h₁.named
      · exact h₂.named
      · exact h₃.named
      · exact h₄.named
      · exact h₅.named
      · exact h₆.named
    · exact ⟨slot, hslot, hno, by rw [hrun, hvalid, he]; rfl⟩

end

/-- Only the enumerator has a name. -/
def partialProfile : SourceProfile Json :=
  demoProfile [("enumerator", "window.by_day")] ∅ (by decide) (by decide)

/-- The fetcher fills every slot. -/
def crossedProfile : SourceProfile Json :=
  demoProfile (slotNames.map fun slot => (slot, "fetch.mock")) ∅ (by decide) (by decide)

theorem validated_resolves_complete : ∃ slots : Slots Json,
    demoRun ∅ = ingest jsonObjects 2 (completeProfile ∅) slots ∧
        ∀ x ∈ slots.all, Fills (completeProfile ∅) demoRegistry x.1 x.2 :=
  (@validated_resolves Unit Json ⟨id⟩ jsonObjects _ Json.str 2 (.profile (completeProfile ∅)) none
      (completeProfile ∅) demoRegistry
    rfl rfl).2.2.1 rfl (by decide)

/-- **The validation does not see to the slots**: a profile that passes may leave a slot without a
    name, and may fill one with a provider of another category. -/
theorem partial_profile_fails :
    (¬ ∀ (profile : SourceProfile Json) (registry : ProviderRegistry Json),
      validateSource profile registry = (.ok () : Except (RunExc Unit) Unit) →
        ∃ slots, resolveSlots profile registry = (.ok slots : Except (RunExc Unit) (Slots Json))) ∧
    ¬ ∀ (profile : SourceProfile Json) (registry : ProviderRegistry Json) (slots : Slots Json),
      validateSource profile registry = (.ok () : Except (RunExc Unit) Unit) →
        resolveSlots profile registry = (.ok slots : Except (RunExc Unit) (Slots Json)) →
          ∀ slot ∈ slotNames, ∃ name, profile.providers.lookup slot = some name ∧
          registry.Under slot name := by
  constructor
  · intro h
    obtain ⟨slots, hslots⟩ := h partialProfile demoRegistry rfl
    cases hslots
  · intro h
    obtain ⟨name, hname, hunder⟩ := h crossedProfile demoRegistry
        ⟨.str "fetch.mock", .str "fetch.mock", .str "fetch.mock",
      .str "fetch.mock", .str "fetch.mock", .str "fetch.mock"⟩ rfl rfl "enumerator" (by decide)
    obtain rfl : "fetch.mock" = name := Option.some.inj hname
    have hfetcher : demoRegistry.Under "fetcher" "fetch.mock" := ⟨["fetch.mock"], rfl, by decide⟩
    exact absurd (demoRegistry.once _ _ _ hunder hfetcher) (by decide)

end DatasourceKit

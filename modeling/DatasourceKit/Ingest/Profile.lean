/-
  Providers by name (`providers.py`, `profile.py`).

  * `ProviderRegistry`, `ProviderRegistry.register`: the table of the names and the index of the
    categories, and how they stay in step; `builtinRegistry`;
  * `SourceProfile`: a profile keeps what `__post_init__` checks; `loadProfile`: from a document;
  * `validateSource`: every name of the profile is registered; `resolve`: the provider of a slot.
-/
import Mathlib.Data.List.Sort
import DatasourceKit.Value
import DatasourceKit.Ingest.Retry

namespace DatasourceKit

/-! ## The registry -/

/-- `[a-z][a-z0-9_]*`. -/
def isWord : List Char → Bool
  | [] => false
  | c :: cs => ('a' ≤ c && c ≤ 'z') && cs.all fun c =>
    ('a' ≤ c && c ≤ 'z') || ('0' ≤ c && c ≤ '9') || c == '_'

/-- `_NAME_RE.match(name)`; the `$` also matches before a newline at the end. -/
def isSafeName (name : String) : Bool :=
  let cs := if name.toList.getLast? = some '\n' then name.toList.dropLast else name.toList
  let words := cs.splitOn '.'
  decide (2 ≤ words.length) && words.all isWord

/-- The name is listed in the category. -/
def Listed (byCategory : AList fun _ : String => List String) (category name : String) : Prop :=
  ∃ names, byCategory.lookup category = some names ∧ name ∈ names

/-- Every provider is listed in one category. -/
structure ProviderRegistry (P : Type) where
  byName : AList fun _ : String => P
  byCategory : AList fun _ : String => List String
  safe : ∀ name ∈ byName, isSafeName name = true
  listed : ∀ name, name ∈ byName ↔ ∃ category, Listed byCategory category name
  once : ∀ category category' name, Listed byCategory category name →
    Listed byCategory category' name → category = category'

namespace ProviderRegistry
variable {ε P : Type}

def empty : ProviderRegistry P where
  byName := ∅
  byCategory := ∅
  safe := fun name h => absurd h (AList.notMem_empty name)
  listed := fun name => ⟨fun h => absurd h (AList.notMem_empty name),
    fun ⟨category, names, h, _⟩ => by simp at h⟩
  once := fun category category' name ⟨names, h, _⟩ => by simp at h

/-- `self._by_category.setdefault(category, []).append(name)`. -/
def listIn (byCategory : AList fun _ : String => List String) (category name : String) :
    AList fun _ : String => List String :=
  byCategory.insert category ((byCategory.lookup category).getD [] ++ [name])

theorem listed_listIn {byCategory : AList fun _ : String => List String}
    {category name category' name' : String} :
    Listed (listIn byCategory category name) category' name' ↔
      Listed byCategory category' name' ∨ category' = category ∧ name' = name := by
  unfold Listed listIn
  by_cases hc : category' = category
  · subst hc
    rw [AList.lookup_insert]
    cases hl : byCategory.lookup category' with
    | none => simp
    | some names => simp
  · rw [AList.lookup_insert_ne hc]
    simp [hc]

variable (r : ProviderRegistry P)

def has (name : String) : Bool := decide (name ∈ r.byName)

/-- `registry[name]`. -/
def get (name : String) : Except (RunExc ε) P :=
  match r.byName.lookup name with
  | some fn => .ok fn
  | none => .error (.registry ("unknown provider: " ++ name))

/-- The provider of this name was registered under the category. -/
def Under (category name : String) : Prop := Listed r.byCategory category name

def register [StrRepr] (name : String) (fn : P) (category : String) :
    Except (RunExc ε) (ProviderRegistry P) :=
  if hsafe : isSafeName name = false then
    .error (.registry ("invalid provider name: " ++ StrRepr.repr name))
  else if isBlank category then .error (.registry "provider category must be non-empty")
  else if hnew : name ∈ r.byName then .error (.registry ("duplicate provider: " ++ name))
  else .ok {
    byName := r.byName.insert name fn
    byCategory := listIn r.byCategory category name
    safe := fun name' h => by
      rcases (AList.mem_insert _).1 h with rfl | h
      · exact eq_true_of_ne_false hsafe
      · exact r.safe name' h
    listed := fun name' => by
      simp only [AList.mem_insert, r.listed, listed_listIn]
      constructor
      · rintro (rfl | ⟨category', h⟩)
        · exact ⟨category, .inr ⟨rfl, rfl⟩⟩
        · exact ⟨category', .inl h⟩
      · rintro ⟨category', h | ⟨-, rfl⟩⟩
        · exact .inr ⟨category', h⟩
        · exact .inl rfl
    once := fun category₁ category₂ name' h₁ h₂ => by
      have hno : ∀ category', ¬ Listed r.byCategory category' name := fun category' h =>
        hnew ((r.listed name).2 ⟨category', h⟩)
      rcases listed_listIn.1 h₁ with hold₁ | ⟨hc₁, hn₁⟩ <;>
      rcases listed_listIn.1 h₂ with hold₂ | ⟨hc₂, hn₂⟩
      · exact r.once _ _ _ hold₁ hold₂
      · exact absurd (hn₂ ▸ hold₁) (hno _)
      · exact absurd (hn₁ ▸ hold₂) (hno _)
      · rw [hc₁, hc₂] }

/-- A name is registered iff there is a provider under it. -/
theorem has_iff {name : String} : r.has name = true ↔ ∃ fn, r.byName.lookup name = some fn := by
  rw [has, decide_eq_true_iff, ← AList.lookup_isSome, Option.isSome_iff_exists]

theorem get_of_lookup {name : String} {fn : P} (h : r.byName.lookup name = some fn) :
    (r.get name : Except (RunExc ε) P) = .ok fn := by
  rw [get, h]

/-- The names of the providers that come with the package, and their categories. -/
def builtins : List (String × String) :=
  [("window.by_day", "enumerator"), ("fetch.mock", "fetcher"), ("records.passthrough", "mapper"),
      ("diff.by_id", "diff"),
    ("diff.full_replace", "diff"), ("assess.passthrough", "assess"),
    ("identity.by_field", "identity"), ("store.in_memory", "store"), ("store.sqlite", "store")]

end ProviderRegistry

/-- `builtin_registry`; `fn` are the functions. -/
def builtinRegistry {ε P : Type} [StrRepr] (fn : String → P) :
    Except (RunExc ε) (ProviderRegistry P) :=
  ProviderRegistry.builtins.foldlM (fun r x => r.register x.1 (fn x.1) x.2) .empty

/-! ## Profiles -/

/-- A profile that has passed `__post_init__`. -/
structure SourceProfile (Obj : Type) where
  name : String
  sourceType : String
  providers : AList fun _ : String => String
  policies : AList fun _ : String => Obj
  statusVocabulary : List String
  completenessLayers : List String
  name_text : isBlank name = false
  sourceType_text : isBlank sourceType = false
  providers_some : providers.keys ≠ []
  providers_text : ∀ x ∈ providers.entries, isBlank x.1 = false ∧ isBlank x.2 = false

section
variable {ε P Obj : Type}

/-- `__post_init__`. -/
def SourceProfile.make (name sourceType : String) (providers : AList fun _ : String => String)
    (policies : AList fun _ : String => Obj) (statusVocabulary completenessLayers : List String) :
    Except (RunExc ε) (SourceProfile Obj) :=
  if hname : isBlank name then .error (.profile "profile name must be non-empty")
  else if htype : isBlank sourceType then .error (.profile "source_type must be non-empty")
  else if hsome : providers.keys = [] then .error (.profile "providers must be non-empty")
  else if htext : ∀ x ∈ providers.entries, isBlank x.1 = false ∧ isBlank x.2 = false then
    .ok ⟨name, sourceType, providers, policies, statusVocabulary, completenessLayers,
      isBlank_eq_false hname, isBlank_eq_false htype, hsome, htext⟩
  else .error (.profile "provider names must be non-empty strings")

/-- `str(v)`, `dict(v or {})` and `list(v or [])` of the values of a document. -/
structure Convert (ε Obj : Type) where
  str : Json → String
  dict : Json → Except (RunExc ε) (AList fun _ : String => Obj)
  list : Json → Except (RunExc ε) (List String)

/-- `_string`. -/
def stringField (raw : Dict) (key : String) : Except (RunExc ε) String :=
  match raw.get key with
  | .str value => if isBlank value then .error (.profile (key ++ " must be a non-empty string"))
    else .ok value
  | _ => .error (.profile (key ++ " must be a non-empty string"))

/-- `_providers`. -/
def providersField (str : Json → String) : Json → Except (RunExc ε) (AList fun _ : String => String)
  | .obj (x :: raw) => .ok ((x :: raw).foldl (fun d x => d.insert x.1 (str x.2)) ∅)
  | _ => .error (.profile "providers must be a non-empty object")

/-- `load_profile`, of the document in the profile's file; `none` if that is no object. -/
def loadProfile (conv : Convert ε Obj) (raw : Option Dict) :
    Except (RunExc ε) (SourceProfile Obj) :=
  match raw with
  | none => .error (.profile "profile document must be an object")
  | some raw => do
    let name ← stringField raw "name"
    let sourceType ← stringField raw "source_type"
    let providers ← providersField conv.str (raw.get "providers")
    SourceProfile.make name sourceType providers (← conv.dict (raw.get "policies"))
        (← conv.list (raw.get "status_vocabulary"))
      (← conv.list (raw.get "completeness_layers"))

variable (profile : SourceProfile Obj) (registry : ProviderRegistry P)

/-- The slots of the profile that name no registered provider, as the error shows them. -/
def missingProviders : List String :=
  (profile.providers.entries.filter fun x => !registry.has x.2).map fun x => x.1 ++ "=" ++ x.2

def validateSource : Except (RunExc ε) Unit :=
  match missingProviders profile registry with
  | [] => .ok ()
  | missing => .error (.profile ("unknown providers: " ++
      ", ".intercalate (missing.mergeSort fun a b => decide (a ≤ b))))

/-- `registry[providers[slot]]`. -/
def resolve (slot : String) : Except (RunExc ε) P :=
  match profile.providers.lookup slot with
  | some name => registry.get name
  | none => .error (.key slot)

variable {profile registry}

/-- A profile passes iff all its names are registered. -/
theorem validateSource_ok : (validateSource profile registry : Except (RunExc ε) Unit) = .ok () ↔
    ∀ slot name, profile.providers.lookup slot = some name → registry.has name = true := by
  have hmissing : missingProviders profile registry = [] ↔
      ∀ slot name, profile.providers.lookup slot = some name → registry.has name = true := by
    rw [missingProviders, List.map_eq_nil_iff, List.filter_eq_nil_iff]
    constructor
    · intro h slot name hl
      simpa using h ⟨slot, name⟩ (AList.mem_lookup_iff.1 hl)
    · rintro h ⟨slot, name⟩ hmem
      simpa using h slot name (AList.mem_lookup_iff.2 hmem)
  rw [← hmissing, validateSource]
  cases missingProviders profile registry with
  | nil => simp
  | cons x l => simp

/-- What a failed validation reports. -/
theorem validateSource_error {e : RunExc ε} (h : validateSource profile registry = .error e) :
    e = .profile ("unknown providers: " ++
      ", ".intercalate ((missingProviders profile registry).mergeSort fun a b =>
        decide (a ≤ b))) := by
  unfold validateSource at h
  cases hm : missingProviders profile registry with
  | nil =>
    rw [hm] at h
    cases h
  | cons x l =>
    rw [hm] at h
    exact (Except.error.inj h).symm

/-- In a profile that has passed, every slot that is named has a provider. -/
theorem resolve_of_valid
    (hvalid : (validateSource profile registry : Except (RunExc ε) Unit) = .ok ())
    {slot name : String} (hname : profile.providers.lookup slot = some name) :
    ∃ fn, registry.byName.lookup name = some fn ∧
    (resolve profile registry slot : Except (RunExc ε) P) = .ok fn := by
  obtain ⟨fn, hfn⟩ := registry.has_iff.1 (validateSource_ok.1 hvalid slot name hname)
  refine ⟨fn, hfn, ?_⟩
  rw [resolve, hname]
  exact registry.get_of_lookup hfn

end

end DatasourceKit

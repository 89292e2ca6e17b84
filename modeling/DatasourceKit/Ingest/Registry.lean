/-
  Histories of `ProviderRegistry.register` (`providers.py`).

  * `InGrammar`: two or more identifiers with dots between them, which is what `_NAME_RE` is
    for; `isSafeName_iff`: it also accepts such a name with a newline after it;
  * `call`, `after`: the registry after some calls, of which any may fail; `keys`, `items`;
  * `registry_invariant_iff`: after any calls the two tables are in step, and hold the names of
    the successful calls; these are in the grammar exactly where no call brings a newline.
-/
import DatasourceKit.Ingest.Profile

namespace DatasourceKit

/-! ## Names -/

/-- `[a-z][a-z0-9_]*(\.[a-z][a-z0-9_]*)+`, and nothing else. -/
def InGrammar (name : String) : Prop :=
  ∃ words : List (List Char), 2 ≤ words.length ∧ (∀ word ∈ words, isWord word = true) ∧
    name.toList = ['.'].intercalate words

/-- The characters of an identifier are neither dots nor newlines. -/
theorem notMem_word {word : List Char} (h : isWord word = true) : '.' ∉ word ∧ '\n' ∉ word := by
  cases word with
  | nil => simp
  | cons c cs =>
    simp only [isWord, Bool.and_eq_true, decide_eq_true_eq, List.all_eq_true,
      Bool.or_eq_true, beq_iff_eq] at h
    obtain ⟨hc, hcs⟩ := h
    constructor <;> rw [List.mem_cons, not_or] <;> constructor
    · rintro rfl
      exact absurd hc (by decide)
    · exact fun hmem => absurd (hcs _ hmem) (by decide)
    · rintro rfl
      exact absurd hc (by decide)
    · exact fun hmem => absurd (hcs _ hmem) (by decide)

theorem notMem_intercalate {words : List (List Char)} (h : ∀ word ∈ words, isWord word = true) :
    '\n' ∉ ['.'].intercalate words := by
  induction words with
  | nil => simp
  | cons word words ih =>
    have hword := (notMem_word (h word List.mem_cons_self)).2
    cases words with
    | nil => simpa using hword
    | cons word' words =>
      rw [List.intercalate_cons_cons, List.mem_append, List.mem_append, not_or, not_or]
      exact ⟨⟨hword, by simp⟩, ih fun w hw => h w (List.mem_cons_of_mem _ hw)⟩

/-- What the pattern checks of the characters, the newline apart. -/
theorem words_iff {cs : List Char} :
    (decide (2 ≤ (cs.splitOn '.').length) && (cs.splitOn '.').all isWord) = true ↔
      ∃ words : List (List Char), 2 ≤ words.length ∧ (∀ word ∈ words, isWord word = true) ∧
        cs = ['.'].intercalate words := by
  rw [Bool.and_eq_true, decide_eq_true_eq, List.all_eq_true]
  constructor
  · rintro ⟨hlength, hall⟩
    exact ⟨_, hlength, hall, (List.intercalate_splitOn '.').symm⟩
  · rintro ⟨words, hlength, hall, rfl⟩
    have hsplit : (['.'].intercalate words).splitOn '.' = words := by
      refine List.splitOn_intercalate '.' (fun word hword => (notMem_word (hall word hword)).1) ?_
      rintro rfl
      simp at hlength
    rw [hsplit]
    exact ⟨hlength, hall⟩

/-- **The pattern accepts a newline** after a name, and nothing else outside the grammar. -/
theorem isSafeName_iff {name : String} :
    isSafeName name = true ↔ InGrammar name ∨ ∃ stem, InGrammar stem ∧ name = stem ++ "\n" := by
  rw [isSafeName]
  split_ifs with hlast
  · rw [words_iff]
    have hname : name.toList = name.toList.dropLast ++ ['\n'] :=
      (List.dropLast_append_getLast? _ hlast).symm
    constructor
    · intro h
      refine .inr ⟨String.ofList name.toList.dropLast, by simpa [InGrammar] using h, ?_⟩
      rw [← String.toList_inj, String.toList_append, String.toList_ofList]
      exact hname
    · rintro (⟨words, -, hall, hwords⟩ | ⟨stem, hstem, rfl⟩)
      · refine absurd ?_ (notMem_intercalate hall)
        rw [← hwords, hname]
        simp
      · simpa [InGrammar] using hstem
  · rw [words_iff]
    constructor
    · exact .inl
    · rintro (h | ⟨stem, -, rfl⟩)
      · exact h
      · simp at hlast

theorem not_inGrammar_newline (stem : String) : ¬InGrammar (stem ++ "\n") := by
  rintro ⟨words, -, hall, hwords⟩
  refine notMem_intercalate hall ?_
  rw [← hwords]
  simp

/-! ## Calls -/

/-- The arguments of `register`. -/
structure Registration (P : Type) where
  name : String
  fn : P
  category : String

namespace ProviderRegistry
variable {P : Type} [StrRepr]

/-- A call of `register`. -/
def call (r : ProviderRegistry P) (c : Registration P) :
    ProviderRegistry P × Except (RunExc Empty) Unit :=
  match r.register c.name c.fn c.category with
  | .ok r' => (r', .ok ())
  | .error e => (r, .error e)

/-- The registry after the calls. -/
def after (calls : List (Registration P)) :
    ProviderRegistry P := calls.foldl (fun r c => (r.call c).1) empty

/-- `keys`. -/
def keys (r : ProviderRegistry P) : List String := r.byName.keys.insertionSort (· ≤ ·)

/-- `items`. -/
def items (r : ProviderRegistry P) : List (String × P) :=
  r.keys.filterMap fun name => (r.byName.lookup name).map (name, ·)

/-- The successful calls among those that follow `r`. -/
def successes : ProviderRegistry P → List (Registration P) → List (Registration P)
  | _, [] => []
  | r, c :: calls =>
    match (r.call c).2 with
    | .ok () => c :: successes (r.call c).1 calls
    | .error _ => successes r calls

/-- What `register` checks of its arguments. -/
def Acceptable (c : Registration P) : Prop := isSafeName c.name = true ∧ isBlank c.category = false

/-- No category lists a name twice. -/
def Once (r : ProviderRegistry P) : Prop :=
  ∀ category names, r.byCategory.lookup category = some names → names.Nodup

/-- **One call**: it registers an acceptable new name, or changes nothing. -/
theorem call_cases (r : ProviderRegistry P) (c : Registration P) :
    (Acceptable c ∧ c.name ∉ r.byName ∧ (r.call c).2 = .ok () ∧
      (r.call c).1.byName = r.byName.insert c.name c.fn ∧
      (r.call c).1.byCategory = listIn r.byCategory c.category c.name) ∨
    ((¬Acceptable c ∨ c.name ∈ r.byName) ∧ (∃ e, (r.call c).2 = .error e) ∧ (r.call c).1 = r) := by
  unfold call Acceptable
  rw [register]
  by_cases hsafe : isSafeName c.name = false
  · rw [dif_pos hsafe]
    exact .inr ⟨.inl fun h => absurd h.1 (by simp [hsafe]), ⟨_, rfl⟩, rfl⟩
  rw [dif_neg hsafe]
  by_cases hblank : isBlank c.category = true
  · rw [if_pos hblank]
    exact .inr ⟨.inl fun h => absurd h.2 (by simp [hblank]), ⟨_, rfl⟩, rfl⟩
  rw [if_neg hblank]
  by_cases hold : c.name ∈ r.byName
  · rw [dif_pos hold]
    exact .inr ⟨.inr hold, ⟨_, rfl⟩, rfl⟩
  · rw [dif_neg hold]
    exact .inl ⟨⟨eq_true_of_ne_false hsafe, eq_false_of_ne_true hblank⟩, hold, rfl, rfl, rfl⟩

theorem call_once {r : ProviderRegistry P} (h : r.Once) (c : Registration P) :
    (r.call c).1.Once := by
  rcases r.call_cases c with ⟨-, hnew, -, -, hcategory⟩ | ⟨-, -, hr⟩
  · intro category names hnames
    rw [hcategory, listIn] at hnames
    by_cases hc : category = c.category
    · subst hc
      rw [AList.lookup_insert] at hnames
      obtain rfl := Option.some.inj hnames
      cases hold : r.byCategory.lookup c.category with
      | none => simp
      | some old =>
        rw [Option.getD_some, List.nodup_append]
        refine ⟨h _ _ hold, by simp, fun a ha b hb => ?_⟩
        obtain rfl := List.mem_singleton.1 hb
        rintro rfl
        exact hnew ((r.listed _).2 ⟨_, old, hold, ha⟩)
    · rw [AList.lookup_insert_ne hc] at hnames
      exact h _ _ hnames
  · rwa [hr]

theorem foldl_once {r : ProviderRegistry P} (calls : List (Registration P)) (h : r.Once) :
    (calls.foldl (fun r c => (r.call c).1) r).Once := by
  induction calls generalizing r with
  | nil => exact h
  | cons c calls ih => exact ih (call_once h c)

/-- The names of a run: those of its successful calls, which differ. -/
theorem foldl_call (r : ProviderRegistry P) (calls : List (Registration P)) :
    (∀ name, name ∈ (calls.foldl (fun r c => (r.call c).1) r).byName ↔
        name ∈ r.byName ∨ name ∈ (successes r calls).map (·.name)) ∧
      ((successes r calls).map (·.name)).Nodup ∧
      (∀ name ∈ (successes r calls).map (·.name), name ∉ r.byName) := by
  induction calls generalizing r with
  | nil => simp [successes]
  | cons c calls ih =>
    rw [List.foldl_cons, successes]
    rcases r.call_cases c with ⟨-, hnew, hok, hname, -⟩ | ⟨-, ⟨e, he⟩, hr⟩
    · obtain ⟨hmem, hnodup, hfresh⟩ := ih (r.call c).1
      have hinsert : ∀ name, name ∈ (r.call c).1.byName ↔ name = c.name ∨ name ∈ r.byName := by
        intro name
        rw [hname]
        exact AList.mem_insert _
      rw [hok, List.map_cons]
      refine ⟨fun name => ?_, List.nodup_cons.2 ⟨fun hmem => ?_, hnodup⟩, fun name hmem hold => ?_⟩
      · rw [hmem, hinsert, List.mem_cons]
        tauto
      · exact hfresh _ hmem ((hinsert _).2 (.inl rfl))
      · rcases List.mem_cons.1 hmem with rfl | hmem
        · exact hnew hold
        · exact hfresh _ hmem ((hinsert _).2 (.inr hold))
    · rw [he, hr]
      exact ih r

omit [StrRepr] in
theorem mem_keys {r : ProviderRegistry P} {name : String} : name ∈ r.keys ↔ name ∈ r.byName := by
  rw [keys, List.mem_insertionSort]
  rfl

omit [StrRepr] in
/-- Each name is listed once in one category. -/
theorem listed_once {r : ProviderRegistry P} (h : r.Once) {name : String}
    (hname : name ∈ r.byName) :
    ∃ category names, r.byCategory.lookup category = some names ∧ names.count name = 1 ∧
      ∀ category' names', r.byCategory.lookup category' = some names' → name ∈ names' →
      category' = category := by
  obtain ⟨category, names, hnames, hmem⟩ := (r.listed name).1 hname
  exact ⟨category, names, hnames, List.count_eq_one_of_mem (h _ _ hnames) hmem,
    fun category' names' hnames' hmem' =>
    r.once _ _ _ ⟨names', hnames', hmem'⟩ ⟨names, hnames, hmem⟩⟩

/-- A name with a newline that is acceptable is held after all calls. -/
theorem acceptable_held {calls : List (Registration P)} {c : Registration P} (hc : c ∈ calls)
    (h : Acceptable c) (r : ProviderRegistry P) :
    c.name ∈ (calls.foldl (fun r c => (r.call c).1) r).byName := by
  induction calls generalizing r with
  | nil => cases hc
  | cons c' calls ih =>
    rw [List.foldl_cons]
    rcases List.mem_cons.1 hc with rfl | hc
    · refine ((foldl_call _ calls).1 _).2 (.inl ?_)
      rcases r.call_cases c with ⟨-, -, -, hname, -⟩ | ⟨hbad, -, hr⟩
      · rw [hname]
        exact (AList.mem_insert _).2 (.inl rfl)
      · rw [hr]
        exact hbad.resolve_left (not_not.2 h)
    · exact ih hc _

/-- A call with a name of the grammar and a newline, and a category. -/
def BringsNewline (c : Registration P) : Prop :=
  ∃ stem, InGrammar stem ∧ c.name = stem ++ "\n" ∧ isBlank c.category = false

theorem of_mem_successes {r : ProviderRegistry P} {calls : List (Registration P)}
    {c : Registration P} (hc : c ∈ successes r calls) : c ∈ calls ∧ Acceptable c := by
  induction calls generalizing r with
  | nil => cases hc
  | cons c' calls ih =>
    rw [successes] at hc
    rcases r.call_cases c' with ⟨hacceptable, -, hok, -⟩ | ⟨-, ⟨e, he⟩, -⟩
    · rw [hok] at hc
      rcases List.mem_cons.1 hc with rfl | hc
      · exact ⟨List.mem_cons_self, hacceptable⟩
      · exact (ih hc).imp_left (List.mem_cons_of_mem _)
    · rw [he] at hc
      exact (ih hc).imp_left (List.mem_cons_of_mem _)

/-- The names after the calls are all in the grammar exactly where no call brings a newline. -/
theorem inGrammar_iff (calls : List (Registration P)) :
    (∀ name ∈ (after calls).keys, InGrammar name) ↔ ∀ c ∈ calls, ¬BringsNewline c := by
  constructor
  · rintro h c hc ⟨stem, hstem, hname, hcategory⟩
    have hheld := acceptable_held hc ⟨isSafeName_iff.2 (.inr ⟨stem, hstem, hname⟩), hcategory⟩ empty
    have hgrammar := h c.name (mem_keys.2 hheld)
    rw [hname] at hgrammar
    exact not_inGrammar_newline stem hgrammar
  · intro h name hname
    have hmem := mem_keys.1 hname
    rcases isSafeName_iff.1 ((after calls).safe name hmem) with hgrammar | ⟨stem, hstem, rfl⟩
    · exact hgrammar
    · rcases ((foldl_call empty calls).1 _).1 hmem with hempty | hsuccess
      · exact absurd hempty (AList.notMem_empty _)
      · obtain ⟨c, hc, hcname⟩ := List.mem_map.1 hsuccess
        obtain ⟨hcalls, hacceptable⟩ := of_mem_successes hc
        exact absurd ⟨stem, hstem, hcname, hacceptable.2⟩ (h c hcalls)

/-- The registry holds the names of the successful calls; both tables agree on them. -/
structure InStep (calls : List (Registration P)) : Prop where
  held : (after calls).keys.Perm ((successes empty calls).map (·.name))
  items : (after calls).items.map Prod.fst = (after calls).keys
  once : ∀ name ∈ (after calls).keys, ∃ category names,
    (after calls).byCategory.lookup category = some names ∧ names.count name = 1 ∧
    ∀ category' names', (after calls).byCategory.lookup category' = some names' →
    name ∈ names' → category' = category
  failed : ∀ c e, ((after calls).call c).2 = .error e → ((after calls).call c).1 = after calls

/-- **The tables keep in step** over all calls, of which any may fail. -/
theorem inStep (calls : List (Registration P)) : InStep calls where
  held := by
    obtain ⟨hmem, hnodup, -⟩ := foldl_call empty calls
    have hkeys : (after calls).keys.Nodup :=
      (List.perm_insertionSort _ _).nodup_iff.2 (after calls).byName.keys_nodup
    refine (List.perm_ext_iff_of_nodup hkeys hnodup).2 fun name =>
      mem_keys.trans ((hmem name).trans ?_)
    exact or_iff_right (AList.notMem_empty name)
  items := by
    have hsome : ∀ name ∈ (after calls).keys,
        (((after calls).byName.lookup name).map (name, ·)).map Prod.fst = some name := by
      intro name hname
      obtain ⟨fn, hfn⟩ := Option.isSome_iff_exists.1 (AList.lookup_isSome.2 (mem_keys.1 hname))
      simp [hfn]
    rw [items, List.map_filterMap, List.filterMap_congr hsome, List.filterMap_some]
  once name hname := by
    refine listed_once ?_ (mem_keys.1 hname)
    exact foldl_once calls fun category names h => nomatch h
  failed c e he := by
    rcases (after calls).call_cases c with ⟨-, -, hok, -⟩ | ⟨-, -, hr⟩
    · rw [hok] at he
      cases he
    · exact hr

/-- **The invariant of the registry** over all calls, of which any may fail: the names are those
    of the successful calls, both tables agree on them, and they are all in the grammar. It
    holds exactly where no call brings a name with a newline. -/
theorem registry_invariant_iff (calls : List (Registration P)) :
    (InStep calls ∧ ∀ name ∈ (after calls).keys, InGrammar name) ↔
    ∀ c ∈ calls, ¬BringsNewline c := by
  rw [inGrammar_iff]
  exact and_iff_right (inStep calls)

end ProviderRegistry

section

local instance plainStrings : StrRepr := ⟨id⟩

/-- A name with a newline is registered. -/
theorem registers_newline :
    (ProviderRegistry.empty.call ⟨"a.b\n", (), "fetcher"⟩).2 = .ok () ∧
      "a.b\n" ∈ (ProviderRegistry.after [⟨"a.b\n", (), "fetcher"⟩]).keys ∧ ¬InGrammar "a.b\n" := by
  have hacceptable : ProviderRegistry.Acceptable ⟨"a.b\n", (), "fetcher"⟩ := ⟨by decide, by decide⟩
  refine ⟨?_, ?_, not_inGrammar_newline "a.b"⟩
  · rcases ProviderRegistry.empty.call_cases ⟨"a.b\n", (), "fetcher"⟩ with ⟨-, -, hok, -⟩ |
      ⟨hbad | hold, -⟩
    · exact hok
    · exact absurd hacceptable hbad
    · exact absurd hold (AList.notMem_empty _)
  · exact ProviderRegistry.mem_keys.2
      (ProviderRegistry.acceptable_held List.mem_cons_self hacceptable _)

end

end DatasourceKit

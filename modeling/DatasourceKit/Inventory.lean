/-
  The fleet inventory (`inventory.py`, `manifest.py`).

  Importing a module runs its body, which may raise anything; so may reading an attribute of
  what has been imported, and of a manifest, whose fields nothing checks.

  * `Manifest`, `Manifest.make`: what the inventory reads of a manifest, and its `__post_init__`;
  * `ImportHost`: what the imports of a call give;
  * `loadManifest`, `InventoryEntry.fromManifest`, `fleetInventory`: the source functions;
  * `fleet_inventory_iff`: a call fails closed exactly where no other exception gets out of the
    first module that does not load.
-/
import DatasourceKit.Value

namespace DatasourceKit

/-! ## Manifests -/

/-- The exceptions that code outside may raise, as the inventory tells them apart. -/
inductive ModuleExc where
  | inventory (message : String)   -- InventoryError
  | importError (text : String)
  | noAttribute (text : String)    -- AttributeError
  | valueError (text : String)
  | other (name : String)          -- any other Exception
  | exit (name : String)           -- a BaseException that is no Exception
deriving DecidableEq

/-- An `Exception` other than `InventoryError`. -/
def ModuleExc.IsForeign : ModuleExc → Prop
  | inventory _ | exit _ => False
  | importError _ | noAttribute _ | valueError _ | other _ => True

/-- The value of an attribute, or what reading it raises. -/
abbrev Attribute (α : Type) := Except ModuleExc α

/-- What the inventory reads of a `Manifest`: the model of its execution, if it has one, its
    contract, and what `dict` makes of its `rate_limit`. -/
structure Manifest where
  name : String
  execution : Option (Attribute PyVal)
  contract : Option PyVal
  rateLimit : Attribute PyDict

namespace Manifest

/-- `self.execution is not None and self.execution.model == EXECUTION_AUTONOMOUS`. -/
def isAutonomous (m : Manifest) : Attribute Bool :=
  match m.execution with
  | none => .ok false
  | some model => model.map fun
    | .str label => label == "autonomous"
    | _ => false

/-- `self.execution.model if self.execution is not None else ""`. -/
def executionModel (m : Manifest) : Attribute PyVal := m.execution.getD (.ok (.str ""))

/-- `Manifest(...)`: the fields, once `__post_init__` has passed. -/
def make (m : Manifest) : Attribute Manifest := do
  if (← m.isAutonomous) && m.contract.isNone then
    .error (.valueError ("Autonomous datasource '" ++ m.name ++ "' must declare a contract"))
  else .ok m

end Manifest

/-- A value a module exposes; of others than manifests only the name of the type is told. -/
inductive Exposed where
  | manifest (m : Manifest)
  | other (typeName : String)

/-- `importlib.import_module` and `getattr`: the `n`-th import of a call gives a module, whose
    attributes may be computed. -/
structure ImportHost where
  importModule : ℕ → String → Attribute (String → Attribute Exposed)

/-! ## The inventory -/

structure InventoryEntry where
  name : String
  manifest : Manifest
  isAutonomous : Bool
  hasContract : Bool
  executionModel : PyVal
  rateLimit : PyDict

/-- `InventoryEntry.from_manifest`. -/
def InventoryEntry.fromManifest (name : String) (manifest : Manifest) :
    Attribute InventoryEntry := do
  let isAutonomous ← manifest.isAutonomous
  let executionModel ← manifest.executionModel
  let rateLimit ← manifest.rateLimit
  return { name, manifest, isAutonomous, hasContract := manifest.contract.isSome,
           executionModel, rateLimit }

/-- `_load_manifest`, as the `n`-th import of a call. -/
def loadManifest (host : ImportHost) (n : ℕ) (modulePath attr : String) : Attribute Manifest :=
  match host.importModule n modulePath with
  | .error (.importError text) =>
    .error (.inventory ("cannot import manifest module '" ++ modulePath ++ "': " ++ text))
  | .error e => .error e
  | .ok getattr =>
    match getattr attr with
    | .error (.noAttribute _) =>
      .error (.inventory
        ("manifest module '" ++ modulePath ++ "' has no attribute '" ++ attr ++ "'"))
    | .error e => .error e
    | .ok (.other typeName) =>
      .error (.inventory
        ("'" ++ modulePath ++ "." ++ attr ++ "' is " ++ typeName ++ ", not a Manifest"))
    | .ok (.manifest m) => .ok m

/-- `package.ds.submodule`, or `package.ds`. -/
def modulePath (package submodule ds : String) : String :=
  if submodule = "" then package ++ "." ++ ds else package ++ "." ++ ds ++ "." ++ submodule

/-- The loop of `fleet_inventory`, from its `n`-th import on. -/
def inventoryFrom (host : ImportHost) (package submodule attr : String) :
    ℕ → List String → Attribute (List InventoryEntry)
  | _, [] => .ok []
  | n, ds :: datasources => do
    let manifest ← loadManifest host n (modulePath package submodule ds) attr
    let entry ← InventoryEntry.fromManifest ds manifest
    let entries ← inventoryFrom host package submodule attr (n + 1) datasources
    return entry :: entries

/-- `fleet_inventory`. -/
def fleetInventory (host : ImportHost) (package : String) (datasources : List String)
    (submodule attr : String) : Attribute (List InventoryEntry) :=
  inventoryFrom host package submodule attr 0 datasources

/-! ## Failing closed -/

section
variable (host : ImportHost) (package submodule attr : String)

/-- The `n`-th import gives the manifest `m` for the name `ds`. -/
def Gives (n : ℕ) (ds : String) (m : Manifest) : Prop :=
  ∃ getattr, host.importModule n (modulePath package submodule ds) = .ok getattr ∧
    getattr attr = .ok (.manifest m)

/-- The entry tells what its manifest says. -/
structure Agrees (n : ℕ) (ds : String) (entry : InventoryEntry) : Prop where
  name : entry.name = ds
  given : Gives host package submodule attr n ds entry.manifest
  isAutonomous : entry.manifest.isAutonomous = .ok entry.isAutonomous
  hasContract : entry.hasContract = entry.manifest.contract.isSome
  executionModel : entry.manifest.executionModel = .ok entry.executionModel
  rateLimit : entry.manifest.rateLimit = .ok entry.rateLimit

/-- One entry for each name, in order, or an `InventoryError`, or no `Exception`. -/
def FailsClosed (n : ℕ) (datasources : List String) : Attribute (List InventoryEntry) → Prop
  | .ok entries => entries.length = datasources.length ∧
      ∀ i ds entry, datasources[i]? = some ds → entries[i]? = some entry →
        Agrees host package submodule attr (n + i) ds entry
  | .error e => ¬e.IsForeign

/-- Reading the flags of the manifest raises a foreign exception: the model of the execution, or
    else the limits. -/
def Manifest.Unreadable (m : Manifest) : Prop :=
  (∃ e, m.execution = some (.error e) ∧ e.IsForeign) ∨
    (∀ e, m.execution ≠ some (.error e)) ∧ ∃ e, m.rateLimit = .error e ∧ e.IsForeign

/-- A foreign exception gets out of the `n`-th module: its body raises no `ImportError`, or its
    attribute no `AttributeError`, or its manifest cannot be read. -/
def Escapes (n : ℕ) (ds : String) : Prop :=
  (∃ e, host.importModule n (modulePath package submodule ds) = .error e ∧ e.IsForeign ∧
    ∀ text, e ≠ .importError text) ∨
  (∃ getattr e, host.importModule n (modulePath package submodule ds) = .ok getattr ∧
    getattr attr = .error e ∧ e.IsForeign ∧ ∀ text, e ≠ .noAttribute text) ∨
  ∃ m, Gives host package submodule attr n ds m ∧ m.Unreadable

/-- The `n`-th module exposes a manifest whose flags can be read. -/
def Loads (n : ℕ) (ds : String) : Prop :=
  ∃ m, Gives host package submodule attr n ds m ∧ (∀ e, m.execution ≠ some (.error e)) ∧
    ∃ limits, m.rateLimit = .ok limits

/-- Nothing gets out of the first module that does not load. -/
def Contained : ℕ → List String → Prop
  | _, [] => True
  | n, ds :: datasources => ¬Escapes host package submodule attr n ds ∧
      (Loads host package submodule attr n ds → Contained (n + 1) datasources)

variable {host package submodule attr} {n : ℕ} {ds : String} {m : Manifest}

theorem Gives.unique {m' : Manifest} (h : Gives host package submodule attr n ds m)
    (h' : Gives host package submodule attr n ds m') : m' = m := by
  obtain ⟨getattr, himport, hattr⟩ := h
  obtain ⟨getattr', himport', hattr'⟩ := h'
  obtain rfl := Except.ok.inj (himport.symm.trans himport')
  injection Except.ok.inj (hattr'.symm.trans hattr)

/-- What a manifest module gives, or raises. -/
theorem loadManifest_cases :
    (∃ m, loadManifest host n (modulePath package submodule ds) attr = .ok m ∧
      Gives host package submodule attr n ds m) ∨
    ∃ e, loadManifest host n (modulePath package submodule ds) attr = .error e ∧
      (∀ m, ¬Gives host package submodule attr n ds m) ∧
      (e.IsForeign ↔ Escapes host package submodule attr n ds) := by
  rcases himport : host.importModule n (modulePath package submodule ds) with e | getattr
  · refine .inr ?_
    have hgives : ∀ m, ¬Gives host package submodule attr n ds m := by
      rintro m ⟨getattr, h, -⟩
      exact nomatch himport.symm.trans h
    have hescapes : Escapes host package submodule attr n ds ↔
        e.IsForeign ∧ ∀ text, e ≠ .importError text := by
      constructor
      · rintro (⟨e', h, hforeign⟩ | ⟨getattr, e', h, -⟩ | ⟨m, hm, -⟩)
        · cases himport.symm.trans h
          exact hforeign
        · exact nomatch himport.symm.trans h
        · exact absurd hm (hgives m)
      · exact fun h => .inl ⟨e, himport, h⟩
    rw [hescapes, loadManifest, himport]
    cases e with
    | importError text => exact ⟨_, rfl, hgives, by simp [ModuleExc.IsForeign]⟩
    | inventory _ | noAttribute _ | valueError _ | other _ | exit _ =>
      exact ⟨_, rfl, hgives, by simp⟩
  · rcases hattr : getattr attr with e | exposed
    · refine .inr ?_
      have hgives : ∀ m, ¬Gives host package submodule attr n ds m := by
        rintro m ⟨getattr', h, h'⟩
        cases himport.symm.trans h
        exact nomatch hattr.symm.trans h'
      have hescapes : Escapes host package submodule attr n ds ↔
          e.IsForeign ∧ ∀ text, e ≠ .noAttribute text := by
        constructor
        · rintro (⟨e', h, -⟩ | ⟨getattr', e', h, h', hforeign⟩ | ⟨m, hm, -⟩)
          · exact nomatch himport.symm.trans h
          · cases himport.symm.trans h
            cases hattr.symm.trans h'
            exact hforeign
          · exact absurd hm (hgives m)
        · exact fun h => .inr (.inl ⟨getattr, e, himport, hattr, h⟩)
      rw [hescapes, loadManifest, himport]
      simp only [hattr]
      cases e with
      | noAttribute text => exact ⟨_, rfl, hgives, by simp [ModuleExc.IsForeign]⟩
      | inventory _ | importError _ | valueError _ | other _ | exit _ =>
        exact ⟨_, rfl, hgives, by simp⟩
    · cases exposed with
      | manifest m =>
        refine .inl ⟨m, ?_, getattr, himport, hattr⟩
        rw [loadManifest, himport]
        simp only [hattr]
      | other typeName =>
        have hgives : ∀ m, ¬Gives host package submodule attr n ds m := by
          rintro m ⟨getattr', h, h'⟩
          cases himport.symm.trans h
          exact nomatch hattr.symm.trans h'
        refine .inr ⟨_, by rw [loadManifest, himport]; simp only [hattr]; rfl, hgives, ?_⟩
        refine iff_of_false (fun h => h) ?_
        rintro (⟨e, h, -⟩ | ⟨getattr', e, h, h', -⟩ | ⟨m, hm, -⟩)
        · exact nomatch himport.symm.trans h
        · cases himport.symm.trans h
          exact nomatch hattr.symm.trans h'
        · exact hgives m hm

/-- The flags of a manifest, or what reading them raises. -/
theorem fromManifest_cases (ds : String) (m : Manifest) :
    (∃ entry, InventoryEntry.fromManifest ds m = .ok entry ∧ entry.name = ds ∧ entry.manifest = m ∧
      m.isAutonomous = .ok entry.isAutonomous ∧ entry.hasContract = m.contract.isSome ∧
      m.executionModel = .ok entry.executionModel ∧ m.rateLimit = .ok entry.rateLimit ∧
      ∀ e, m.execution ≠ some (.error e)) ∨
    ∃ e, InventoryEntry.fromManifest ds m = .error e ∧ (e.IsForeign ↔ m.Unreadable) ∧
      ((∃ e, m.execution = some (.error e)) ∨ ∃ e, m.rateLimit = .error e) := by
  rcases m with ⟨name, execution, contract, rateLimit⟩
  rcases execution with _ | e | model
  · rcases rateLimit with e | limits
    · exact .inr ⟨e, rfl, by simp [Manifest.Unreadable], .inr ⟨e, rfl⟩⟩
    · exact .inl ⟨_, rfl, rfl, rfl, rfl, rfl, rfl, rfl, by simp⟩
  · exact .inr ⟨e, rfl, by simp [Manifest.Unreadable], .inl ⟨e, rfl⟩⟩
  · rcases rateLimit with e | limits
    · exact .inr ⟨e, rfl, by simp [Manifest.Unreadable], .inr ⟨e, rfl⟩⟩
    · exact .inl ⟨_, rfl, rfl, rfl, rfl, rfl, rfl, rfl, by simp⟩

/-- **One module**: it gives its entry, or raises; what gets out is foreign where it escapes. -/
theorem entry_cases :
    (∃ entry, (loadManifest host n (modulePath package submodule ds) attr >>=
      InventoryEntry.fromManifest ds) = .ok entry ∧
      Agrees host package submodule attr n ds entry ∧ Loads host package submodule attr n ds ∧
      ¬Escapes host package submodule attr n ds) ∨
    ∃ e, (loadManifest host n (modulePath package submodule ds) attr >>=
      InventoryEntry.fromManifest ds) = .error e ∧
      ¬Loads host package submodule attr n ds ∧
      (e.IsForeign ↔ Escapes host package submodule attr n ds) := by
  rcases @loadManifest_cases host package submodule attr n ds with ⟨m, hload, hm⟩ |
    ⟨e, hload, hgives, hforeign⟩
  · have hescapes : Escapes host package submodule attr n ds ↔ m.Unreadable := by
      obtain ⟨getattr, himport, hattr⟩ := hm
      constructor
      · rintro (⟨e, h, -⟩ | ⟨getattr', e, h, h', -⟩ | ⟨m', hm', h⟩)
        · exact nomatch himport.symm.trans h
        · cases himport.symm.trans h
          exact nomatch hattr.symm.trans h'
        · rwa [Gives.unique ⟨getattr, himport, hattr⟩ hm'] at h
      · exact fun h => .inr (.inr ⟨m, ⟨getattr, himport, hattr⟩, h⟩)
    rw [hload, hescapes]
    rcases fromManifest_cases ds m with
      ⟨entry, hentry, hname, rfl, hautonomous, hcontract, hmodel, hlimits, hread⟩ |
      ⟨e, he, hforeign, hbad⟩
    · refine .inl ⟨entry, hentry, ⟨hname, hm, hautonomous, hcontract, hmodel, hlimits⟩,
        ⟨_, hm, hread, _, hlimits⟩, ?_⟩
      rintro (⟨e, he, -⟩ | ⟨-, e, he, -⟩)
      · exact hread e he
      · exact nomatch hlimits.symm.trans he
    · refine .inr ⟨e, he, ?_, hforeign⟩
      rintro ⟨m', hm', hread, limits, hlimits⟩
      obtain rfl := Gives.unique hm hm'
      rcases hbad with ⟨e, he⟩ | ⟨e, he⟩
      · exact hread e he
      · exact nomatch hlimits.symm.trans he
  · exact .inr ⟨e, by rw [hload]; rfl, fun ⟨m, hm, _⟩ => hgives m hm, hforeign⟩

/-- The loop fails closed exactly where nothing gets out of the first module that does not load. -/
theorem inventoryFrom_iff (n : ℕ) (datasources : List String) :
    FailsClosed host package submodule attr n datasources
    (inventoryFrom host package submodule attr n datasources) ↔
    Contained host package submodule attr n datasources := by
  induction datasources generalizing n with
  | nil => simp [inventoryFrom, FailsClosed, Contained]
  | cons ds datasources ih =>
    have hstep : inventoryFrom host package submodule attr n (ds :: datasources) =
        (loadManifest host n (modulePath package submodule ds) attr >>=
            InventoryEntry.fromManifest ds) >>= fun entry =>
          (inventoryFrom host package submodule attr (n + 1) datasources).map (entry :: ·) := by
      rw [inventoryFrom, bind_assoc]
      rfl
    rw [hstep, Contained]
    rcases @entry_cases host package submodule attr n
      ds with ⟨entry, hentry, hagrees, hloads, hescapes⟩ | ⟨e, he, hloads, hforeign⟩
    · rw [hentry, ← ih (n + 1)]
      show FailsClosed _ _ _ _ _ _
        ((inventoryFrom host package submodule attr (n + 1) datasources).map (entry :: ·)) ↔
          _
      rcases inventoryFrom host package submodule attr (n + 1) datasources with e | entries
      · exact ⟨fun h => ⟨hescapes, fun _ => h⟩, fun h => h.2 hloads⟩
      · constructor
        · rintro ⟨hlength, hagree⟩
          refine ⟨hescapes, fun _ => ⟨by simpa using hlength, fun i ds' entry' hds' hentry' => ?_⟩⟩
          rw [Nat.add_assoc, Nat.add_comm 1 i]
          exact hagree (i + 1) ds' entry' hds' hentry'
        · rintro ⟨-, h⟩
          obtain ⟨hlength, hagree⟩ := h hloads
          refine ⟨by simpa using hlength, fun i ds' entry' hds' hentry' => ?_⟩
          cases i with
          | zero =>
            cases hds'
            cases hentry'
            exact hagrees
          | succ i =>
            rw [Nat.add_comm i 1, ← Nat.add_assoc]
            exact hagree i ds' entry' hds' hentry'
    · rw [he]
      show ¬e.IsForeign ↔ _
      rw [hforeign]
      exact ⟨fun h => ⟨h, fun hl => absurd hl hloads⟩, And.left⟩

end

/-- A module that makes an autonomous manifest without a contract. -/
def contractless : ImportHost where
  importModule _ _ := (Manifest.make
      ⟨"eli", some (.ok (.str "autonomous")), none, .ok []⟩).map fun m _ =>
    .ok (.manifest m)

end DatasourceKit

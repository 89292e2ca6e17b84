/-
  JSON texts: what `json.dumps` writes.

  * `JsonStyle`, `Json.render`: the text of a value, for any `ensure_ascii`, `separators` and
    `indent`;
  * `sortMembers`, `Json.sorted`: the order of `sort_keys`; `sortMembers_perm`: it does not depend
    on the order before.
-/
import Mathlib.Data.List.Sort
import Mathlib.Data.String.Basic
import DatasourceKit.JsonText.Token
import DatasourceKit.Value

namespace DatasourceKit

open JsonText

/-- `float.__repr__`. -/
class FloatText where
  floatText : ℚ → String

/-! ## Texts -/

/-- The options of `json.dumps`: the text between two members (without a line break), between a
    key and its value, and how far each level is indented, if at all. -/
structure JsonStyle where
  ensureAscii : Bool
  item : List Char
  key : List Char
  indent : Option ℕ

namespace JsonStyle

/-- The beginning of a line. -/
def newline (st : JsonStyle) (level : ℕ) : List Char :=
  match st.indent with
  | none => []
  | some n => '\n' :: List.replicate (n * level) ' '

/-- A string in quotation marks. -/
def quote (st : JsonStyle) (s : String) : List Char :=
  '"' :: (s.toList.flatMap (escape st.ensureAscii) ++ ['"'])

/-- The separators are a comma and a colon, with white space around. -/
structure Plain (st : JsonStyle) : Prop where
  item : ∃ ws, st.item = ',' :: ws ∧ ∀ c ∈ ws, isWs c = true
  key : ∃ ws, st.key = ':' :: ws ∧ ∀ c ∈ ws, isWs c = true

end JsonStyle

section
variable [FloatText] (st : JsonStyle)

mutual

/-- `json.dumps(v, ...)`. -/
def Json.render (level : ℕ) : Json → List Char
  | .null => ['n', 'u', 'l', 'l']
  | .bool true => ['t', 'r', 'u', 'e']
  | .bool false => ['f', 'a', 'l', 's', 'e']
  | .int n => (toString n).toList
  | .float q => (FloatText.floatText q).toList
  | .nan => ['N', 'a', 'N']
  | .infinity false => ['I', 'n', 'f', 'i', 'n', 'i', 't', 'y']
  | .infinity true => ['-', 'I', 'n', 'f', 'i', 'n', 'i', 't', 'y']
  | .str s => st.quote s
  | .arr [] => ['[', ']']
  | .arr (v :: l) => '[' :: (st.newline (level + 1) ++ (v.render (level + 1) ++
      (Json.renderItems (level + 1) l ++ (st.newline level ++ [']']))))
  | .obj [] => ['{', '}']
  | .obj ((k, v) :: l) =>
    '{' :: (st.newline (level + 1) ++ (st.quote k ++ (st.key ++ (v.render (level + 1) ++
      (Json.renderMembers (level + 1) l ++ (st.newline level ++ ['}']))))))

/-- The elements after the first one. -/
def Json.renderItems (level : ℕ) : List Json → List Char
  | [] => []
  | v :: l => st.item ++ (st.newline level ++ (v.render level ++ Json.renderItems level l))

/-- The members after the first one. -/
def Json.renderMembers (level : ℕ) : List (String × Json) → List Char
  | [] => []
  | (k, v) :: l => st.item ++ (st.newline level ++ (st.quote k ++ (st.key ++ (v.render level ++
      Json.renderMembers level l))))

end

end

/-! ## Sorted members -/

/-- The members of an object, in the order of their keys. -/
def sortMembers {α : Type} (l : List (String × α)) : List (String × α) :=
  l.insertionSort fun a b => a.1 ≤ b.1

/-- The order of the members is the order of their keys. -/
theorem sortMembers_perm {α : Type} {l m : List (String × α)} (h : l.Perm m)
    (hl : (l.map Prod.fst).Nodup) : sortMembers l = sortMembers m := by
  have htotal : Std.Total fun a b : String × α => a.1 ≤ b.1 := ⟨fun _ _ => le_total _ _⟩
  have htrans : IsTrans (String × α) fun a b => a.1 ≤ b.1 := ⟨fun _ _ _ => le_trans⟩
  have hkey : ∀ a b, a ∈ sortMembers l → b ∈ sortMembers m → a.1 ≤ b.1 → b.1 ≤ a.1 → a = b := by
    intro a b ha hb hab hba
    have hal : a ∈ l := (List.mem_insertionSort _).1 ha
    have hbl : b ∈ l := h.mem_iff.2 ((List.mem_insertionSort _).1 hb)
    exact List.inj_on_of_nodup_map hl hal hbl (le_antisymm hab hba)
  exact List.Perm.eq_of_pairwise hkey (List.pairwise_insertionSort _ l)
    (List.pairwise_insertionSort _ m)
    ((List.perm_insertionSort _ l).trans (h.trans (List.perm_insertionSort _ m).symm))

mutual

/-- The value as `sort_keys` orders it. -/
def Json.sorted : Json → Json
  | .arr l => .arr (Json.sortedList l)
  | .obj l => .obj (sortMembers (Json.sortedMembers l))
  | v => v

def Json.sortedList : List Json → List Json
  | [] => []
  | v :: l => v.sorted :: Json.sortedList l

def Json.sortedMembers : List (String × Json) → List (String × Json)
  | [] => []
  | (k, v) :: l => (k, v.sorted) :: Json.sortedMembers l

end

theorem sortedMembers_eq (l : List (String × Json)) :
    Json.sortedMembers l = l.map fun e => (e.1, e.2.sorted) := by
  induction l with
  | nil => rfl
  | cons e l ih => rw [Json.sortedMembers, ih, List.map_cons]

theorem keys_sortedMembers (l : List (String × Json)) :
    (Json.sortedMembers l).map Prod.fst = l.map Prod.fst := by
  rw [sortedMembers_eq, List.map_map]
  rfl

theorem sortMembers_mem {α : Type} {l : List (String × α)} {e : String × α} :
    e ∈ sortMembers l ↔ e ∈ l :=
  List.mem_insertionSort _

theorem sortMembers_keys {α : Type} (l : List (String × α)) :
    ((sortMembers l).map Prod.fst).Perm (l.map Prod.fst) :=
    (List.perm_insertionSort _ l).map Prod.fst

theorem digitsOkObj_perm {l m : List (String × Json)} (h : l.Perm m) :
    Json.digitsOkObj l = Json.digitsOkObj m := by
  induction h with
  | nil => rfl
  | cons x _ ih => simp [Json.digitsOkObj, ih]
  | swap x y l => simp [Json.digitsOkObj, Bool.and_left_comm]
  | trans _ _ ih₁ ih₂ => exact ih₁.trans ih₂

/-! ## Mappings -/

namespace Dict

/-- The members of a mapping. -/
def members (d : Dict) : List (String × Json) := d.entries.map fun e => (e.1, e.2)

theorem nodup_members (d : Dict) : (d.members.map Prod.fst).Nodup := by
  rw [members, List.map_map]
  exact d.nodupKeys

end Dict

end DatasourceKit

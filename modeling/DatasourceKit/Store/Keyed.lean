/-
  Keyed — lists in which the last element of each key counts.

  * `put`: an element replaces the one with its key, and comes last; `assign`: it takes its place;
  * `latest`: the elements that no later one with the same key replaces;
  * `foldl_put`: putting all elements of a list, one after the other, leaves its latest
    ones; `foldl_put_eq_self`, `foldl_assign_eq_self`: when this changes nothing.
-/
import Mathlib.Data.List.Nodup

namespace Keyed

variable {α κ : Type} [DecidableEq κ] (key : α → κ)

/-- Put `x` at the end, in place of what has its key. -/
def put (l : List α) (x : α) : List α := l.filter (fun y => key y ≠ key x) ++ [x]

/-- The elements that no later one replaces. -/
def latest : List α → List α
  | [] => []
  | x :: l => if key x ∈ l.map key then latest l else x :: latest l

variable {key}

theorem latest_sublist (l : List α) : (latest key l).Sublist l := by
  induction l with
  | nil => simp [latest]
  | cons x l ih =>
    rw [latest]
    split_ifs
    · exact ih.cons x
    · exact ih.cons_cons x

/-- No key is lost. -/
theorem mem_map_latest {l : List α} {k : κ} : k ∈ (latest key l).map key ↔ k ∈ l.map key := by
  induction l with
  | nil => simp [latest]
  | cons x l ih =>
    rw [latest]
    split_ifs with hx
    · rw [ih, List.map_cons, List.mem_cons]
      constructor
      · exact .inr
      · rintro (rfl | h)
        · exact hx
        · exact h
    · simp only [List.map_cons, List.mem_cons, ih]

theorem nodup_put {l : List α} (h : (l.map key).Nodup) (x : α) : ((put key l x).map key).Nodup := by
  have hfilter : ((l.filter fun y => key y ≠ key x).map key).Nodup :=
    h.sublist (List.filter_sublist.map key)
  simp only [put, List.map_append, List.map_cons, List.map_nil]
  refine hfilter.append (by simp) ?_
  intro k hk hx
  obtain ⟨y, hy, rfl⟩ := List.mem_map.1 hk
  have hne : key y ≠ key x := by simpa using (List.mem_filter.1 hy).2
  exact hne (by simpa using hx)

/-- **Putting a list leaves its latest elements**, and what they do not replace. -/
theorem foldl_put (l acc : List α) :
    l.foldl (put key) acc = acc.filter (fun y => key y ∉ l.map key) ++ latest key l := by
  induction l generalizing acc with
  | nil => simp [latest]
  | cons x l ih =>
    rw [List.foldl_cons, ih, put, List.filter_append, List.filter_filter, latest]
    have hboth : (acc.filter fun y => decide (key y ∉ l.map key) && decide (key y ≠ key x)) =
        acc.filter fun y => decide (key y ∉ (x :: l).map key) := by
      refine List.filter_congr fun y _ => ?_
      rw [← Bool.decide_and, decide_eq_decide, List.map_cons, List.mem_cons]
      tauto
    rw [hboth]
    by_cases hx : key x ∈ l.map key
    · rw [if_pos hx, List.filter_singleton, decide_eq_false (not_not.2 hx)]
      simp
    · rw [if_neg hx, List.filter_singleton, decide_eq_true hx]
      simp

/-- **Putting a list changes nothing** exactly if its latest elements come last. -/
theorem foldl_put_eq_self {l acc : List α} (hacc : (acc.map key).Nodup) :
    l.foldl (put key) acc = acc ↔ latest key l <:+ acc := by
  rw [foldl_put]
  constructor
  · exact fun h => ⟨_, h⟩
  · rintro ⟨p, rfl⟩
    rw [List.map_append, List.nodup_append] at hacc
    have hp : ∀ y ∈ p, decide (key y ∉ l.map key) = true := by
      intro y hy
      rw [decide_eq_true_iff, ← mem_map_latest]
      exact fun hmem => hacc.2.2 _ (List.mem_map_of_mem hy) _ hmem rfl
    have hlatest : ∀ y ∈ latest key l, ¬decide (key y ∉ l.map key) = true := by
      intro y hy
      rw [decide_eq_true_iff, not_not]
      exact List.mem_map_of_mem ((latest_sublist l).subset hy)
    rw [List.filter_append, List.filter_eq_self.2 hp,
      List.filter_eq_nil_iff.2 hlatest, List.append_nil]

/-! ## In place -/

variable (key) in
/-- Put `x` in the place of what has its key, or else at the end. -/
def assign (l : List α) (x : α) : List α :=
  if key x ∈ l.map key then l.map fun y => if key y = key x then x else y else l ++ [x]

theorem mem_assign {l : List α} {x y : α} : y ∈ assign key l x ↔ y = x ∨ y ∈ l ∧ key y ≠ key x := by
  rw [assign]
  split_ifs with hx
  · obtain ⟨z, hz, hzx⟩ := List.mem_map.1 hx
    rw [List.mem_map]
    constructor
    · rintro ⟨w, hw, rfl⟩
      split_ifs with hwx
      · exact .inl rfl
      · exact .inr ⟨hw, hwx⟩
    · rintro (rfl | ⟨hy, hyx⟩)
      · exact ⟨z, hz, if_pos hzx⟩
      · exact ⟨y, hy, if_neg hyx⟩
  · rw [List.mem_append, List.mem_singleton]
    constructor
    · rintro (hy | rfl)
      · exact .inr ⟨hy, fun heq => hx (heq ▸ List.mem_map_of_mem hy)⟩
      · exact .inl rfl
    · rintro (rfl | ⟨hy, -⟩)
      · exact .inr rfl
      · exact .inl hy

/-- The keys and their order stay, if the key is there. -/
theorem map_assign_of_mem {l : List α} {x : α} (h : key x ∈ l.map key) :
    (assign key l x).map key = l.map key := by
  rw [assign, if_pos h, List.map_map]
  refine List.map_congr_left fun y _ => ?_
  simp only [Function.comp]
  split_ifs with hy
  · exact hy.symm
  · rfl

theorem nodup_assign {l : List α} (h : (l.map key).Nodup) (x : α) :
    ((assign key l x).map key).Nodup := by
  by_cases hx : key x ∈ l.map key
  · rwa [map_assign_of_mem hx]
  · rw [assign, if_neg hx, List.map_append, List.nodup_append]
    refine ⟨h, by simp, fun a ha b hb => ?_⟩
    rw [List.map_singleton, List.mem_singleton] at hb
    rintro rfl
    exact hx (hb ▸ ha)

/-- After all assignments there are the latest elements, and what they do not replace. -/
theorem mem_foldl_assign {l xs : List α} {y : α} :
    y ∈ xs.foldl (assign key) l ↔ y ∈ latest key xs ∨ y ∈ l ∧ key y ∉ xs.map key := by
  induction xs generalizing l with
  | nil => simp [latest]
  | cons x xs ih =>
    rw [List.foldl_cons, ih, mem_assign, latest, List.map_cons, List.mem_cons]
    by_cases hx : key x ∈ xs.map key
    · rw [if_pos hx]
      constructor
      · rintro (h | ⟨rfl | ⟨hy, hne⟩, hnot⟩)
        · exact .inl h
        · exact absurd hx hnot
        · exact .inr ⟨hy, fun h => h.elim hne hnot⟩
      · rintro (h | ⟨hy, hnot⟩)
        · exact .inl h
        · exact .inr ⟨.inr ⟨hy, fun h => hnot (.inl h)⟩, fun h => hnot (.inr h)⟩
    · rw [if_neg hx, List.mem_cons]
      constructor
      · rintro (h | ⟨rfl | ⟨hy, hne⟩, hnot⟩)
        · exact .inl (.inr h)
        · exact .inl (.inl rfl)
        · exact .inr ⟨hy, fun h => h.elim hne hnot⟩
      · rintro ((rfl | h) | ⟨hy, hnot⟩)
        · exact .inr ⟨.inl rfl, hx⟩
        · exact .inl h
        · exact .inr ⟨.inr ⟨hy, fun h => hnot (.inl h)⟩, fun h => hnot (.inr h)⟩

theorem map_foldl_assign_of_mem {l xs : List α} (h : ∀ x ∈ xs, key x ∈ l.map key) :
    (xs.foldl (assign key) l).map key = l.map key := by
  induction xs generalizing l with
  | nil => rfl
  | cons x xs ih =>
    have hx := map_assign_of_mem (h x List.mem_cons_self)
    rw [List.foldl_cons, ih fun y hy => hx ▸ h y (List.mem_cons_of_mem _ hy), hx]

omit [DecidableEq κ] in
/-- Elements of a list with distinct keys are determined by their keys. -/
theorem eq_of_keys {l m : List α} (hl : (l.map key).Nodup) (hkeys : m.map key = l.map key)
    (hsub : ∀ y ∈ m, y ∈ l) :
    m = l := by
  refine List.ext_getElem (by simpa using congrArg List.length hkeys) fun n hm hn => ?_
  have hkey : key m[n] = key l[n] := by
    have hget : (m.map key)[n]? = (l.map key)[n]? := by rw [hkeys]
    simpa [hm, hn] using hget
  exact List.inj_on_of_nodup_map hl (hsub _ (List.getElem_mem hm)) (List.getElem_mem hn) hkey

/-- **Assigning a list changes nothing** exactly if its latest elements are there. -/
theorem foldl_assign_eq_self {l xs : List α} (hl : (l.map key).Nodup) :
    xs.foldl (assign key) l = l ↔ ∀ x ∈ latest key xs, x ∈ l := by
  constructor
  · intro h x hx
    rw [← h]
    exact mem_foldl_assign.2 (.inl hx)
  · intro h
    refine eq_of_keys hl (map_foldl_assign_of_mem fun x hx => ?_) fun y hy => ?_
    · obtain ⟨y, hy, hyx⟩ := List.mem_map.1 (mem_map_latest.2 (List.mem_map_of_mem (f := key) hx))
      exact hyx ▸ List.mem_map_of_mem (h y hy)
    · exact (mem_foldl_assign.1 hy).elim (h y) And.left

end Keyed

/-
  The walk down to the unit directory (`_open_trusted_unit_directory`).

  * `TrustedAncestor`, `TrustedUnit`: what a directory that leads to the unit directory has to
    be, and the unit directory itself; `SafePath`: a path of such directories;
  * `opens_iff`: the walk gets to its end exactly if every component passes its check;
  * `trusted_walk_iff`: that is a safe path, unless the unit directory is the root.
-/
import DatasourceKit.Clearance.Host
import DatasourceKit.Clearance.Transaction

namespace DatasourceKit

open Interleave Prog Files ClearanceHost

variable [ClearanceHost]

/-- A directory of root or of the caller that no one else may write, or root's with the sticky
    bit. -/
structure TrustedAncestor (st : Stat) : Prop where
  kind : st.kind = .directory
  uid : st.uid = 0 ∨ st.uid = euid
  mode : st.mode &&& 0o022 = 0 ∨ st.uid = 0 ∧ st.mode &&& 0o1000 ≠ 0

/-- A directory of the caller that no one else may write. -/
structure TrustedUnit (st : Stat) : Prop where
  kind : st.kind = .directory
  uid : st.uid = euid
  mode : st.mode &&& 0o022 = 0

/-- No component is a symbolic link, all but the last are trusted to lead to the last, and the
    last one is trusted. -/
structure SafePath (path : List Stat) : Prop where
  links : ∀ st ∈ path, st.kind ≠ .symlink
  ancestors : ∀ st ∈ path.dropLast, TrustedAncestor st
  unit : ∀ st, path.getLast? = some st → TrustedUnit st

theorem TrustedUnit.ancestor {st : Stat} (h : TrustedUnit st) :
    TrustedAncestor st := ⟨h.kind, .inr h.uid, .inl h.mode⟩

theorem validate_ancestor_iff {st : Stat} :
    validateTrustedDirectory st false = .ok () ↔ TrustedAncestor st := by
  simp only [validateTrustedDirectory, Bool.false_eq_true, if_false]
  constructor
  · intro h
    split_ifs at h with hkind huid hmode
    refine ⟨not_not.1 hkind, ?_, ?_⟩
    · by_contra hne
      exact huid (not_or.1 hne)
    · by_contra hne
      exact hmode (not_or.1 hne)
  · rintro ⟨hkind, huid, hmode⟩
    rw [if_neg (not_not.2 hkind), if_neg (not_and_or.2 (huid.imp not_not.2 not_not.2)),
      if_neg (not_and_or.2 (hmode.imp not_not.2 not_not.2))]

theorem validate_unit_iff {st : Stat} :
    validateTrustedDirectory st true = .ok () ↔ TrustedUnit st := by
  simp only [validateTrustedDirectory, if_true]
  constructor
  · intro h
    split_ifs at h with hkind hunit
    rw [not_or, not_not, not_not] at hunit
    exact ⟨not_not.1 hkind, hunit.1, hunit.2⟩
  · rintro ⟨hkind, huid, hmode⟩
    rw [if_neg (not_not.2 hkind), if_neg (not_or.2 ⟨not_not.2 huid, not_not.2 hmode⟩)]

/-- The components that pass are directories. -/
theorem kind_of_validate {st : Stat} {unit : Bool} (h : validateTrustedDirectory st unit = .ok ()) :
    st.kind = .directory := by
  cases unit with
  | false => exact (validate_ancestor_iff.1 h).kind
  | true => exact (validate_unit_iff.1 h).kind

/-! ## The walk -/

/-- The operations of a walk. -/
def IsWalk : ClearOp → Prop
  | .openPart _ | .fstat (.part _) | .stat .path | .quiet .. => True
  | _ => False

/-- A host with this path, on which no operation fails. -/
def calmHost (path : List Stat) : ClearEnv := ⟨path, False, True⟩

/-- The component `k` passes its check. -/
def Passes (path : List Stat) (k : ℕ) : Prop :=
  ∃ st, path[k]? = some st ∧
    validateTrustedDirectory st (decide (0 < k ∧ k + 1 = path.length)) = .ok ()

section
variable {path : List Stat} {s : FileSys Dir} {k : ℕ} {E : Exc → FileSys Dir → Prop}

theorem walk_step {o : ClearOp} (ho : IsWalk o) (s : FileSys Dir) :
    ∃ r s', ClearStep (calmHost path) o s r s' := by
  cases o with
  | openPart k => exact ⟨_, _, .inl ⟨rfl, rfl⟩⟩
  | fstat fd =>
    cases fd with
    | part k => exact ⟨_, _, .inl ⟨rfl, rfl⟩⟩
    | file i => exact ho.elim
  | stat n =>
    cases n with
    | path => exact ⟨_, _, .inl ⟨rfl, rfl⟩⟩
    | below | entry => exact ho.elim
  | quiet c fd => exact ⟨_, _, .inl ⟨rfl, rfl⟩⟩
  | openFile | create | mkdir | listdir | link | unlink | read | write |
    fchmod | uuid => exact ho.elim

/-- An operation of a walk has its effect. -/
theorem always_walkOp {o : ClearOp} {Q : o.Val → FileSys Dir → Prop} (ho : IsWalk o)
    (hok : ∀ v s', ClearEffect (calmHost path) o s (.ok v) s' → Q v s')
    (herr : ∀ e s', ClearEffect (calmHost path) o s (.error e) s' → E e s') :
    (perform o).Always (ClearStep (calmHost path)) (fun o _ => IsWalk o) Q E s :=
  always_clearOp ho (fun _ _ h => h.elim) hok herr

theorem always_close {fd : Fd} {Q : Unit → FileSys Dir → Prop} (h : Q () s) :
    (close fd).Always (ClearStep (calmHost path)) (fun o _ => IsWalk o) Q E s := by
  refine always_walkOp trivial ?_ ?_
  · rintro v s' ⟨-, rfl⟩
    exact h
  · rintro e s' ⟨he, -⟩
    cases he

/-- What closes a descriptor and raises again. -/
theorem always_orCloseWalk {α : Type} {p : ClearProg α} {fd : Fd} {Q : α → FileSys Dir → Prop}
    (h : p.Always (ClearStep (calmHost path)) (fun o _ => IsWalk o) Q (fun e _ => E e s) s)
    (hE : ∀ e s', E e s → E e s') :
    (orClose p fd).Always (ClearStep (calmHost path)) (fun o _ => IsWalk o) Q E s :=
  always_handle.2 (h.mono (fun _ _ hg => hg) (fun _ _ hq => hq) fun e s' he =>
    always_bind.2 (always_close (hE e s' he)))

theorem always_validateWalk {unit : Bool} {st : Stat} (hst : path[k]? = some st) :
    (validatePart k unit).Always (ClearStep (calmHost path)) (fun o _ => IsWalk o)
      (fun _ s' => s' = s ∧ validateTrustedDirectory st unit = .ok ())
      (fun _ _ => validateTrustedDirectory st unit ≠ .ok ()) s := by
  refine always_orCloseWalk (always_bind.2 (always_walkOp trivial ?_ ?_)) fun _ _ h => h
  · rintro v s' ⟨rfl, hv⟩
    simp only [calmHost, hst] at hv
    cases hv
    cases hvalid : validateTrustedDirectory st unit with
    | ok u => exact ⟨rfl, rfl⟩
    | error e => exact fun h => nomatch h
  · rintro e s' ⟨-, he⟩
    simp only [calmHost, hst] at he
    cases he

theorem always_openWalk {st : Stat} (hst : path[k]? = some st) :
    (Os.openPart k).Always (ClearStep (calmHost path)) (fun o _ => IsWalk o)
      (fun _ s' => s' = s ∧ st.kind = .directory) (fun _ _ => st.kind ≠ .directory) s := by
  refine always_walkOp trivial ?_ ?_
  · rintro v s' ⟨rfl, hv⟩
    simp only [calmHost, hst] at hv
    refine ⟨rfl, ?_⟩
    cases hkind : st.kind <;> simp_all [openAnswer]
  · rintro e s' ⟨-, he⟩ hkind
    simp only [calmHost, hst, hkind, openAnswer] at he
    cases he

/-- **The walk below the root**: it gets through exactly if all components pass. -/
theorem always_walkParts {n : ℕ} (h : k + n + 1 = path.length) :
    (walkParts path.length k n).Always (ClearStep (calmHost path)) (fun o _ => IsWalk o)
      (fun _ s' => s' = s ∧ ∀ j, k < j → j ≤ k + n → Passes path j)
      (fun _ _ => ¬∀ j, k < j → j ≤ k + n → Passes path j) s := by
  induction n generalizing k with
  | zero => exact ⟨rfl, fun j hj hj' => by omega⟩
  | succ n ih =>
    obtain ⟨st, hst⟩ : ∃ st, path[k + 1]? = some st := ⟨_, List.getElem?_eq_getElem (by omega)⟩
    have hunit : (k + 1 == path.length - 1) = decide (0 < k + 1 ∧ k + 1 + 1 = path.length) := by
      rw [Bool.eq_iff_iff, beq_iff_eq, decide_eq_true_eq]
      omega
    have hpasses : Passes path (k + 1) →
        validateTrustedDirectory st (decide (0 < k + 1 ∧ k + 1 + 1 = path.length)) = .ok () := by
      rintro ⟨st', hst', hvalid⟩
      obtain rfl := Option.some.inj (hst.symm.trans hst')
      exact hvalid
    refine always_bind.2 (always_orCloseWalk
      (always_bind.2 ((always_openWalk hst).mono (fun _ _ hg => hg) ?_ ?_)) fun _ _ h => h)
    · rintro v s' ⟨rfl, hkind⟩
      refine always_close (always_bind.2 ?_)
      rw [hunit]
      refine (always_validateWalk hst).mono (fun _ _ hg => hg) ?_ ?_
      · rintro v s'' ⟨rfl, hvalid⟩
        refine (ih (k := k + 1) (by omega)).mono (fun _ _ hg => hg) ?_ ?_
        · rintro v s ⟨rfl, hall⟩
          refine ⟨rfl, fun j hj hj' => ?_⟩
          rcases Nat.eq_or_lt_of_le (Nat.succ_le_of_lt hj) with rfl | hlt
          · exact ⟨st, hst, hvalid⟩
          · exact hall j hlt (by omega)
        · exact fun _ _ hno hall => hno fun j hj hj' => hall j (by omega) (by omega)
      · exact fun _ _ hno hall => hno (hpasses (hall (k + 1) (by omega) (by omega)))
    · exact fun _ _ hno hall =>
        hno (kind_of_validate (hpasses (hall (k + 1) (by omega) (by omega))))

/-- **The walk**: it opens the unit directory if all components pass, and raises if not. -/
theorem always_walk (hpos : 0 < path.length) :
    (openTrustedUnitDirectory path.length).Always (ClearStep (calmHost path)) (fun o _ => IsWalk o)
      (fun st s' => s' = s ∧ path.getLast? = some st ∧ TrustedPath path path.length)
      (fun _ _ => ¬TrustedPath path path.length) s := by
  have hpasses : TrustedPath path path.length → ∀ j, j < path.length →
      Passes path j := fun h j hj =>
    ⟨_, List.getElem?_eq_getElem hj, h.valid j _ (List.getElem?_eq_getElem hj)⟩
  obtain ⟨root, hroot⟩ : ∃ st, path[0]? = some st := ⟨_, List.getElem?_eq_getElem hpos⟩
  have hvalidRoot : TrustedPath path path.length →
      validateTrustedDirectory root false = .ok () := by
    intro h
    have hvalid := h.valid 0 root hroot
    rwa [decide_eq_false (by omega)] at hvalid
  refine always_bind.2 ((always_openWalk hroot).mono (fun _ _ hg => hg) ?_ ?_)
  · rintro v s' ⟨rfl, -⟩
    refine always_bind.2 ((always_validateWalk hroot).mono (fun _ _ hg => hg) ?_ ?_)
    · rintro v s'' ⟨rfl, hvalid⟩
      refine always_bind.2 ((always_walkParts (k := 0) (n := path.length - 1) (by omega)).mono
        (fun _ _ hg => hg) ?_ ?_)
      · rintro v s ⟨rfl, hall⟩
        have htrusted : TrustedPath path path.length := by
          refine ⟨rfl, hpos, fun j st hst => ?_⟩
          rcases Nat.eq_zero_or_pos j with rfl | hj
          · obtain rfl := Option.some.inj (hroot.symm.trans hst)
            rwa [decide_eq_false (by omega)]
          · obtain ⟨hlt, -⟩ := List.getElem?_eq_some_iff.1 hst
            obtain ⟨st', hst', hvalid'⟩ := hall j hj (by omega)
            obtain rfl := Option.some.inj (hst.symm.trans hst')
            exact hvalid'
        obtain ⟨last, hlast⟩ : ∃ st, path[path.length - 1]? = some st :=
          ⟨_, List.getElem?_eq_getElem (by omega)⟩
        have hlast' : path.getLast? = some last := by rw [List.getLast?_eq_getElem?, hlast]
        refine always_orCloseWalk (always_bind.2 (always_walkOp trivial ?_ ?_)) fun _ _ h => h
        · rintro st s'' ⟨rfl, hst⟩
          simp only [calmHost, hlast] at hst
          cases hst
          refine always_bind.2 (always_walkOp trivial ?_ ?_)
          · rintro named s ⟨rfl, hnamed⟩
            simp only [statNamed, calmHost, hlast'] at hnamed
            cases hnamed
            exact always_bind.2 (always_require (fun _ => ⟨rfl, hlast', htrusted⟩) fun hne => by
              simp [sameInode] at hne)
          · rintro e s ⟨-, he⟩
            simp only [statNamed, calmHost, hlast'] at he
            cases he
        · rintro e s ⟨-, he⟩
          simp only [calmHost, hlast] at he
          cases he
      · exact fun _ _ hno h => hno fun j _ hj => hpasses h j (by omega)
    · exact fun _ _ hno h => hno (hvalidRoot h)
  · exact fun _ _ hno h => hno (kind_of_validate (hvalidRoot h))

end

/-! ## What it checks -/

/-- Some walk from the state opens the unit directory. -/
def Opens (path : List Stat) (s : FileSys Dir) : Prop :=
  ∃ s' st, Steps (ClearStep (calmHost path)) (openTrustedUnitDirectory path.length) s s' (.ret st)

/-- Some walk from the state raises. -/
def Refuses (path : List Stat) (s : FileSys Dir) : Prop :=
  ∃ s' e, Steps (ClearStep (calmHost path)) (openTrustedUnitDirectory path.length) s s' (.raise e)

/-- The walk opens the directory or refuses it, as the checks say. -/
theorem opens_iff {path : List Stat} (hpos : 0 < path.length) (s : FileSys Dir) :
    (Opens path s ↔ TrustedPath path path.length) ∧
    (Refuses path s ↔ ¬TrustedPath path path.length) := by
  have hwalk := always_walk hpos (s := s)
  have hopens : Opens path s → TrustedPath path path.length :=
    fun ⟨s', st, h⟩ => (hwalk.steps h).2.2
  have hrefuses : Refuses path s → ¬TrustedPath path path.length := fun ⟨s', e, h⟩ => hwalk.steps h
  have hstep : ∀ o s, IsWalk o → ∃ r s', ClearStep (calmHost path) o s r s' :=
    fun _ s ho => walk_step ho s
  rcases Always.exists_steps hstep hwalk with ⟨st, s', h, -⟩ | ⟨e, s', h, -⟩
  · have ho : Opens path s := ⟨s', st, h⟩
    exact ⟨iff_of_true ho (hopens ho),
      iff_of_false (fun hr => hrefuses hr (hopens ho)) (not_not.2 (hopens ho))⟩
  · have hr : Refuses path s := ⟨s', e, h⟩
    exact ⟨iff_of_false (fun ho => hrefuses hr (hopens ho)) (hrefuses hr),
      iff_of_true hr (hrefuses hr)⟩

/-- Below the root the checks are those of a safe path. -/
theorem trustedPath_iff {root : Stat} {parts : List Stat} (hparts : parts ≠ []) :
    TrustedPath (root :: parts) (root :: parts).length ↔ SafePath (root :: parts) := by
  have hlen : 0 < parts.length := List.length_pos_iff.2 hparts
  constructor
  · intro h
    have hkind : ∀ st ∈ root :: parts, st.kind = .directory := by
      intro st hst
      obtain ⟨k, hk⟩ := List.mem_iff_getElem?.1 hst
      exact kind_of_validate (h.valid k st hk)
    refine ⟨fun st hst => by simp [hkind st hst], fun st hst => ?_, fun st hst => ?_⟩
    · obtain ⟨k, hk⟩ := List.mem_iff_getElem?.1 hst
      obtain ⟨hlt, -⟩ := List.getElem?_eq_some_iff.1 hk
      rw [List.length_dropLast, List.length_cons] at hlt
      have hvalid := h.valid k st
        (by rwa [List.getElem?_dropLast, if_pos (by simpa using hlt)] at hk)
      rw [decide_eq_false (by simp; omega)] at hvalid
      exact validate_ancestor_iff.1 hvalid
    · rw [List.getLast?_eq_getElem?] at hst
      have hvalid := h.valid _ st hst
      rw [decide_eq_true (by simp; omega)] at hvalid
      exact validate_unit_iff.1 hvalid
  · intro h
    refine ⟨rfl, by simp, fun k st hst => ?_⟩
    obtain ⟨hlt, -⟩ := List.getElem?_eq_some_iff.1 hst
    by_cases hlast : 0 < k ∧ k + 1 = (root :: parts).length
    · rw [decide_eq_true hlast, validate_unit_iff]
      refine h.unit st ?_
      rw [List.getLast?_eq_getElem?, ← hst, ← hlast.2]
      rfl
    · rw [decide_eq_false hlast, validate_ancestor_iff]
      have hk : k < (root :: parts).length - 1 := by
        rw [List.length_cons] at hlt hlast ⊢
        omega
      refine h.ancestors st (List.mem_iff_getElem?.2 ⟨k, ?_⟩)
      rw [List.getElem?_dropLast, if_pos hk, hst]

/-- **The walk opens exactly the safe paths**, unless the unit directory is the root, which is
    only checked as an ancestor: there it does if the root, where it passes that check, is the
    caller's. -/
theorem trusted_walk_iff (root : Stat) (parts : List Stat) (s : FileSys Dir) :
    (Opens (root :: parts) s ↔ SafePath (root :: parts)) ↔
      (parts = [] → TrustedAncestor root → TrustedUnit root) := by
  rw [(opens_iff (List.length_pos_of_mem List.mem_cons_self) s).1]
  by_cases hparts : parts = []
  · subst hparts
    have htrusted : TrustedPath [root] [root].length ↔ TrustedAncestor root := by
      rw [← validate_ancestor_iff]
      constructor
      · intro h
        exact h.valid 0 root rfl
      · intro h
        refine ⟨rfl, by simp, fun k st hst => ?_⟩
        obtain ⟨hlt, -⟩ := List.getElem?_eq_some_iff.1 hst
        obtain rfl : k = 0 := by simpa using hlt
        cases hst
        exact h
    have hsafe : SafePath [root] ↔ TrustedUnit root := by
      constructor
      · exact fun h => h.unit root rfl
      · refine fun h => ⟨fun st hst => ?_, fun st hst => by simp at hst, fun st hst => ?_⟩
        · rw [List.mem_singleton.1 hst, h.kind]
          simp
        · cases hst
          exact h
    rw [htrusted, hsafe]
    exact ⟨fun h _ => h.1, fun h => ⟨h rfl, TrustedUnit.ancestor⟩⟩
  · exact iff_of_true (trustedPath_iff hparts) fun h => absurd h hparts

/-! ## The root as the unit directory -/

/-- A host whose caller is not root. -/
@[reducible]
def userHost : ClearanceHost := @codecHost oneFloat 1000 (fun _ => "") fun _ => ""

/-- A root directory that everyone may write, with the sticky bit. -/
def stickyRoot : Stat := ⟨2, .directory, 0, 0o1777, 20⟩

/-- No file is anywhere. -/
def emptyDirs : FileSys Dir := ⟨fun _ => ⟨.other, 0, 0, 0, []⟩, fun _ _ => none⟩

omit [ClearanceHost] in
theorem root_not_trusted : @Opens userHost [stickyRoot] emptyDirs ∧
    ¬@SafePath userHost [stickyRoot] := by
  let := userHost
  refine ⟨(opens_iff (by decide) _).1.2 ⟨rfl, by decide, fun k st hst => ?_⟩, fun h => ?_⟩
  · obtain ⟨hlt, -⟩ := List.getElem?_eq_some_iff.1 hst
    obtain rfl : k = 0 := by simpa using hlt
    cases hst
    rfl
  · exact absurd (h.unit stickyRoot rfl).mode (by decide)

end DatasourceKit

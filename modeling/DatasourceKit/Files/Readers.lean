/-
  Readers — files that are read piece by piece, while others write.

  * `ReadOp`, `Disk.Answered`: opening a name, and reading some bytes of an inode from an
    offset on;
  * `readFile`: open a name, and read until nothing more comes;
  * `Fixed`: the file a name leads to is not written any more, though the name may come to
    lead to another one; `always_readFile`: then what is read, the name has held at one moment;
  * `Complete`: the file is nobody's to write; `Complete.step`: writers that replace their
    targets leave it so.
-/
import DatasourceKit.Files.Replace
import DatasourceKit.Interleave.History

namespace Files

open Interleave Interleave.Prog

variable {N ε S : Type}

/-! ## Operations -/

inductive ReadOp (N : Type) where
  | openRead (n : N)
  | read (i off : ℕ)

/-- An inode, or some bytes. -/
abbrev ReadOp.Val : ReadOp N → Type
  | openRead _ => ℕ
  | read .. => List UInt8

/-- What a reader may be answered: of the bytes that are left at least one, if there is one.
    Only what is not there is not found. -/
inductive Disk.Answered (notFound : ε) (raises : ε → Prop) (d : Disk N) :
    (o : ReadOp N) → Except ε o.Val → Prop
  | opened {n i} : d.entry n = some i → Answered notFound raises d (.openRead n) (.ok i)
  | refused {n e} : raises e → (e = notFound → d.entry n = none) →
    Answered notFound raises d (.openRead n) (.error e)
  | piece {i off k} : 0 < k →
    Answered notFound raises d (.read i off) (.ok (((d.content i).drop off).take k))
  | failed {i off e} : raises e → e ≠ notFound → Answered notFound raises d (.read i off) (.error e)

/-- One round: what has been read is longer, or complete. -/
def readPiece (i : ℕ) (b : List UInt8) : Prog (ReadOp.Val (N := N)) ε (List UInt8 ⊕ List UInt8) :=
  (perform (ReadOp.read i b.length)).bind fun piece =>
    .ret (if piece = [] then .inr b else .inl (b ++ piece))

/-- Open the file, and read it to its end; `none` if that takes more than `n` rounds. -/
def readFile (n : ℕ) (name : N) : Prog (ReadOp.Val (N := N)) ε (Option (List UInt8)) :=
  (perform (ReadOp.openRead name)).bind fun i => iterate (readPiece i) n []

/-! ## Reading while others write -/

section
variable {later : S → S → Prop} {disk : S → Disk N} {name : N} {s₀ : S}
  {notFound : ε} {raises : ε → Prop}

/-- A state between two others. -/
structure Meanwhile (later : S → S → Prop) (s₀ s s₁ : S) : Prop where
  after : later s₀ s₁
  before : later s₁ s

/-- Whatever the name leads to from `s₀` on keeps its content. -/
def Fixed (later : S → S → Prop) (disk : S → Disk N) (name : N) (s₀ : S) : Prop :=
  ∀ s s' i, later s₀ s → later s s' → (disk s).entry name = some i →
    (disk s').content i = (disk s).content i

/-- What the reader is answered, when anything has happened since its last operation. -/
def ReadLater (later : S → S → Prop) (disk : S → Disk N) (notFound : ε) (raises : ε → Prop)
    (o : ReadOp N) (s : S) (r : Except ε o.Val) (s' : S) : Prop :=
  later s s' ∧ (disk s').Answered notFound raises o r

/-- What reading the file comes to in one moment: its content, if it has fewer than `n` bytes. -/
def ReadsAs (n : ℕ) (name : N) (d : Disk N) : Option (List UInt8) → Prop
  | some b => d.read name = some b
  | none => ∃ b, d.read name = some b ∧ n ≤ b.length

/-- The reader is at `b` of a file that holds `whole`, and held it when it was opened. -/
structure Reading (later : S → S → Prop) (disk : S → Disk N) (name : N) (s₀ : S) (i : ℕ)
    (whole b : List UInt8) (s : S) : Prop where
  moment : ∃ s₁, Meanwhile later s₀ s s₁ ∧ (disk s₁).read name = some whole
  still : ∀ s', later s s' → (disk s').content i = whole
  done : b <+: whole

/-- A round reads more of the file, or has read all of it. -/
theorem always_readPiece (htrans : ∀ s s' s'', later s s' → later s' s'' → later s s'') {i : ℕ}
    {whole b : List UInt8} {s : S} (h : Reading later disk name s₀ i whole b s) :
    (readPiece i b : Prog (ReadOp.Val (N := N)) ε _).Always (ReadLater later disk notFound raises)
    (fun _ _ => True) (fun x s' => match x with
        | .inl b' => Reading later disk name s₀ i whole b' s' ∧ b.length < b'.length
        | .inr b' => b' = whole ∧ Reading later disk name s₀ i whole b' s')
      (fun e _ => raises e ∧ e ≠ notFound) s := by
  obtain ⟨⟨s₁, hs₁, hread⟩, hstill, hdone⟩ := h
  have hlater : ∀ {b' s'}, later s s' → b' <+: whole →
      Reading later disk name s₀ i whole b' s' := fun hs' hb' =>
    ⟨⟨s₁, ⟨hs₁.after, htrans _ _ _ hs₁.before hs'⟩, hread⟩, fun _ h =>
      hstill _ (htrans _ _ _ hs' h), hb'⟩
  refine always_bind.2 (always_perform.2 ⟨trivial, ?_, ?_⟩)
  · rintro piece s' ⟨hs', hans⟩
    obtain ⟨k, hk, rfl⟩ : ∃ k, 0 < k ∧ piece = (whole.drop b.length).take k := by
      cases hans with
      | @piece _ _ k hk => exact ⟨k, hk, by rw [hstill s' hs']⟩
    obtain ⟨rest, rfl⟩ := hdone
    rw [List.drop_left]
    by_cases hrest : rest = []
    · subst hrest
      simp only [List.take_nil, if_true, List.append_nil] at hlater ⊢
      exact ⟨rfl, hlater hs' (List.prefix_refl _)⟩
    · have hlen : 0 < (rest.take k).length := by
        rw [List.length_take, Nat.lt_min]
        exact ⟨hk, List.length_pos_iff.2 hrest⟩
      rw [if_neg (List.length_pos_iff.1 hlen)]
      refine ⟨hlater hs' ((List.prefix_append_right_inj b).2 (List.take_prefix k rest)), ?_⟩
      rw [List.length_append]
      omega
  · rintro e s' ⟨-, hans⟩
    cases hans with
    | failed hraises hne => exact ⟨hraises, hne⟩

/-- **What is read of a file, it has held in one moment**, though its name may lead to other
    files in the meantime. -/
theorem always_readFile (hrefl : ∀ s, later s s)
    (htrans : ∀ s s' s'', later s s' → later s' s'' → later s s'')
    (hstill : Fixed later disk name s₀) (n : ℕ) :
    (readFile n name : Prog _ ε _).Always (ReadLater later disk notFound raises) (fun _ _ => True)
      (fun r s => ∃ s₁, Meanwhile later s₀ s s₁ ∧ ReadsAs n name (disk s₁) r)
      (fun e s => raises e ∧ (e = notFound → ∃ s₁, Meanwhile later s₀ s s₁ ∧
        (disk s₁).read name = none)) s₀ := by
  refine always_bind.2 (always_perform.2 ⟨trivial, ?_, ?_⟩)
  · rintro i s ⟨hs, hans⟩
    have hi : (disk s).entry name = some i := by
      cases hans with
      | opened hi => exact hi
    have hread : (disk s).read name = some ((disk s).content i) := by
      rw [Disk.read, hi, Option.map_some]
    have hstart : Reading later disk name s₀ i ((disk s).content i) [] s :=
      ⟨⟨s, ⟨hs, hrefl s⟩, hread⟩, fun s' hs' => hstill s s' i hs hs' hi, List.nil_prefix⟩
    have hfailed : ∀ e s', (raises e ∧ e ≠ notFound) →
        raises e ∧ (e = notFound → ∃ s₁, Meanwhile later s₀ s' s₁ ∧
            (disk s₁).read name = none) := fun _ _ he =>
      ⟨he.1, fun heq => absurd heq he.2⟩
    -- the bytes that are left bound the rounds
    by_cases hn : ((disk s).content i).length < n
    · refine (always_iterate_ends (I := Reading later disk name s₀ i ((disk s).content i))
        (m := fun b _ => ((disk s).content i).length - b.length)
        (Q := fun b s' => ∃ s₁, Meanwhile later s₀ s' s₁ ∧ ReadsAs n name (disk s₁) (some b))
        (fun b s' hb => ?_) hstart (by simpa using hn)).mono (fun _ _ h => h) ?_ fun _ _ h => h
      · refine (always_readPiece htrans hb).mono (fun _ _ h => h) ?_ hfailed
        rintro (b' | b') s'' hb'
        · have hle := hb'.1.done.length_le
          exact ⟨hb'.1, by omega⟩
        · obtain ⟨rfl, hb'⟩ := hb'
          exact hb'.moment
      · rintro r s' ⟨b, rfl, hb⟩
        exact hb
    · refine always_iterate (I := Reading later disk name s₀ i ((disk s).content i))
        (fun b s' hb => ?_) (fun b s' hb => ?_) hstart
      · refine (always_readPiece htrans hb).mono (fun _ _ h => h) ?_ hfailed
        rintro (b' | b') s'' hb'
        · exact hb'.1
        · obtain ⟨rfl, hb'⟩ := hb'
          exact hb'.moment
      · obtain ⟨s₁, hs₁, hread₁⟩ := hb.moment
        exact ⟨s₁, hs₁, _, hread₁, Nat.le_of_not_lt hn⟩
  · rintro e s ⟨hs, hans⟩
    cases hans with
    | refused hraises hnone =>
      refine ⟨hraises, fun heq => ⟨s, ⟨hs, hrefl s⟩, ?_⟩⟩
      rw [Disk.read, hnone heq, Option.map_none]

end

/-! ## Files that are nobody's to write -/

section
variable [DecidableEq N] {target : N → Prop} {d d' : Disk N} {hold : ℕ → Option (Hold N)} {i t : ℕ}
  {n : N} {whole : List UInt8}

open Disk

/-- The file is complete: no writer holds it, and only targets lead to it. -/
structure Complete (target : N → Prop) (d : Disk N) (hold : ℕ → Option (Hold N)) (i : ℕ)
    (whole : List UInt8) : Prop where
  inode : i < d.next
  only : ∀ n, d.entry n = some i → target n
  free : ∀ t h, hold t = some h → h.inode ≠ i
  content : d.content i = whole

omit [DecidableEq N] in
/-- What a target leads to is complete. -/
theorem Complete.of_entry (hr : Replacing target d hold) (hn : target n) (hi : d.entry n = some i) :
    Complete target d hold i (d.content i) where
  inode := d.bounded hi
  only _ hm := d.sole hi hm ▸ hn
  free t h hh heq := (hr.held t h hh).name ((hr.held t h hh).only n (heq ▸ hi) ▸ hn)
  content := rfl

omit [DecidableEq N] in
/-- One writer goes on to hold another file, or nothing. -/
theorem Complete.update {x : Option (Hold N)} (hp : Complete target d hold i whole)
    (hx : ∀ h, x = some h → h.inode ≠ i) :
    Complete target d (Function.update hold t x) i whole where
  inode := hp.inode
  only := hp.only
  free t' h hh := by
    by_cases ht : t' = t
    · subst ht
      rw [Function.update_self] at hh
      exact hx h hh
    · rw [Function.update_of_ne ht] at hh
      exact hp.free t' h hh
  content := hp.content

omit [DecidableEq N] in
/-- Another file is written. -/
theorem Complete.fill {j : ℕ} {b : List UInt8} (hp : Complete target d hold i whole) (hij : i ≠ j) :
    Complete target (d.fill j b) hold i whole where
  inode := hp.inode
  only := hp.only
  free := hp.free
  content := (fill_content_ne hij).trans hp.content

/-- A new file. -/
theorem Complete.create (hp : Complete target d hold i whole) :
    Complete target (d.create n) hold i whole where
  inode := Nat.lt_succ_of_lt hp.inode
  only m hm := by
    by_cases hmn : m = n
    · subst hmn
      rw [create_entry_self] at hm
      exact absurd (Option.some.inj hm) (Nat.ne_of_gt hp.inode)
    · rw [create_entry_ne hmn] at hm
      exact hp.only m hm
  free := hp.free
  content := (create_content_ne (Nat.ne_of_lt hp.inode)).trans hp.content

/-- A complete file stays as it is, whatever writers do that replace their targets. -/
theorem Complete.step {o : DiskOp N} {r : Except ε o.Val} (hp : Complete target d hold i whole)
    (ho : Permits target hold t o) (h : d.Acts o r d') :
    Complete target d' (Function.update hold t (Hold.after (hold t) o r)) i whole := by
  have hnew : ∀ n, ∀ h, some (⟨n, d.next, []⟩ : Hold N) = some h → h.inode ≠ i := by
    rintro n h ⟨⟩
    exact Nat.ne_of_gt hp.inode
  cases h with
  | @error o e =>
    refine hp.update fun h hh => ?_
    cases o with
    | unlink n => cases hh
    | create | truncate | write | rename | exists_ | sync => exact hp.free t h hh
  | create => exact hp.create.update (hnew _)
  | fresh => exact hp.create.update (hnew _)
  | @empty n j hj =>
    have hij : i ≠ j := by
      rintro rfl
      exact ho.1 (hp.only n hj)
    refine (hp.fill hij).update ?_
    rintro h ⟨⟩
    exact hij.symm
  | write hk =>
    obtain ⟨x, hx, rfl, rfl⟩ := ho
    refine (hp.fill fun heq => hp.free t x hx heq.symm).update ?_
    simp only [Hold.after, hx, Option.map_some]
    rintro h ⟨⟩
    exact hp.free t x hx
  | @rename src dst j hj =>
    obtain ⟨x, hx, rfl, hdst⟩ := ho
    refine Complete.update ⟨hp.inode, fun m hm => ?_, hp.free, hp.content⟩ fun _ hh => by cases hh
    by_cases hmd : m = dst
    · exact hmd ▸ hdst
    · rw [rename_entry_ne hmd] at hm
      exact hp.only m (of_remove_entry hm)
  | unlink =>
    exact Complete.update ⟨hp.inode, fun m hm =>
      hp.only m (of_remove_entry hm), hp.free, hp.content⟩
      fun _ hh => by cases hh
  | exists_ => exact hp.update fun h hh => hp.free t h hh
  | sync => exact hp.update fun h hh => hp.free t h hh

end

end Files

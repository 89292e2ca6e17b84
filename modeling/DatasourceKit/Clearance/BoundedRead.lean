/-
  Reading a file of bounded size (`_read_regular_fd`).

  Every round asks for what is left of the limit and for one byte more, so that a file that
  is too large is told from one that is not, and no request is empty.

  * `readLoop`: the loop of the source, without a bound on its rounds; `readRegularFd_eq`;
  * `always_readLoop`: what is read, whatever parts the system delivers it in;
  * `bounded_read_exact`: the whole function.
-/
import DatasourceKit.Clearance.TrustedWalk

namespace DatasourceKit

open Interleave Prog Files ClearanceHost

/-! ## The loop -/

/-- The loop of `_read_regular_fd`.  It ends, since every round but the last gets a byte. -/
def readLoop (i limit : ℕ) (got : Bytes) : ClearProg Bytes :=
  (Os.read i got.length (min (1024 * 1024) (limit + 1 - got.length))).bind fun chunk =>
    if _ : chunk = [] then .ret got
    else if _ : (got ++ chunk).length > limit then
      .raise (.tombstone "tombstone is unreasonably large")
    else readLoop i limit (got ++ chunk)
termination_by limit + 1 - got.length
decreasing_by
  have hpos := List.length_pos_iff.2 ‹¬chunk = []›
  rw [List.length_append] at *
  omega

variable {i limit n : ℕ} {got chunk b : Bytes}

/-- Enough rounds are all rounds. -/
theorem readMore_eq (hgot : got.length ≤ limit) (hn : limit + 1 ≤ n + got.length) :
    readMore i limit n got = readLoop i limit got := by
  induction n generalizing got with
  | zero => omega
  | succ n ih =>
    rw [readMore, readLoop]
    congr 1
    funext chunk
    split_ifs with hempty hlarge
    · rfl
    · rfl
    · have hpos := List.length_pos_iff.2 hempty
      refine ih (by omega) ?_
      rw [List.length_append]
      omega

theorem readRegularFd_eq : readRegularFd i limit = (Os.quiet .rewind (.file i)).bind fun _ =>
    readLoop i limit [] := by
  rw [readRegularFd, readMore_eq] <;> simp

/-- The rounds are no more than the bytes that are left of the limit, and one. -/
theorem within_readLoop (hgot : got.length ≤ limit) :
    (readLoop i limit got).Within (limit + 1 - got.length) := by
  induction got using readLoop.induct limit with
  | case1 got ih =>
    have hrounds : limit + 1 - got.length = 1 + (limit - got.length) := by omega
    rw [readLoop, hrounds]
    refine within_perform.bind fun (chunk : Bytes) => ?_
    split_ifs with hempty hlarge
    · trivial
    · trivial
    · have hpos := List.length_pos_iff.2 hempty
      refine (ih chunk hempty hlarge (by omega)).mono ?_
      rw [List.length_append]
      omega

/-! ## What is read -/

/-- A part can always be delivered. -/
theorem exists_chunk (rest : Bytes) (n : ℕ) : ∃ chunk, Chunk rest n chunk := by
  refine ⟨rest.take n, List.take_prefix n rest, List.length_take_le n rest, fun h => ?_⟩
  rw [List.take_eq_nil_iff] at h
  exact h.symm

variable [ClearanceHost] {env : ClearEnv} {s : FileSys Dir}

/-- An operation that the system can perform, and that asks for a byte if it reads. -/
def Requestable (env : ClearEnv) (o : ClearOp) (s : FileSys Dir) : Prop :=
  (∀ i offset n, o = .read i offset n → 0 < n) ∧ ∃ r s', ClearStep env o s r s'

theorem always_readLoop (hsound : ¬env.faulty) (hk : (s.inode i).kind = .regular)
    (hgot : got <+: (s.inode i).content) (hlimit : got.length ≤ limit) :
    (readLoop i limit got).Always (ClearStep env) (Requestable env)
      (fun raw s' => s' = s ∧ (s.inode i).content.length ≤ limit ∧ raw = (s.inode i).content)
      (fun e s' => s' = s ∧ limit < (s.inode i).content.length ∧
        e = .tombstone "tombstone is unreasonably large") s := by
  induction got using readLoop.induct limit with
  | case1 got ih =>
    have hsize : 0 < min (1024 * 1024) (limit + 1 - got.length) := by omega
    rw [readLoop]
    refine always_bind.2 (always_clearOp ⟨?_, ?_⟩ (fun _ _ h => absurd h hsound) ?_ ?_)
    · rintro j offset n ⟨⟩
      exact hsize
    · obtain ⟨chunk, hchunk⟩ :=
        exists_chunk ((s.inode i).content.drop got.length)
        (min (1024 * 1024) (limit + 1 - got.length))
      refine ⟨.ok chunk, s, .inl ⟨rfl, ?_⟩⟩
      rw [hk]
      exact ⟨chunk, hchunk, rfl⟩
    · rintro chunk s' ⟨rfl, hread⟩
      rw [hk] at hread
      obtain ⟨chunk, hchunk, hv⟩ := hread
      cases hv
      split_ifs with hempty hlarge
      · subst hempty
        obtain rfl := hchunk.complete hgot hsize
        exact ⟨rfl, hlimit, rfl⟩
      · exact ⟨rfl, hlarge.trans_le (hchunk.extends hgot).length_le, rfl⟩
      · exact ih chunk hempty hlarge (hchunk.extends hgot) (by omega)
    · rintro e s' ⟨rfl, hread⟩
      rw [hk] at hread
      obtain ⟨chunk, -, hv⟩ := hread
      cases hv

/-- **A bounded read is exact.**  Whatever parts the system delivers the file in, the call ends
    after at most `limit + 2` operations, asks for a byte with every read, returns the whole
    content of a file of at most `limit` bytes, and raises for a larger one. -/
theorem bounded_read_exact (hsound : ¬env.faulty) (hk : (s.inode i).kind = .regular) :
    readRegularFd i limit = ((Os.quiet .rewind (.file i)).bind fun _ => readLoop i limit []) ∧
    (readRegularFd i limit).Within (limit + 2) ∧
    (readRegularFd i limit).Always (ClearStep env) (Requestable env)
      (fun raw s' => s' = s ∧ (s.inode i).content.length ≤ limit ∧ raw = (s.inode i).content)
      (fun e s' => s' = s ∧ limit < (s.inode i).content.length ∧
        e = .tombstone "tombstone is unreasonably large") s := by
  refine ⟨readRegularFd_eq, ?_, ?_⟩
  · have hloop : (readLoop i limit []).Within (limit + 1) := within_readLoop (Nat.zero_le limit)
    have hrounds : limit + 2 = 1 + (limit + 1) := by omega
    rw [readRegularFd_eq, hrounds]
    exact within_perform.bind fun _ => hloop
  · rw [readRegularFd_eq]
    refine always_bind.2 (always_clearOp ⟨?_, ?_⟩ (fun _ _ h => absurd h hsound) ?_ ?_)
    · rintro j offset n ⟨⟩
    · exact ⟨.ok (), s, .inl ⟨rfl, rfl⟩⟩
    · rintro _ s' ⟨-, rfl⟩
      exact always_readLoop hsound hk List.nil_prefix (Nat.zero_le limit)
    · rintro e s' ⟨he, -⟩
      cases he

/-- A file of three bytes. -/
def threeBytes : FileSys Dir := ⟨fun _ => ⟨.regular, 1000, 0o600, 1, [1, 2, 3]⟩, fun _ _ => none⟩

omit [ClearanceHost] in
theorem bounded_read_exact_three :
    (readRegularFd 0 2).Always (@ClearStep userHost ⟨[], False, True⟩)
    (@Requestable userHost ⟨[], False, True⟩) (fun _ _ => False)
    (fun e _ => e = .tombstone "tombstone is unreasonably large") threeBytes ∧
    (readRegularFd 0 3).Always (@ClearStep userHost ⟨[], False, True⟩)
    (@Requestable userHost ⟨[], False, True⟩) (fun raw _ => raw = [1, 2, 3])
    (fun _ _ => False) threeBytes := by
  let := userHost
  constructor
  · obtain ⟨-, -, h⟩ := @bounded_read_exact 0 2 userHost ⟨[], False, True⟩ threeBytes id rfl
    refine h.mono (fun _ _ h => h) ?_ fun _ _ h => h.2.2
    rintro raw s ⟨-, hlength, -⟩
    exact absurd hlength (by decide)
  · obtain ⟨-, -, h⟩ := @bounded_read_exact 0 3 userHost ⟨[], False, True⟩ threeBytes id rfl
    refine h.mono (fun _ _ h => h) (fun _ _ h => h.2.2) ?_
    rintro e s ⟨-, hlength, -⟩
    exact absurd hlength (by decide)

end DatasourceKit

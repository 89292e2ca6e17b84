/-
  The inspection of a legacy process tombstone (`inspect_legacy_process_tombstone`), and what it
  tells about a clearance.

  * `inspectContent`: what is reported of the bytes of `pid.json`;
    `inspectLegacyProcessTombstone`: a call; `always_inspectLegacyProcessTombstone`: what it
    returns where no operation fails, and that it changes nothing;
  * `showsRequest_iff`: the report is that of the request's tombstone exactly if a clearance
    matches it;
  * `always_clearFresh`: what a first call of the clearance does;
  * `Agree`, `inspection_agrees`: both calls agree, unless an integer is too long for `int`;
    `ninesText`: documents with such an integer.
-/
import DatasourceKit.Clearance.Rejection

namespace DatasourceKit

open Interleave Prog Files ClearanceHost JsonText

/-- `LegacyProcessTombstoneInspection`. -/
structure Inspection where
  path : List String
  sha256 : String
  generation : Option ℤ
  tokenAbsent : Bool

variable [ClearanceHost]

/-! ## The inspection -/

/-- What is reported of the bytes of `pid.json`; a text that `json.loads` refuses is no metadata. -/
def inspectContent (directory : List String) (raw : Bytes) : Inspection where
  path := directory ++ [pidFile]
  sha256 := ClearanceHost.sha256 raw
  generation :=
    match loads raw with
    | .doc d => match d.get "generation" with
      | .int g => some g
      | _ => none
    | _ => none
  tokenAbsent :=
    match loads raw with
    | .doc d => decide ("token" ∉ d)
    | _ => false

/-- The part with `pid.json` open. -/
def inspectOpened (directory : List String) (unitSt : Stat) (i : ℕ) : ClearProg Inspection :=
  (Os.fstat (.file i)).bind fun opened =>
  (require (opened.kind == .regular && opened.nlink == 1)
      "tombstone must be a regular single-link file").bind fun _ =>
  (readRegularFd i tombstoneLimit).bind fun raw =>
    (Os.stat (.entry .unit pidFile)).bind fun named =>
  (require (sameInode opened named) "tombstone pathname identity changed").bind fun _ =>
  (bindNamed unitSt .path "unit directory pathname identity changed").bind fun _ =>
    .ret (inspectContent directory raw)

/-- The part with the unit directory open. -/
def inspectInDirectory (directory : List String) (unitSt : Stat) : ClearProg Inspection :=
  (Os.openFile .unit pidFile .read).catching.bind fun
    | .ok i => closing (inspectOpened directory unitSt i) (.file i)
    | .error .notFound | .error (.fault .permission) =>
      .raise (.tombstone "tombstone absent or unreadable")
    | .error e => .raise e

/-- `_inspect_legacy_process_tombstone`. -/
def inspectUnwrapped (directory : List String) : ClearProg Inspection :=
  (openTrustedUnitDirectory directory.length).bind fun unitSt =>
  closing (inspectInDirectory directory unitSt) (.part (directory.length - 1))

/-- `inspect_legacy_process_tombstone`. -/
def inspectLegacyProcessTombstone (directory : List String) : ClearProg Inspection :=
  (inspectUnwrapped directory).handle fun e =>
    .raise (if e.isOSError then .tombstone "tombstone namespace is absent or unreadable" else e)

variable {path : List Stat} {directory : List String} {args : ClearArgs} {r : ClearRequest} {i : ℕ}
  {b : Bytes} {s s' : FileSys Dir}

/-- A regular file of at most 16 MiB is reported, a larger one refused, and nothing changes. -/
theorem always_inspectLegacyProcessTombstone (htrusted : TrustedPath path directory.length)
    (hpid : s.entry .unit pidFile = some i) (hkind : (s.inode i).kind = .regular)
    (hnlink : (s.inode i).nlink = 1) :
    (inspectLegacyProcessTombstone directory).Always (ClearStep (calmHost path)) (fun _ _ => True)
      (fun ins s' => s' = s ∧ (s.inode i).content.length ≤ tombstoneLimit ∧
        ins = inspectContent directory (s.inode i).content)
      (fun e s' => s' = s ∧ tombstoneLimit < (s.inode i).content.length ∧
        ∃ msg, e = .tombstone msg) s := by
  have hG : ∀ o (_ : FileSys Dir), ClearOp.reads o = true → True := fun _ _ _ => trivial
  refine always_handle.2 (always_bind.2 ?_)
  have hpos : 0 < path.length := htrusted.length ▸ htrusted.pos
  have hwalk := always_walk hpos (s := s)
  rw [htrusted.length] at hwalk
  refine hwalk.mono (fun _ _ _ => trivial) ?_ fun _ _ hno => absurd htrusted hno
  rintro unitSt s' ⟨rfl, hlast, -⟩
  have hf : ∀ {E : Exc → FileSys Dir → Prop} f s', (calmHost path).faulty →
      E (.fault f) s' := fun _ _ h => h.elim
  refine always_closing hG hf
    (always_bind.2 (always_catching.2 (always_openFile hG hf (fun k hk _ => ?_)
    (fun hnone => ?_) fun k e hk he => ?_)))
  · obtain rfl := Option.some.inj (hpid.symm.trans hk)
    refine always_closing hG hf (always_bind.2 (always_fstat hG hf
      (always_bind.2 (always_require (fun _ => ?_) fun hno => ?_))))
    swap
    · simp [hkind, hnlink] at hno
    refine always_bind.2 (always_readRegularFd hG hf (fun raw hsmall hraw => ?_)
      (fun hno => absurd hkind hno) fun _ hlarge => ⟨rfl, hlarge, _, rfl⟩)
    obtain rfl := hraw hkind
    refine always_bind.2 (always_stat_entry hG hf (fun k hk => ?_) fun hnone => ?_)
    · obtain rfl := Option.some.inj (hpid.symm.trans hk)
      refine always_bind.2 (always_require (fun _ => ?_) fun hno => ?_)
      · refine always_bind.2 (always_bindBound hG hf ⟨unitSt, ?_, rfl⟩ ⟨rfl, hsmall, rfl⟩)
        exact hlast
      · simp [sameInode] at hno
    · cases hpid.symm.trans hnone
  · cases hpid.symm.trans hnone
  · obtain rfl := Option.some.inj (hpid.symm.trans hk)
    rw [hkind] at he
    cases he

/-- There is such an inspection of a regular file. -/
theorem inspection_returns (htrusted : TrustedPath path directory.length)
    (hpid : s.entry .unit pidFile = some i) (hkind : (s.inode i).kind = .regular)
    (hnlink : (s.inode i).nlink = 1) (hsmall : (s.inode i).content.length ≤ tombstoneLimit) :
    ∃ ins s', Steps (ClearStep (calmHost path))
    (inspectLegacyProcessTombstone directory) s s' (.ret ins) := by
  have hcall : (inspectLegacyProcessTombstone directory).Can (ClearStep (calmHost path))
      (fun _ _ => True) (fun _ _ => False) s := by
    refine can_handle.2 (can_bind.2 ((can_walk htrusted).mono ?_ fun _ _ hf => hf.elim))
    rintro unitSt s' ⟨rfl, hlast⟩
    refine can_closing (can_bind.2
      (can_catching.2 (can_openFile hpid (by rw [hkind]; rfl) (can_closing ?_))))
    refine can_bind.2 (can_fstat
      (can_bind.2 (can_require (by simp [hkind, hnlink]) (can_bind.2 ?_))))
    refine can_readRegularFd hkind hsmall
      (can_bind.2 (can_stat_entry hpid (can_bind.2 (can_require ?_ (can_bind.2 ?_)))))
    · simp [sameInode]
    · have hnamed : statNamed (calmHost path).path s' .path = some unitSt := hlast
      exact can_bindNamed hnamed rfl trivial
  obtain ⟨ins, s', hsteps, -⟩ | ⟨_, _, -, hf⟩ := hcall.exists_steps
  · exact ⟨ins, s', hsteps⟩
  · exact hf.elim

/-- The report is that of the request's tombstone, and so is the unit of its metadata. -/
def ShowsRequest (r : ClearRequest) (b : Bytes) (ins : Inspection) : Prop :=
  ins.tokenAbsent = true ∧ ins.sha256 = r.expectedSha256 ∧ ins.generation = some r.generation ∧
    ∃ d, loads b = .doc d ∧ d.get "unit" = .str r.unit

/-- **The report is right**: it shows the request's tombstone exactly if a clearance matches it. -/
theorem showsRequest_iff : ShowsRequest r b (inspectContent directory b) ↔ r.Matches b := by
  constructor
  · rintro ⟨htoken, hsha, hgen, d, hd, hunit⟩
    simp only [inspectContent, hd] at htoken hsha hgen
    refine ⟨hsha, d, hd, of_decide_eq_true htoken, hunit, ?_⟩
    split at hgen
    · next g hg => rw [hg, Option.some.inj hgen]
    · cases hgen
  · rintro ⟨hsha, d, hd, htoken, hunit, hgen⟩
    refine ⟨?_, hsha, ?_, d, hd, hunit⟩
    · simp [inspectContent, hd, htoken]
    · simp [inspectContent, hd, hgen]

/-! ## A first clearance -/

/-- Where a clearance does not match the tombstone, the tombstone stays. -/
theorem Change.tombstone {env : ClearEnv} (h : Change env r s s') (hno : ¬r.Clears b)
    (hs : s.entry .unit pidFile = some i ∧ (s.inode i).content = b) :
    s'.entry .unit pidFile = some i ∧ (s'.inode i).content = b := by
  obtain ⟨hpid, hcontent⟩ := hs
  rcases h.pid with hsame | ⟨⟨k, intent, q, hk, -, hmatches, -⟩, k', hk', hsmall, -⟩
  · exact ⟨hsame.trans hpid, (h.same hpid isTmp_pidFile).content.trans hcontent⟩
  · obtain rfl := Option.some.inj (hpid.symm.trans hk)
    obtain rfl := Option.some.inj (hpid.symm.trans hk')
    rw [hcontent] at hmatches hsmall
    exact absurd ⟨hsmall, hmatches⟩ hno

/-- **A first call** clears the tombstone, or rejects it and leaves it alone. -/
theorem always_clearFresh (hargs : args.validate = .ok r)
    (htrusted : TrustedPath path directory.length) (hfits : r.Fits) (h₀ : LegacyUnit r i b s) :
    (clearLegacyProcessTombstone directory args).Always (ClearStep (calmHost path))
    (fun _ _ => True) (fun _ s' => r.Clears b ∧ ∃ q, Cleared r i b s s' q)
      (fun e s' => Rejects r b e ∧ s'.entry .unit pidFile = some i ∧
        (s'.inode i).content = b) s := by
  have hun : Unhindered (calmHost path) r directory.length := ⟨id, trivial, htrusted, hfits⟩
  have hcall := always_clearLegacyProcessTombstone (C := True) (fun _ => hun) hargs (fun _ => rfl)
    fun _ => h₀.recoverable
  by_cases hb : r.Clears b
  · refine hcall.mono (fun _ _ _ => trivial) (fun _ s' hq => ⟨hb, (hq trivial).2.cleared⟩)
      fun e _ he => ?_
    exact absurd hb (he trivial).not_clears
  · have hkeep := hcall.keeping (J := fun s =>
      s.entry .unit pidFile = some i ∧ (s.inode i).content = b)
      (fun _ _ _ _ hs hg hstep => (change_of_guard hg hstep).tombstone hb hs)
      ⟨h₀.unclaimed.pid.named, h₀.unclaimed.content⟩
    refine hkeep.mono (fun _ _ _ => trivial) (fun _ s' hq => ?_) fun e s' he => ⟨he.2 trivial, he.1⟩
    obtain ⟨⟨hpid, -⟩, hdone⟩ := hq
    obtain ⟨q, hcleared⟩ := (hdone trivial).2.cleared
    cases hpid.symm.trans hcleared.absent

/-! ## The agreement -/

/-- A clearance that has ended in `oc` and in the state `s'`, and an inspection that has ended in
    `oi`, agree about the tombstone `i` with the bytes `b`, which both have found in the state
    `s`. -/
structure Agree (r : ClearRequest) (i : ℕ) (b : Bytes) (s s' : FileSys Dir)
    (oc : Except Exc (List String)) (oi : Except Exc Inspection) : Prop where
  retires : (∃ path q, oc = .ok path ∧ Cleared r i b s s' q) ↔
    ∃ ins, oi = .ok ins ∧ ShowsRequest r b ins
  stays : (¬∃ ins, oi = .ok ins ∧ ShowsRequest r b ins) →
    s'.entry .unit pidFile = some i ∧ (s'.inode i).content = b
  clear : ∀ e, oc = .error e → ∃ msg, e = .tombstone msg
  inspect : ∀ e, oi = .error e → ∃ msg, e = .tombstone msg

/-- **Inspection and clearance agree**, unless `pid.json` has the digest of the request and an
    integer that is too long for `int`. -/
theorem inspection_agrees {s₁ s₂ : FileSys Dir} {oc : Except Exc (List String)}
    {oi : Except Exc Inspection} (hargs : args.validate = .ok r)
    (htrusted : TrustedPath path directory.length) (hfits : r.Fits) (h₀ : LegacyUnit r i b s)
    (hclear : Steps (ClearStep (calmHost path))
      (clearLegacyProcessTombstone directory args) s s₁ (.ofExcept oc))
    (hinspect : Steps (ClearStep (calmHost path)) (inspectLegacyProcessTombstone directory)
      s s₂ (.ofExcept oi)) :
    Agree r i b s s₁ oc oi ↔ ¬r.Overlong b := by
  have hc := (always_clearFresh hargs htrusted hfits h₀).steps hclear
  have hi := (always_inspectLegacyProcessTombstone htrusted h₀.unclaimed.pid.named h₀.kind
    h₀.unclaimed.nlink).steps
    hinspect
  rw [h₀.unclaimed.content] at hi
  have hshows : (∃ ins, oi = .ok ins ∧ ShowsRequest r b ins) ↔ r.Clears b := by
    rcases oi with e | ins
    · obtain ⟨-, hlarge, -⟩ := hi
      exact iff_of_false (fun ⟨_, h, _⟩ => nomatch h) fun hb => absurd hb.1 (not_le.2 hlarge)
    · obtain ⟨-, hsmall, rfl⟩ := hi
      constructor
      · rintro ⟨_, ⟨⟩, hins⟩
        exact ⟨hsmall, showsRequest_iff.1 hins⟩
      · exact fun hb => ⟨_, rfl, showsRequest_iff.2 hb.2⟩
  have herror : ∀ e, oi = .error e → ∃ msg, e = .tombstone msg := by
    rintro e rfl
    exact hi.2.2
  rcases oc with e | path'
  · obtain ⟨hrejects, hstays⟩ := hc
    constructor
    · rintro hagree hlong
      obtain ⟨msg, rfl⟩ := hagree.clear e rfl
      cases hrejects with
      | refused _ hshort => exact hshort hlong
    · intro hshort
      refine ⟨iff_of_false (fun ⟨_, _, h, _⟩ => nomatch h) ?_, fun _ => hstays, ?_, herror⟩
      · rw [hshows]
        exact hrejects.not_clears
      · rintro _ ⟨⟩
        cases hrejects with
        | refused => exact ⟨_, rfl⟩
        | overlong hlong => exact absurd hlong hshort
  · obtain ⟨hb, q, hcleared⟩ := hc
    have hshort : ¬r.Overlong b := by
      rintro ⟨-, -, hlong⟩
      obtain ⟨-, -, d, hd, -⟩ := hb
      cases hlong.symm.trans hd
    refine iff_of_true ⟨iff_of_true ⟨path', q, rfl, hcleared⟩ (hshows.2 hb), fun hno =>
      absurd (hshows.2 hb) hno, ?_, herror⟩ hshort
    rintro _ ⟨⟩

section
omit [ClearanceHost]

/-- A host that knows the digest of one file. -/
@[reducible]
def fileHost (raw : Bytes) (sha : String) : ClearanceHost := deskHost [(raw, sha)]

theorem sha256_fileHost (raw : Bytes) (sha : String) : @sha256 (fileHost raw sha) raw = sha := by
  show (List.lookup raw [(raw, sha)]).getD _ = sha
  rw [List.lookup_cons_self]
  rfl

/-- A unit directory with this `pid.json` and nothing else. -/
def pidFiles (raw : Bytes) : FileSys Dir where
  inode i := if i = 7 then ⟨.regular, 1000, 0o644, 1, raw⟩ else ⟨.other, 0, 0, 0, []⟩
  entry d n := if d = .unit ∧ n = pidFile then some 7 else none

theorem pidFiles_bare (raw : Bytes) (sha : String) :
    @Bare (fileHost raw sha) 7 raw (pidFiles raw) := by
  let := fileHost raw sha
  refine ⟨fun {d n k} => ?_, rfl⟩
  show (if d = .unit ∧ n = pidFile then some 7 else none) = some k ↔ _
  split_ifs with h
  · exact ⟨fun hk => ⟨h.1, h.2, (Option.some.inj hk).symm⟩, fun hk => by rw [hk.2.2]⟩
  · exact ⟨(nomatch ·), fun hk => absurd ⟨hk.1, hk.2.1⟩ h⟩

/-- A request to clear the unit `alpha` of a tombstone with this digest. -/
def fileRequest (sha : String) (h : isDigest sha = true) : ClearRequest :=
  { firstRequest with expectedSha256 := sha, digest := h }

def fileArgs (sha : String) : ClearArgs := { alphaArgs "T-2" with expectedSha256 := .str sha }

theorem fileArgs_ok [ClearanceHost] {sha : String} (h : isDigest sha = true) :
    (fileArgs sha).validate = .ok (fileRequest sha h) := by
  have hd : validateDigest (.str sha) = .ok ⟨sha, h⟩ := dif_pos h
  show (do
    let digest ← validateDigest (.str sha)
    return (⟨"alpha", 3, digest.1, "night-shift", "T-2", _, digest.2, _, _⟩ : ClearRequest)) = _
  rw [hd]
  rfl

theorem file_fits (raw : Bytes) {sha : String} (h : isDigest sha = true) :
    @ClearRequest.Fits (fileHost raw sha) (fileRequest sha h) := by
  have hknown : ∀ e ∈ [(raw, sha)], isDigest e.2 = true := List.forall_mem_singleton.2 h
  exact alpha_fits hknown h

/-- Where the request does not match the file, both calls get to an end. -/
theorem file_runs {raw : Bytes} {sha : String} (h : isDigest sha = true)
    (hsmall : raw.length ≤ tombstoneLimit)
    (hno : ¬@ClearRequest.Matches (fileHost raw sha) (fileRequest sha h) raw) :
    ∃ s₁ s₂ e ins,
      Steps (@ClearStep (fileHost raw sha) (calmHost alphaPath))
        (@clearLegacyProcessTombstone (fileHost raw sha) ["/", "alpha"] (fileArgs sha))
        (pidFiles raw) s₁ (.raise e) ∧
      Steps (@ClearStep (fileHost raw sha) (calmHost alphaPath))
        (@inspectLegacyProcessTombstone (fileHost raw sha) ["/", "alpha"])
        (pidFiles raw) s₂ (.ret ins) := by
  let := fileHost raw sha
  have hbare := pidFiles_bare raw sha
  have htrusted : TrustedPath alphaPath ["/", "alpha"].length := alpha_trusted
  obtain ⟨⟨text, htext, -⟩, -⟩ := file_fits raw h _ (own_someQuarantine _)
  obtain ⟨e, s₁, hclear⟩ :=
    rejected_raises (fileArgs_ok h) htrusted (dumpsSorted_indexFields htext) hbare hsmall hno
  obtain ⟨ins, s₂, hinspect⟩ :=
    inspection_returns htrusted (hbare.entry.2 ⟨rfl, rfl, rfl⟩) (by rw [hbare.inode])
    (by rw [hbare.inode]) (by rwa [hbare.inode])
  exact ⟨s₁, s₂, e, ins, hclear, hinspect⟩

/-- A tombstone with a token. -/
def tokenBytes : Bytes := ascii "\x7b\"generation\":4,\"token\":null\x7d"

def tokenDigest : String := "47321be4f22f7c94375b18fc9f99eaf3aa2a3893f31299af240ad063c5cb697e"

theorem isDigest_tokenDigest : isDigest tokenDigest = true := by decide

theorem loads_tokenBytes : (@loadsUtf8 oneFloat tokenBytes).asDoc.isSome = true ∧
    isLegacy (fileRequest tokenDigest isDigest_tokenDigest)
    (@loadsUtf8 oneFloat tokenBytes) = false := by
  decide +kernel

theorem inspection_agrees_token :
    ∃ s₁ s₂ oc oi,
      Steps (@ClearStep (fileHost tokenBytes tokenDigest) (calmHost alphaPath))
        (@clearLegacyProcessTombstone (fileHost tokenBytes tokenDigest) ["/", "alpha"]
          (fileArgs tokenDigest))
        (pidFiles tokenBytes) s₁ (.ofExcept oc) ∧
      Steps (@ClearStep (fileHost tokenBytes tokenDigest) (calmHost alphaPath))
        (@inspectLegacyProcessTombstone (fileHost tokenBytes tokenDigest) ["/", "alpha"])
        (pidFiles tokenBytes) s₂ (.ofExcept oi) ∧
      @Agree (fileHost tokenBytes tokenDigest) (fileRequest tokenDigest isDigest_tokenDigest) 7
      tokenBytes (pidFiles tokenBytes) s₁ oc oi := by
  let := fileHost tokenBytes tokenDigest
  obtain ⟨hdoc, hlegacy⟩ := loads_tokenBytes
  have hno : ¬(fileRequest tokenDigest isDigest_tokenDigest).Matches tokenBytes := by
    intro h
    cases hlegacy.symm.trans (matches_iff.1 h).2
  obtain ⟨s₁, s₂, e, ins, hclear, hinspect⟩ := file_runs isDigest_tokenDigest (by decide) hno
  refine ⟨s₁, s₂, .error e, .ok ins, hclear, hinspect, ?_⟩
  refine (inspection_agrees (fileArgs_ok isDigest_tokenDigest) alpha_trusted (file_fits _ _)
    ((pidFiles_bare _ _).legacyUnit _) hclear hinspect).2 ?_
  rintro ⟨-, -, hlong⟩
  have hlong : @loadsUtf8 oneFloat tokenBytes = .overlong := hlong
  rw [hlong] at hdoc
  cases hdoc

/-- A number of `n + 1` nines. -/
def nines (n : ℕ) : List Char := List.replicate (n + 1) '9'

theorem scanNumber_nines (n : ℕ) : scanNumber (nines n) = some (⟨nines n, [], []⟩, []) := by
  have hdigits : digits (List.replicate n '9') = List.replicate n '9' :=
    List.takeWhile_eq_self_iff.2 fun c hc => by rw [List.eq_of_mem_replicate hc]; rfl
  have hrest : afterDigits (List.replicate n '9') = [] :=
    List.dropWhile_eq_nil_iff.2 fun c hc => by rw [List.eq_of_mem_replicate hc]; rfl
  have hint : scanInt (nines n) = some (nines n, []) := by
    show scanDigits ('9' :: List.replicate n '9') = _
    rw [scanDigits, if_neg (by decide), if_pos (by decide), hdigits, hrest]
    rfl
  rw [scanNumber, hint]
  rfl

/-- A document with such a generation. -/
def ninesText (n : ℕ) : List Char :=
  '{' :: (compactStyle.quote "generation" ++ (':' :: (nines n ++ ['}'])))

theorem readValue_nines [FloatCodec] {n : ℕ} (hn : digitLimit ≤ n) (k : ℕ) :
    readValue (k + 1) (nines n ++ ['}']) = .error .overlong := by
  have hstops : Stops ['}'] := fun c hc => by cases hc; rfl
  have hscan := scanNumber_append hstops (scanNumber_nines n)
  have hlength : ((nines n).filter (· ≠ '-')).length = n + 1 := by
    rw [List.filter_eq_self.2, nines, List.length_replicate]
    intro c hc
    rw [List.eq_of_mem_replicate hc]
    rfl
  have hlong : numberValue ⟨nines n, [], []⟩ = .error .overlong := by
    rw [numberValue, if_pos ⟨rfl, rfl⟩]
    dsimp only
    rw [hlength, if_neg (by omega)]
  show readValue (k + 1) ('9' :: (List.replicate n '9' ++ ['}'])) = _
  rw [readValue, if_neg (by decide), if_neg (by decide), if_neg (by decide)]
  show readScalar (nines n ++ ['}']) = _
  rw [readScalar_number hscan, hlong]
  rfl

theorem readText_nines [FloatCodec] {n : ℕ} (hn : digitLimit ≤ n) :
    readText (ninesText n) = .error .overlong := by
  obtain ⟨cs, hcs, hread⟩ := readQuoted_quote compactStyle "generation" (':' :: (nines n ++ ['}']))
  obtain ⟨k, hk⟩ : ∃ k, (ninesText n).length + 1 = k + 3 :=
    ⟨(ninesText n).length - 2, by simp [ninesText, nines]; omega⟩
  have hmembers : readMembers (k + 2) ('"' :: cs) = .error .overlong := by
    have hcolon : skipWs (':' :: (nines n ++ ['}'])) = ':' :: (nines n ++ ['}']) := rfl
    have hnines : skipWs (nines n ++ ['}']) = nines n ++ ['}'] := rfl
    rw [readMembers, if_pos rfl, hread]
    dsimp only [Except.bind]
    rw [hcolon]
    dsimp only
    rw [if_pos rfl, hnines, readValue_nines hn]
  have hobject : readValue (k + 3) ('{' :: '"' :: cs) = .error .overlong := by
    have hquote : skipWs ('"' :: cs) = '"' :: cs := rfl
    rw [readValue, if_neg (by decide), if_neg (by decide), if_pos rfl, hquote, List.head?_cons,
      if_neg (by decide), hmembers]
    rfl
  rw [readText, hk, ninesText, hcs]
  show (readValue (k + 3) ('{' :: '"' :: cs)).bind _ = _
  rw [hobject]
  rfl

theorem length_ninesText (n : ℕ) : (ninesText n).length = n + 16 := by
  have hquote : (compactStyle.quote "generation").length = 12 := by decide
  simp [ninesText, nines, hquote]
  omega

theorem loadsUtf8_nines [FloatCodec] {n : ℕ} (hn : digitLimit ≤ n) :
    loadsUtf8 ((ninesText n).map charByte) = .overlong := by
  have hquote : (compactStyle.quote "generation").all (fun c => c.toNat < 0x80) = true := by decide
  have hascii : ∀ c ∈ ninesText n, c.toNat < 0x80 := by
    simp only [ninesText, List.forall_mem_cons, List.forall_mem_append]
    refine ⟨by decide, fun c hc => of_decide_eq_true (List.all_eq_true.1 hquote c
      hc), by decide, fun c hc => ?_, by decide, nofun⟩
    rw [List.eq_of_mem_replicate hc]
    decide
  rw [← utf8_ascii hascii, loadsUtf8, decodeUtf8_utf8]
  dsimp only
  rw [readText_nines hn]

/-- A `pid.json` with a generation of 5000 digits. -/
def ninesBytes : Bytes := (ninesText 4999).map charByte

def ninesDigest : String := "bcfda26adea6d4ad8f52746085d63d6930a60645dc89c03f8df52dd56f6f77d3"

theorem isDigest_ninesDigest : isDigest ninesDigest = true := by decide

theorem overlong_ninesBytes :
    @ClearRequest.Overlong (fileHost ninesBytes ninesDigest)
    (fileRequest ninesDigest isDigest_ninesDigest) ninesBytes := by
  refine ⟨?_, sha256_fileHost _ _, ?_⟩
  · rw [ninesBytes, List.length_map, length_ninesText]
    decide
  · show @loadsUtf8 oneFloat ninesBytes = .overlong
    exact @loadsUtf8_nines oneFloat 4999 (by decide)

/-- The clearance of such a file raises a plain `ValueError`, though the inspection reports it. -/
theorem overlong_disagrees :
    @ClearArgs.validate (fileHost ninesBytes ninesDigest) (fileArgs ninesDigest) =
      .ok (fileRequest ninesDigest isDigest_ninesDigest) ∧
    @TrustedPath (fileHost ninesBytes ninesDigest) alphaPath 2 ∧
    @ClearRequest.Fits (fileHost ninesBytes ninesDigest)
    (fileRequest ninesDigest isDigest_ninesDigest) ∧
    @LegacyUnit (fileHost ninesBytes ninesDigest) (fileRequest ninesDigest isDigest_ninesDigest) 7
    ninesBytes (pidFiles ninesBytes) ∧ ∃ s₁ s₂ m ins,
      Steps (@ClearStep (fileHost ninesBytes ninesDigest) (calmHost alphaPath))
        (@clearLegacyProcessTombstone (fileHost ninesBytes ninesDigest) ["/", "alpha"]
          (fileArgs ninesDigest))
        (pidFiles ninesBytes) s₁ (.raise (.valueError m)) ∧
      Steps (@ClearStep (fileHost ninesBytes ninesDigest) (calmHost alphaPath))
        (@inspectLegacyProcessTombstone (fileHost ninesBytes ninesDigest) ["/", "alpha"])
        (pidFiles ninesBytes) s₂ (.ret ins) ∧
      ¬@Agree (fileHost ninesBytes ninesDigest) (fileRequest ninesDigest isDigest_ninesDigest) 7
      ninesBytes (pidFiles ninesBytes) s₁ (.error (.valueError m)) (.ok ins) := by
  let := fileHost ninesBytes ninesDigest
  have hlong := overlong_ninesBytes
  have hargs := fileArgs_ok isDigest_ninesDigest
  have hfits := file_fits ninesBytes isDigest_ninesDigest
  have hunit := (pidFiles_bare ninesBytes ninesDigest).legacyUnit
    (fileRequest ninesDigest isDigest_ninesDigest)
  have hno : ¬(fileRequest ninesDigest isDigest_ninesDigest).Matches ninesBytes := by
    rintro ⟨-, d, hd, -⟩
    cases hlong.2.2.symm.trans hd
  obtain ⟨s₁, s₂, e, ins, hclear, hinspect⟩ := file_runs isDigest_ninesDigest hlong.1 hno
  have hrejects := ((always_clearFresh hargs alpha_trusted hfits hunit).steps hclear).1
  cases hrejects with
  | refused _ hshort => exact absurd hlong hshort
  | @overlong m _ =>
    refine ⟨hargs, alpha_trusted, hfits, hunit, s₁, s₂, m, ins, hclear, hinspect, fun hagree => ?_⟩
    obtain ⟨msg, hmsg⟩ := hagree.clear _ rfl
    cases hmsg

end

end DatasourceKit

/-
  Series of calls of `clear_legacy_process_tombstone`, of which any may be killed at any step.

  * `Begins A`: the calls whose arguments satisfy `A`; `always_call`: what a call may do,
    whatever its arguments are;
  * `Reachable`, `tombstone_never_lost`: the bytes of a tombstone stay within reach;
  * `Unclaimed`, `completions_exclusive`: the completions of competing requests.
-/
import DatasourceKit.Clearance.Desk
import DatasourceKit.Clearance.Locked
import DatasourceKit.Clearance.Sizes

namespace DatasourceKit

open Interleave Prog Files ClearanceHost

variable [ClearanceHost] {env : ClearEnv} {r : ClearRequest} {R : Set ClearRequest} {i : ℕ}
  {b : Bytes} {s₀ s s' : FileSys Dir}

/-! ## Calls -/

/-- A call begins, with arguments that satisfy `A`. -/
def Begins (A : ClearArgs → Prop) (s : FileSys Dir) (p : ClearProg (List String))
    (s' : FileSys Dir) : Prop :=
  s' = s ∧ ∃ directory args, A args ∧ p = clearLegacyProcessTombstone directory args

/-- A call performs what the guards of its request allow; without a request, nothing. -/
theorem always_call {directory : List String} {args : ClearArgs} :
    (clearLegacyProcessTombstone directory args).Always (ClearStep env)
      (fun o s => ∃ r, args.validate = .ok r ∧ Guard env r o s) (fun _ _ => True)
      (fun _ _ => True) s := by
  cases hargs : args.validate with
  | error e =>
    rw [clearLegacyProcessTombstone, clearLocked, hargs]
    trivial
  | ok r =>
    have hcall : (clearLegacyProcessTombstone directory args).Always (ClearStep env)
        (Guard env r) _ _ s :=
      @always_clearLegacyProcessTombstone _ env r False 0 0 [] s s (fun hc => hc.elim) directory
        args hargs (fun hc => hc.elim) fun hc => hc.elim
    exact hcall.mono (fun o s hg => ⟨r, rfl, hg⟩) (fun _ _ _ => trivial) fun _ _ _ => trivial

/-- **The rule for series of calls**: what every change for a request keeps. -/
theorem Serial.keeps {A : ClearArgs → Prop} {J : FileSys Dir → Prop} {p : ClearProg (List String)}
    (hJ : ∀ args r s s', A args → args.validate = .ok r → J s → Change env r s s' → J s')
    (hs₀ : J s₀) (h : Serial (ClearStep env) (Begins A) s₀ s p) :
    J s ∧ p.Always (ClearStep env) (fun o s =>
      J s ∧ ∃ args r, A args ∧ args.validate = .ok r ∧ Guard env r o s)
      (fun _ s => J s ∧ True) (fun _ s => J s ∧ True) s := by
  refine Serial.invariant ?_ hs₀ h
  rintro s p s' hs ⟨rfl, directory, args, hA, rfl⟩
  refine Always.keeping ?_ (always_call.mono (fun o s hg => ?_) (fun _ _ _ => trivial)
    fun _ _ _ => trivial) hs
  · rintro o s x s' hs ⟨args, r, hA, hr, hg⟩ hstep
    exact hJ args r s s' hA hr hs (change_of_guard hg hstep)
  · obtain ⟨r, hr, hg⟩ := hg
    exact ⟨args, r, hA, hr, hg⟩

/-! ## The tombstone stays within reach -/

/-- What `pid.json` leads to changes only when it is retired. -/
theorem Change.pid (h : Change env r s s') : s'.entry .unit pidFile = s.entry .unit pidFile ∨
    Retirable r s ∧ ∃ i, s.entry .unit pidFile = some i ∧
    (s.inode i).content.length ≤ tombstoneLimit ∧ s' = s.unlink .unit pidFile i := by
  cases h with
  | idle | write | chmod => exact .inl rfl
  | lock => exact .inl (s.create_entry_ne _ fun _ => by decide)
  | auditDir => exact .inl (s.create_entry_ne _ fun _ => by decide)
  | tmp => exact .inl (create_sub_unit s)
  | intent | completion => exact .inl (link_sub_unit s)
  | quarantine _ _ hready =>
    obtain ⟨intent, hpub, -⟩ := hready
    exact .inl (s.link_entry_ne fun _ => hpub.name.ne_pidFile.symm)
  | retire hp hready hsmall => exact .inr ⟨hready, _, hp, hsmall, rfl⟩
  | dropTmp => exact .inl (unlink_sub_unit s)

/-- The inode `i` is `pid.json`, or the quarantine that a published intent names. -/
def Reachable (i : ℕ) (s : FileSys Dir) : Prop :=
  s.entry .unit pidFile = some i ∨ ∃ r intent q, Published s r intent q ∧ s.entry .unit q = some i

/-- It leads to the same bytes after every change. -/
theorem Change.reachable (h : Change env r s s') (hi : Reachable i s) :
    Reachable i s' ∧ (s'.inode i).content = (s.inode i).content := by
  rcases hi with hp | ⟨r', intent, q, hpub, hq⟩
  · refine ⟨?_, (h.same hp isTmp_pidFile).content⟩
    rcases h.pid with hsame | ⟨⟨i', intent, q, hp', -, -, hpub, hq⟩, -⟩
    · exact .inl (hsame.trans hp)
    · obtain rfl := Option.some.inj (hp.symm.trans hp')
      exact .inr ⟨r, intent, q, h.published hpub, h.entry hq hpub.name.isTmp fun _ =>
        hpub.name.ne_pidFile⟩
  · exact ⟨.inr ⟨r', intent, q, h.published hpub, h.entry hq hpub.name.isTmp fun _ =>
      hpub.name.ne_pidFile⟩,
      (h.same hq hpub.name.isTmp).content⟩

/-- **A tombstone is never lost**: after any series of calls, `pid.json` is only changed where
    its request may retire it, and the bytes it had at the beginning are within reach. -/
theorem tombstone_never_lost {p : ClearProg (List String)}
    (h : Serial (ClearStep env) (Begins fun _ => True) s₀ s p) :
    (∀ directory args s₁ s₂ o k x,
      Steps (ClearStep env) (clearLegacyProcessTombstone directory args) s s₁ (.call o k) →
      ClearStep env o s₁ x s₂ → s₂.entry .unit pidFile ≠ s₁.entry .unit pidFile →
      ∃ r, args.validate = .ok r ∧ Retirable r s₁) ∧
    ∀ i, s₀.entry .unit pidFile = some i → Reachable i s ∧
    (s.inode i).content = (s₀.inode i).content := by
  constructor
  · intro directory args s₁ s₂ o k x hsteps hstep hne
    obtain ⟨r, hr, hg⟩ := (always_call.steps hsteps).1
    rcases (change_of_guard hg hstep).pid with hsame | ⟨hready, -⟩
    · exact absurd hsame hne
    · exact ⟨r, hr, hready⟩
  · intro i hi
    refine (Serial.keeps (J := fun s => Reachable i s ∧
      (s.inode i).content = (s₀.inode i).content) ?_ ⟨.inl hi, rfl⟩ h).1
    rintro args r s s' - - ⟨hreach, hcontent⟩ hc
    obtain ⟨hreach', hsame⟩ := hc.reachable hreach
    exact ⟨hreach', hsame.trans hcontent⟩

section
omit [ClearanceHost]

/-- A tombstone of the unit `alpha`. -/
def alphaBytes : Bytes := ascii "\x7b\"generation\": 3, \"unit\": \"alpha\"\x7d"

def alphaDigest : String := "0d5610dac9b8bfe69a279cfab117d37c67155b3c7b15ad90d61fdcd80b04f998"

/-- A request to clear it. -/
def alphaRequest (ticket : String) (h : isBounded 512 ticket = true) : ClearRequest where
  unit := "alpha"
  generation := 3
  expectedSha256 := alphaDigest
  operator := "night-shift"
  ticket := ticket
  unit_safe := by decide
  digest := by decide
  operator_bounded := by decide
  ticket_bounded := h

def alphaArgs (ticket : String) : ClearArgs :=
  ⟨.str "alpha", .int 3, .str alphaDigest, .bool true, .str "night-shift", .str ticket⟩

theorem alphaArgs_ok [ClearanceHost] {ticket : String} (h : isBounded 512 ticket = true) :
    (alphaArgs ticket).validate = .ok (alphaRequest ticket h) := by
  have ht : validateBounded "ticket" 512 (.str ticket) = .ok ⟨ticket, h⟩ := dif_pos h
  show (do
    let ticket ← validateBounded "ticket" 512 (.str ticket)
    return (⟨"alpha", 3, alphaDigest, "night-shift", ticket.1, _, _, _, ticket.2⟩ : ClearRequest)) =
    _
  rw [ht]
  rfl

def firstRequest : ClearRequest := alphaRequest "T-2" (by decide)
def secondRequest : ClearRequest := alphaRequest "T-3" (by decide)

theorem firstRequest_writable : firstRequest.Writable := by
  show (Json.int 3).digitsOk = true
  decide

def alphaOpId : String := "3594be3dd25df2669cff45e6e6461adfbd23282ee58e87e0b88ce6c3eea047e8"

/-- A host that knows the digests of the tombstone and of the indices of two requests. -/
@[reducible]
def alphaHost : ClearanceHost :=
  deskHost [(alphaBytes, alphaDigest),
    (@objectText oneFloat.toFloatText firstRequest.indexFields, alphaOpId),
    (@objectText oneFloat.toFloatText secondRequest.indexFields,
      "f13b88d783168778c9d6cfc58ad5f45775b375d6abc3993cca660d9800a40a3b")]

/-- The root and the unit directory in it. -/
def alphaPath : List Stat := [⟨2, .directory, 0, 0o755, 20⟩, ⟨3, .directory, 1000, 0o700, 2⟩]

/-- The unit directory has the tombstone only. -/
def alphaFiles : FileSys Dir where
  inode i := if i = 7 then ⟨.regular, 1000, 0o644, 1, alphaBytes⟩ else ⟨.other, 0, 0, 0, []⟩
  entry d n := if d = .unit ∧ n = pidFile then some 7 else none

/-- Operations may fail, and new names are new. -/
def alphaEnv : ClearEnv := ⟨alphaPath, True, True⟩

theorem alphaFiles_entry {d : Dir} {n : String} {i : ℕ} (h : alphaFiles.entry d n = some i) :
    d = .unit ∧ n = pidFile ∧ i = 7 := by
  simp only [alphaFiles] at h
  split_ifs at h with hn
  exact ⟨hn.1, hn.2, (Option.some.inj h).symm⟩

def alphaUuid (c : Char) : String := String.ofList (c :: List.replicate 31 '0')

def alphaDesk : Desk where
  entries := .singleton (.unit, pidFile) 7
  inodes := .singleton 7 ⟨.regular, 1000, 0o644, 1, alphaBytes⟩
  next := 8
  uuids := ['1', '2', '3', '4', '5'].map alphaUuid

theorem alphaDesk_files : alphaDesk.files = alphaFiles := by
  have hnone : ∀ {α β : Type} [DecidableEq α] {a b : α} {x : β}, b ≠ a →
      (AList.singleton (β := fun _ => β) a x).lookup b = none := fun hne =>
    AList.lookup_eq_none.2 fun hmem => hne (List.mem_singleton.1 hmem)
  refine FileSys.ext (funext fun i => ?_) (funext fun d => funext fun n => ?_)
  · by_cases h : i = 7
    · subst h
      rfl
    · simp only [Desk.files, Desk.filesOf, alphaDesk, alphaFiles, hnone h, if_neg h,
        Option.getD_none]
  · by_cases h : d = .unit ∧ n = pidFile
    · obtain ⟨rfl, rfl⟩ := h
      rfl
    · simp only [Desk.files, Desk.filesOf, alphaDesk, alphaFiles, if_neg h]
      exact hnone fun heq => h (Prod.mk.inj heq)

/-- Where calls for the tickets get to from `t`, each left after so many steps. -/
def alphaRunFrom (host : ClearanceHost) (l : List (ℕ × String)) (t : Desk) : Option Desk :=
  driveSeries (@Desk.act host alphaPath)
    (l.map fun x => (x.1, @clearLegacyProcessTombstone host ["/", "alpha"] (alphaArgs x.2))) t

def alphaRun (host : ClearanceHost) (l : List (ℕ × String)) : Option Desk :=
  alphaRunFrom host l alphaDesk

theorem alpha_serial {A : ClearArgs → Prop} {l : List (ℕ × String)} {t : Desk}
    (hl : ∀ x ∈ l, A (alphaArgs x.2)) (hfirst : A (alphaArgs "T-2"))
    (h : alphaRun alphaHost l = some t) :
    ∃ p, Serial (@ClearStep alphaHost alphaEnv) (@Begins alphaHost A) alphaFiles t.files p := by
  let := alphaHost
  have hbegin : Begins A alphaFiles (clearLegacyProcessTombstone ["/", "alpha"] (alphaArgs "T-2"))
      alphaDesk.files := ⟨alphaDesk_files, _, _, hfirst, rfl⟩
  refine (Serial.first hbegin).of_driveSeries Desk.files ?_ (fun x hx s => ?_) h
  · exact fun o t r t' hact => Desk.clearStep_of_act hact
  · obtain ⟨y, hy, rfl⟩ := List.mem_map.1 hx
    exact ⟨rfl, _, _, hl y hy, rfl⟩

/-- A call of the first request is killed when it has retired the tombstone.  One of the second
    request is refused then, and a further one of the first request completes. -/
def bothTickets : List (ℕ × String) := [(60, "T-2"), (200, "T-3"), (200, "T-2")]

/-- The first request is completed, and the second one has no completion. -/
def FirstCompleted (t : Desk) : Prop :=
  t.files.entry .unit pidFile = none ∧ t.files.entry .unit auditDirName = some 9 ∧
    t.files.entry (.sub 9) (completeName (@ClearRequest.opId alphaHost firstRequest)) = some 11 ∧
    t.files.entry (.sub 9) (completeName (@ClearRequest.opId alphaHost secondRequest)) = none

instance (t : Desk) : Decidable (FirstCompleted t) := inferInstanceAs (Decidable (_ ∧ _ ∧ _ ∧ _))

/-- The record that the later calls read. -/
def alphaIntent : Dict :=
  @ClearRequest.intentRecord alphaHost firstRequest
    (.str (quarantineName alphaDigest (alphaUuid '1')))

def alphaKnown : List (Bytes × Content) :=
  [(@objectText oneFloat.toFloatText alphaIntent ++ [0x0A], recordContent alphaIntent)]

theorem alphaKnown_eq : @loadsKnown oneFloat alphaKnown = @loadsUtf8 oneFloat := by
  let := oneFloat
  have hplain := @intentRecord_plain alphaHost firstRequest
    (quarantineName alphaDigest (alphaUuid '1'))
  have hdumps : dumps alphaIntent = .ok alphaIntent :=
    dumps_iff.2 ((@writable_record alphaHost _ _ _ _ (.of_eq (@intentRecord_entries alphaHost _ _))).2
      firstRequest_writable)
  exact loadsKnown_eq (List.forall_mem_singleton.2 (loadsUtf8_record hplain hdumps))

/-- The same host, which finds the record in a table. -/
@[reducible]
def fastHost : ClearanceHost where
  toFloatText := oneFloat.toFloatText
  euid := 1000
  repr _ := ""
  sha256 := alphaHost.sha256
  loads := @loadsKnown oneFloat alphaKnown
  loads_dumps := alphaKnown_eq ▸ alphaHost.loads_dumps

theorem fastHost_eq : fastHost = alphaHost := by
  simp only [fastHost, alphaKnown_eq]
  rfl

theorem alphaRetired_names : List.NodupKeys (β := fun _ : Dir × String => ℕ)
    [⟨(.unit, quarantineName alphaDigest (alphaUuid '1')), 7⟩, ⟨(.sub 9, intentName alphaOpId), 10⟩,
      ⟨(.unit, auditDirName), 9⟩, ⟨(.unit, lockFile), 8⟩] := by
  show List.Nodup [(Dir.unit, quarantineName alphaDigest (alphaUuid '1')),
    (.sub 9, intentName alphaOpId), (.unit, auditDirName), (.unit, lockFile)]
  decide +kernel

theorem alphaRetired_inodes {a b c d : Inode} : List.NodupKeys (β := fun _ : ℕ => Inode)
    [⟨7, a⟩, ⟨10, b⟩, ⟨9, c⟩, ⟨8, d⟩] := by
  show List.Nodup [7, 10, 9, 8]
  decide

/-- The intent is published, and the tombstone is in its quarantine. -/
def alphaRetired (uuids : List Char) : Desk where
  entries := ⟨_, alphaRetired_names⟩
  inodes := ⟨[⟨7, .regular, 1000, 0o600, 1, alphaBytes⟩,
    ⟨10, .regular, 1000, 0o600, 1, @objectText oneFloat.toFloatText alphaIntent ++ [0x0A]⟩,
    ⟨9, .directory, 1000, 0o700, 2, []⟩, ⟨8, .regular, 1000, 0o600, 1, []⟩], alphaRetired_inodes⟩
  next := 11
  uuids := uuids.map alphaUuid

theorem bothTickets_run : ∃ t, alphaRun alphaHost bothTickets = some t ∧ FirstCompleted t := by
  have happend : ∀ l m t, alphaRunFrom fastHost (l ++ m) t =
      (alphaRunFrom fastHost l t).bind (alphaRunFrom fastHost m) := by
    intro l m t
    rw [alphaRunFrom, List.map_append, driveSeries_append]
    rfl
  have hkilled : alphaRunFrom fastHost [(60, "T-2")] alphaDesk =
      some (alphaRetired ['3', '4', '5']) := by
    apply Option.map_injective Desk.tables_injective
    decide +kernel
  have hrefused : alphaRunFrom fastHost [(200, "T-3")] (alphaRetired ['3', '4', '5']) =
      some (alphaRetired ['4', '5']) := by
    apply Option.map_injective Desk.tables_injective
    decide +kernel
  have hcompleted : ((alphaRunFrom fastHost [(200, "T-2")] (alphaRetired ['4', '5'])).any
      fun t => FirstCompleted t) = true := by
    decide +kernel
  obtain ⟨t, ht, hfirst⟩ := (Option.any_eq_true _ _).1 hcompleted
  refine ⟨t, ?_, of_decide_eq_true hfirst⟩
  rw [← fastHost_eq]
  calc alphaRunFrom fastHost ([(60, "T-2")] ++ ([(200, "T-3")] ++ [(200, "T-2")])) alphaDesk
    _ = (some (alphaRetired ['3', '4', '5'])).bind
        (alphaRunFrom fastHost ([(200, "T-3")] ++ [(200, "T-2")])) := by
      rw [happend, hkilled]
    _ = alphaRunFrom fastHost [(200, "T-2")] (alphaRetired ['4', '5']) := by
      rw [Option.bind_some, happend, hrefused, Option.bind_some]
    _ = some t := ht

theorem tombstone_never_lost_alpha : ∃ t, alphaRun alphaHost bothTickets = some t ∧
    t.files.entry .unit pidFile = none ∧ @Reachable alphaHost 7 t.files ∧
    (t.files.inode 7).content = alphaBytes := by
  let := alphaHost
  obtain ⟨t, ht, hfirst⟩ := bothTickets_run
  obtain ⟨p, hserial⟩ := alpha_serial (A := fun _ => True) (fun _ _ => trivial) trivial ht
  exact ⟨t, ht, hfirst.1, (tombstone_never_lost hserial).2 7 rfl⟩

end

/-! ## Competing requests -/

/-- The tombstone `i` with the bytes `b` has one name, and the requests of `R` have no records. -/
structure Unclaimed (R : Set ClearRequest) (i : ℕ) (b : Bytes) (s : FileSys Dir) : Prop where
  pid : s.SoleName .unit pidFile i
  nlink : (s.inode i).nlink = 1
  content : (s.inode i).content = b
  records : ∀ r ∈ R, ∀ a, s.entry .unit auditDirName = some a →
    s.entry (.sub a) (intentName r.opId) = none ∧ s.entry (.sub a) (completeName r.opId) = none

theorem Unclaimed.ledger (h : Unclaimed R i b s) : Ledger R i b s := by
  have hintent : ∀ r ∈ R, ∀ a j, s.entry .unit auditDirName = some a →
      s.entry (.sub a) (intentName r.opId) ≠ some j := by
    intro r hr a j ha hj
    rw [(h.records r hr a ha).1] at hj
    cases hj
  refine ⟨.held, { stage := ⟨h.pid, h.nlink⟩, content := h.content, owner := ?_, intents := ?_,
                   distinct := ?_, completions := ?_ }⟩
  · rintro q ⟨⟩
  · intro r hr a j ha hj
    exact absurd hj (hintent r hr a j ha)
  · rintro r hr r' - q ⟨a, j, ha, hj, -⟩
    exact absurd hj (hintent r hr a j ha)
  · rintro r hr j ⟨a, ha, hj⟩
    rw [(h.records r hr a ha).2] at hj
    cases hj

/-- Where the digests of the indices differ, the identities of the requests do. -/
theorem injOn_opId (hsha : Set.InjOn sha256 {text | ∃ r ∈ R, text = objectText r.indexFields}) :
    Set.InjOn ClearRequest.opId R := fun r hr r' hr' h =>
  ClearRequest.index_inj (hsha ⟨r, hr, rfl⟩ ⟨r', hr', rfl⟩ h)

/-- Only one request is completed. -/
theorem Ledger.exclusive {r' : ClearRequest} {j j' : ℕ} (h : Ledger R i b s) (hr : r ∈ R)
    (hr' : r' ∈ R) (hc : CompletedBy s r j) (hc' : CompletedBy s r' j') : r = r' := by
  obtain ⟨st, h⟩ := h
  obtain ⟨q, hst, hi, -⟩ := h.completions r hr j hc
  obtain ⟨q', hst', hi', -⟩ := h.completions r' hr' j' hc'
  rw [hst] at hst'
  cases hst'
  exact h.distinct r hr r' hr' q hi hi'

/-- A completion tells the truth: the tombstone is retired, and its bytes are in the quarantine
    that the record names. -/
theorem Ledger.truthful {j : ℕ} (h : Ledger R i b s) (hr : r ∈ R) (hc : CompletedBy s r j) :
    s.entry .unit pidFile = none ∧ ∃ q e, loads (s.inode j).content = .doc e ∧
    e.get "quarantine" = .str q ∧ e.get "tombstone_sha256" = .str r.expectedSha256 ∧
    s.entry .unit q = some i ∧ (s.inode i).content = b ∧ sha256 b = r.expectedSha256 := by
  obtain ⟨st, h⟩ := h
  obtain ⟨q, rfl, -, hrec, hsha⟩ := h.completions r hr j hc
  obtain ⟨hpid, hsole, -⟩ := h.stage
  obtain ⟨e, he, hperm⟩ := hrec.loads (completionRecord_plain (intentRecord_plain r q))
  refine ⟨hpid, q, e, he, ?_, ?_, hsole.named, h.content, hsha⟩
  · rw [Dict.get_perm hperm, completionRecord, Dict.get_set_ne _ _ (by decide),
      intentRecord_quarantine]
  · rw [Dict.get_perm hperm, completionRecord, Dict.get_set_ne _ _ (by decide),
      ClearRequest.intentRecord, Dict.get_update_of_notMem _ (by simp), ClearRequest.indexFields]
    rfl

/-- **Completions are exclusive and truthful**: after any series of calls for the requests of
    `R`, at most one of them has a completion, which no step removes, and which is true. -/
theorem completions_exclusive {p : ClearProg (List String)} (hunique : env.unique)
    (hsha : Set.InjOn sha256 {text | ∃ r ∈ R, text = objectText r.indexFields})
    (h₀ : Unclaimed R i b s₀)
    (h : Serial (ClearStep env) (Begins fun args => ∀ r, args.validate = .ok r → r ∈ R) s₀ s p) :
    (∀ r ∈ R, ∀ r' ∈ R, ∀ j j', CompletedBy s r j → CompletedBy s r' j' → r = r') ∧
    (∀ r ∈ R, ∀ j, CompletedBy s r j → s.entry .unit pidFile = none ∧ ∃ q e,
      loads (s.inode j).content = .doc e ∧ e.get "quarantine" = .str q ∧
      e.get "tombstone_sha256" = .str r.expectedSha256 ∧ s.entry .unit q = some i ∧
      (s.inode i).content = b ∧ sha256 b = r.expectedSha256) ∧
    ∀ o k x s', p = .call o k → ClearStep env o s x s' → ∀ r j, CompletedBy s r j →
    CompletedBy s' r j := by
  have hinj := injOn_opId hsha
  obtain ⟨hledger, hp⟩ := Serial.keeps (J := Ledger R i b) (fun args r s s' hA hr hl hc =>
    hc.ledger hinj hunique (hA r hr) hl) h₀.ledger h
  refine ⟨fun r hr r' hr' j j' => hledger.exclusive hr hr', fun r hr j => hledger.truthful hr, ?_⟩
  rintro o k x s' rfl hstep r j hc
  obtain ⟨-, args, r', -, -, hg⟩ := hp.1
  exact (change_of_guard hg hstep).completedBy hc

section
omit [ClearanceHost]

theorem alpha_unclaimed (R : Set ClearRequest) :
    @Unclaimed alphaHost R 7 alphaBytes alphaFiles := by
  let := alphaHost
  refine ⟨⟨rfl, fun h => ?_⟩, rfl, rfl, fun r _ a ha => ?_⟩
  · obtain ⟨hd, hn, -⟩ := alphaFiles_entry h
    exact ⟨hd, hn⟩
  · obtain ⟨-, hn, -⟩ := alphaFiles_entry ha
    exact absurd hn (by decide)

theorem alpha_digests : @sha256 alphaHost alphaBytes = alphaDigest ∧
    @sha256 alphaHost (@objectText oneFloat.toFloatText firstRequest.indexFields) ≠
      @sha256 alphaHost (@objectText oneFloat.toFloatText secondRequest.indexFields) := by
  decide +kernel

theorem completions_exclusive_alpha : ∃ t, alphaRun alphaHost bothTickets = some t ∧
    @CompletedBy alphaHost t.files firstRequest 11 ∧
    (¬∃ j, @CompletedBy alphaHost t.files secondRequest j) ∧ ∃ q, t.files.entry .unit q = some 7 ∧
    (t.files.inode 7).content = alphaBytes := by
  let := alphaHost
  obtain ⟨t, ht, hfirst⟩ := bothTickets_run
  have hcompleted : CompletedBy t.files firstRequest 11 := ⟨9, hfirst.2.1, hfirst.2.2.1⟩
  have hne : firstRequest ≠ secondRequest := fun h =>
    absurd (congrArg ClearRequest.ticket h) (by decide)
  have hsha : Set.InjOn sha256
      {text | ∃ r ∈ ({firstRequest, secondRequest} : Set ClearRequest),
          text = objectText r.indexFields} := by
    rintro _ ⟨r, rfl | rfl, rfl⟩ _ ⟨r', rfl | rfl, rfl⟩ h
    · rfl
    · exact absurd h alpha_digests.2
    · exact absurd h.symm alpha_digests.2
    · rfl
  have hargs : ∀ x ∈ bothTickets, ∀ r, (alphaArgs x.2).validate = .ok r →
      r ∈ ({firstRequest, secondRequest} : Set ClearRequest) := by
    intro x hx r hr
    simp only [bothTickets, List.mem_cons, List.not_mem_nil, or_false] at hx
    rcases hx with rfl | rfl | rfl
    · exact .inl (Except.ok.inj (hr.symm.trans (alphaArgs_ok (by decide))))
    · exact .inr (Except.ok.inj (hr.symm.trans (alphaArgs_ok (by decide))))
    · exact .inl (Except.ok.inj (hr.symm.trans (alphaArgs_ok (by decide))))
  obtain ⟨p, hserial⟩ := alpha_serial (A := fun args => ∀ r, args.validate = .ok r →
    r ∈ ({firstRequest, secondRequest} : Set ClearRequest)) hargs (hargs (60, "T-2")
    List.mem_cons_self) ht
  have h := completions_exclusive (show alphaEnv.unique from trivial) hsha
    (alpha_unclaimed _) hserial
  obtain ⟨-, q, e, -, -, -, hq, hcontent, -⟩ := h.2.1 _ (.inl rfl) 11 hcompleted
  refine ⟨t, ht, hcompleted, ?_, q, hq, hcontent⟩
  rintro ⟨j, hj⟩
  exact hne (h.1 _ (.inl rfl) _ (.inr rfl) 11 j hcompleted hj)

end

/-! ## Retries -/

/-- A unit directory with the tombstone `i`, and with the files of a clearance in order, but no
    record of the request. -/
structure LegacyUnit (r : ClearRequest) (i : ℕ) (b : Bytes) (s : FileSys Dir) : Prop where
  unclaimed : Unclaimed {r} i b s
  kind : (s.inode i).kind = .regular
  uid : (s.inode i).uid = euid
  lock : ∀ {l}, s.entry .unit lockFile = some l →
    PrivateFile s l .regular ∧ (s.inode l).nlink = 1 ∧ s.SoleName .unit lockFile l
  audit : ∀ {a}, s.entry .unit auditDirName = some a → PrivateFile s a .directory

theorem LegacyUnit.recoverable (h : LegacyUnit r i b s) : Recoverable r i b s s where
  ledger := h.unclaimed.ledger
  upkeep :=
    { lock := h.lock
      audit := h.audit
      kind := h.kind
      uid := h.uid
      quarantined := fun hq hentry => absurd (h.unclaimed.pid.only hentry).2 hq.ne_pidFile
      records := by
        intro a j n ha hj hn
        obtain ⟨hintent, hcompletion⟩ := h.unclaimed.records r rfl a ha
        rcases hn with rfl | rfl
        · cases hintent.symm.trans hj
        · cases hcompletion.symm.trans hj
      own := by
        rintro q ⟨a, j, ha, hj, -⟩
        cases (h.unclaimed.records r rfl a ha).1.symm.trans hj
      frame := fun _ => .inl rfl }

/-- The clearance is complete: no `pid.json`, one intent and one completion with one link each,
    and one new quarantine, the only name of the tombstone. -/
structure Cleared (r : ClearRequest) (i : ℕ) (b : Bytes) (s₀ s : FileSys Dir)
    (q : String) : Prop where
  absent : s.entry .unit pidFile = none
  intent : ∃ a j, s.entry .unit auditDirName = some a ∧
    s.entry (.sub a) (intentName r.opId) = some j ∧ (s.inode j).nlink = 1 ∧
    IsRecord (s.inode j).content (r.intentRecord (.str q))
  completion : ∃ a j, s.entry .unit auditDirName = some a ∧
    s.entry (.sub a) (completeName r.opId) = some j ∧ (s.inode j).nlink = 1 ∧
    IsRecord (s.inode j).content (completionRecord (r.intentRecord (.str q)))
  quarantine : IsQuarantine q ∧ s.SoleName .unit q i ∧ (s.inode i).nlink = 1 ∧
    (s.inode i).content = b
  others : ∀ n, IsQuarantine n → n ≠ q → s.entry .unit n = s₀.entry .unit n

theorem Done.cleared (h : Done r i b s₀ s) : ∃ q, Cleared r i b s₀ s q := by
  obtain ⟨j, hc⟩ := h.completed
  obtain ⟨st, hl⟩ := h.recoverable.ledger
  obtain ⟨q, rfl, hi, hrec, -⟩ := hl.completions r rfl j hc
  obtain ⟨hpid, hsole, hnlink⟩ := hl.stage
  refine ⟨q, hpid, ?_, ?_, ⟨hl.isQuarantine rfl, hsole, hnlink, hl.content⟩, fun n hn hne => ?_⟩
  · obtain ⟨a, k, ha, hk, hrecord⟩ := hi
    exact ⟨a, k, ha, hk, h.intentLone a k ha hk, hrecord⟩
  · obtain ⟨a, ha, hj⟩ := hc
    exact ⟨a, j, ha, hj, h.completionLone a j ha hj, hrec⟩
  · rcases h.recoverable.upkeep.frame hn with hsame | hlink
    · exact hsame
    · exact absurd (hsole.only hlink).2 hne

/-- Whatever a call meets, the path it returns is that of the completion of its request. -/
theorem always_returns {directory : List String} {args : ClearArgs}
    (hargs : args.validate = .ok r) :
    (clearLegacyProcessTombstone directory args).Always (ClearStep env) (fun _ _ => True)
      (fun path _ => path = directory ++ completionPath r) (fun _ _ => True) s := by
  refine always_handle.2 ?_
  rw [clearLocked, hargs]
  have hskip : ∀ {α : Type} {p : ClearProg α} {Q : α → FileSys Dir → Prop}
      {E : Exc → FileSys Dir → Prop} {s},
      (∀ a s, Q a s) → (∀ e s, E e s) →
          p.Always (ClearStep env) (fun _ _ => True) Q E s := fun hq he =>
    always_true.mono (fun _ _ h => h) (fun a s _ => hq a s) fun e s _ => he e s
  refine always_bind.2 (always_bind.2 (hskip (fun unitSt s => ?_) fun _ _ => trivial))
  refine always_ensure.2 (always_bind.2 (hskip (fun _ s => ?_) fun _ s => ?_))
  · exact hskip (p := close _) (fun _ _ => rfl) fun _ _ => trivial
  · exact hskip (p := close _) (fun _ _ => trivial) fun _ _ => trivial

/-- **Clearances converge**: after any series of calls for a request, of which any may have been
    killed or have failed, a call that meets no failure completes the clearance, and returns
    the path that every call for the request returns. -/
theorem clearance_converges {env' : ClearEnv} {directory : List String} {args : ClearArgs}
    {p : ClearProg (List String)} (hargs : args.validate = .ok r) (hunique : env.unique)
    (hsmooth : Smooth env' r b directory.length) (h₀ : LegacyUnit r i b s₀)
    (h : Serial (ClearStep env) (Begins (· = args)) s₀ s p) :
    (clearLegacyProcessTombstone directory args).Always (ClearStep env') (fun _ _ => True)
      (fun path s' => path = directory ++ completionPath r ∧ ∃ q, Cleared r i b s₀ s' q)
      (fun _ _ => False) s ∧
    ∀ env s₁ s₂ path, Steps (ClearStep env) (clearLegacyProcessTombstone directory args) s₁ s₂
    (.ret path) → path = directory ++ completionPath r := by
  have hrecoverable : Recoverable r i b s₀ s := by
    refine (Serial.keeps ?_ h₀.recoverable h).1
    rintro _ r' s s' rfl hr' hs hc
    obtain rfl : r = r' := Except.ok.inj (hargs.symm.trans hr')
    exact hc.recoverable hunique hs
  constructor
  · refine Always.mono (fun _ _ _ => trivial) (fun path s' hq => ?_)
      (fun _ _ he => (he trivial).not_clears hsmooth.clears)
      (always_clearLegacyProcessTombstone (C := True) (fun _ => hsmooth.unhindered) hargs
        (fun _ => rfl) fun _ => hrecoverable)
    obtain ⟨hpath, hdone⟩ := hq trivial
    exact ⟨hpath, hdone.cleared⟩
  · intro env s₁ s₂ path hsteps
    exact (always_returns hargs).steps hsteps

section
omit [ClearanceHost]

section
variable {known : List (Bytes × String)}

theorem alpha_trusted : @TrustedPath (deskHost known) alphaPath 2 := by
  let := deskHost known
  refine ⟨rfl, by decide, fun k st hst => ?_⟩
  rcases k with _ | _ | k
  · cases hst
    rfl
  · cases hst
    rfl
  · cases hst

/-- Requests like the first one fit, whatever digest they expect. -/
theorem alpha_fits (h : ∀ e ∈ known, isDigest e.2 = true) {sha : String}
    (hsha : isDigest sha = true) :
    @ClearRequest.Fits (deskHost known)
    { firstRequest with expectedSha256 := sha, digest := hsha } := by
  let := deskHost known
  have hlength : firstRequest.textLength ≤ 7748 := by decide
  exact (fits_iff (isDigest_deskHost h)).2 ⟨firstRequest_writable, hlength⟩

end

theorem alpha_smooth : @Smooth alphaHost ⟨alphaPath, False, True⟩ firstRequest alphaBytes 2 := by
  let := alphaHost
  refine ⟨id, trivial, alpha_trusted, alpha_fits (by decide) firstRequest.digest, ?_, by decide⟩
  exact matches_iff.2 (by decide +kernel)

theorem alpha_legacyUnit : @LegacyUnit alphaHost firstRequest 7 alphaBytes alphaFiles := by
  let := alphaHost
  refine ⟨alpha_unclaimed _, rfl, rfl, fun h => ?_, fun h => ?_⟩
  · exact absurd (alphaFiles_entry h).2.1 (by decide)
  · exact absurd (alphaFiles_entry h).2.1 (by decide)

theorem clearance_converges_alpha : ∃ t, alphaRun alphaHost [(16, "T-2")] = some t ∧
    t.files.entry .unit auditDirName = some 9 ∧
    (@clearLegacyProcessTombstone alphaHost ["/", "alpha"] (alphaArgs "T-2")).Always
      (@ClearStep alphaHost ⟨alphaPath, False, True⟩) (fun _ _ => True)
      (fun path s => path = ["/", "alpha"] ++ @completionPath alphaHost firstRequest ∧
        ∃ q, @Cleared alphaHost firstRequest 7 alphaBytes alphaFiles s q)
      (fun _ _ => False) t.files := by
  let := alphaHost
  have hargs := @alphaArgs_ok alphaHost "T-2" (by decide)
  have hrun : ((alphaRun alphaHost [(16, "T-2")]).any fun t =>
      t.files.entry .unit auditDirName == some 9) = true := by
    decide +kernel
  obtain ⟨t, ht, haudit⟩ := (Option.any_eq_true _ _).1 hrun
  obtain ⟨p, hserial⟩ := alpha_serial (A := (· = alphaArgs "T-2"))
    (List.forall_mem_singleton.2 rfl) rfl ht
  exact ⟨t, ht, beq_iff_eq.1 haudit,
    (clearance_converges hargs trivial alpha_smooth alpha_legacyUnit hserial).1⟩

end

end DatasourceKit

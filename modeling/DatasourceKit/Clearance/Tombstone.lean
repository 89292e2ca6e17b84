/-
  Clearing a legacy process tombstone (`fleet/process.py`).

  A call works on the names of the unit directory and of the audit directory in it.  The
  directories that lead to the unit directory are known by what `stat` tells of them; an
  inode number stands for `(st_dev, st_ino)`, and nobody else writes.  The thread lock and
  the lock of the unit make whole calls serial, so both answer at once.

  * `ClearOp`: the calls of the operating system; `ClearStep env`: their effects.  `env`
    says what the path leads through, whether an operation may fail, and whether the names
    that `uuid4` makes are new;
  * `openTrustedUnitDirectory`, `readRegularFd`, `openPrivateNamed`, `atomicPrivateJson`,
    `recoverAuditLink`, `readExactAudit`: the functions of the source;
  * `readIntent`, `confirmCompleted`, `retireTombstone`, `publishCompletion`: the parts of
    `_clear_legacy_process_tombstone_locked`;
  * `clearLegacyProcessTombstone`: a call.
-/
import DatasourceKit.Files.System
import DatasourceKit.Interleave.History
import DatasourceKit.Clearance.Record

namespace DatasourceKit

open Interleave Prog Files

/-! ## The operating system -/

/-- A directory whose names a call uses: the unit directory, or a directory in it. -/
inductive Dir where
  | unit
  | sub (i : ℕ)
deriving DecidableEq

section
variable (s : FileSys Dir) {a i : ℕ} {m n : String} {v : Inode}

@[simp] theorem create_unit_sub : (s.create .unit m i v).entry (.sub a) n = s.entry (.sub a) n :=
  s.create_entry_ne v fun h => nomatch h

@[simp] theorem create_sub_unit : (s.create (.sub a) m i v).entry .unit n = s.entry .unit n :=
  s.create_entry_ne v fun h => nomatch h

@[simp] theorem link_unit_sub : (s.link .unit m i).entry (.sub a) n = s.entry (.sub a) n :=
  s.link_entry_ne fun h => nomatch h

@[simp] theorem link_sub_unit : (s.link (.sub a) m i).entry .unit n = s.entry .unit n :=
  s.link_entry_ne fun h => nomatch h

@[simp] theorem unlink_unit_sub : (s.unlink .unit m i).entry (.sub a) n = s.entry (.sub a) n :=
  s.unlink_entry_ne fun h => nomatch h

@[simp] theorem unlink_sub_unit : (s.unlink (.sub a) m i).entry .unit n = s.entry .unit n :=
  s.unlink_entry_ne fun h => nomatch h

end

/-- A descriptor: of a component of the path to the unit directory, or of a file below. -/
inductive Fd where
  | part (k : ℕ)
  | file (i : ℕ)
deriving DecidableEq

/-- What `os.stat` is asked for: the unit directory by its path, a file in a directory of
    the unit directory by its path, or a name in a directory. -/
inductive Named where
  | path
  | below (dir name : String)
  | entry (d : Dir) (name : String)

inductive OpenMode where
  | read | readWrite | directory

/-- The operations that change nothing and answer nothing. -/
inductive Quiet where
  | close | fsync | flock | unlock | rewind

inductive ClearOp where
  | openPart (k : ℕ)
  | openFile (d : Dir) (name : String) (mode : OpenMode)
  | create (d : Dir) (name : String)
  | mkdir (name : String)
  | fstat (fd : Fd)
  | stat (n : Named)
  | listdir (a : ℕ)
  | link (d : Dir) (src dst : String)
  | unlink (d : Dir) (name : String)
  | read (i offset n : ℕ)
  | write (i : ℕ) (b : Bytes)
  | fchmod (i mode : ℕ)
  | quiet (c : Quiet) (fd : Fd)
  | uuid

/-- The value an operation answers; `write` answers how much it has written. -/
def ClearOp.Val : ClearOp → Type
  | openPart _ | mkdir _ | link .. | unlink .. | fchmod .. | quiet .. => Unit
  | openFile .. | create .. | write .. => ℕ
  | fstat _ | stat _ => Stat
  | listdir _ => List String
  | read .. => Bytes
  | uuid => String

/-- The operation does not change the file system. -/
def ClearOp.reads : ClearOp → Bool
  | create .. | mkdir _ | link .. | unlink .. | write .. | fchmod .. => false
  | _ => true

/-- The host of a sequence of calls. -/
structure ClearEnv where
  /-- The components of the path to the unit directory, the root first. -/
  path : List Stat
  /-- Operations may fail. -/
  faulty : Prop
  /-- The names that `uuid4` makes are new. -/
  unique : Prop

section
variable [ClearanceHost]

open ClearanceHost

/-- No file has a name with `u`, and no published intent mentions one. -/
def FreshQuarantine (s : FileSys Dir) (q : String) : Prop :=
  s.entry .unit q = none ∧ ∀ a n j d, startsWith n "intent-" = true → s.entry (.sub a) n = some j →
    loads (s.inode j).content = .doc d → d.get "quarantine" ≠ .str q

def FreshUuid (s : FileSys Dir) (u : String) : Prop :=
  (∀ sha, FreshQuarantine s (quarantineName sha u)) ∧ ∀ a, s.entry (.sub a) (tmpName u) = none

/-- What reading at most `n` bytes of `rest` may deliver: nothing only at the end. -/
structure Chunk (rest : Bytes) (n : ℕ) (chunk : Bytes) : Prop where
  front : chunk <+: rest
  bounded : chunk.length ≤ n
  eof : chunk = [] → rest = [] ∨ n = 0

/-- The answer of `open`, which follows no symbolic link. -/
def openAnswer (mode : OpenMode) : Kind → Option Exc
  | .regular | .other => match mode with
    | .directory => some (.fault .ioError)
    | _ => none
  | .directory => match mode with
    | .readWrite => some .isDirectory
    | _ => none
  | .symlink => some (.fault .ioError)

/-- The file the name leads to. -/
def statNamed (path : List Stat) (s : FileSys Dir) : Named → Option Stat
  | .path => path.getLast?
  | .below dir name => (s.entry .unit dir).bind fun a => (s.entry (.sub a) name).map s.stat
  | .entry d name => (s.entry d name).map s.stat

/-- An operation that does not fail answers `r` and leaves `s'`. -/
def ClearEffect (env : ClearEnv) : (o : ClearOp) → FileSys Dir →
    Except Exc o.Val → FileSys Dir → Prop
  | .openPart k, s, r, s' => s' = s ∧
    r = match env.path[k]? with
      | none => .error .notFound
      | some st => match openAnswer .directory st.kind with
        | none => .ok ()
        | some e => .error e
  | .openFile d n mode, s, r, s' => s' = s ∧
    r = match s.entry d n with
      | none => .error .notFound
      | some i => match openAnswer mode (s.inode i).kind with
        | none => .ok i
        | some e => .error e
  | .create d n, s, r, s' =>
    if s.entry d n = none then
      -- the permissions `0o600` without those of the umask
      ∃ i mode, s.Unused i ∧ mode &&& 0o600 = mode ∧ r = .ok i ∧
        s' = s.create d n i ⟨.regular, euid, mode, 1, []⟩
    else r = .error .fileExists ∧ s' = s
  | .mkdir n, s, r, s' =>
    if s.entry .unit n = none then
      ∃ i mode, s.Unused i ∧ (∀ m, s.entry (.sub i) m = none) ∧ mode &&& 0o700 = mode ∧ r = .ok () ∧
        s' = s.create .unit n i ⟨.directory, euid, mode, 2, []⟩
    else r = .error .fileExists ∧ s' = s
  | .fstat (.file i), s, r, s' => s' = s ∧ r = .ok (s.stat i)
  | .fstat (.part k), s, r, s' => s' = s ∧
    r = match env.path[k]? with
      | some st => .ok st
      | none => .error (.fault .ioError)
  | .stat n, s, r, s' => s' = s ∧
    r = match statNamed env.path s n with
      | some st => .ok st
      | none => .error .notFound
  | .listdir a, s, r, s' => s' = s ∧
    ∃ l : List String, l.Nodup ∧ (∀ n, n ∈ l ↔ (s.entry (.sub a) n).isSome) ∧ r = .ok l
  | .link d src dst, s, r, s' =>
    match s.entry d src with
    | none => r = .error .notFound ∧ s' = s
    | some i =>
      if s.entry d dst = none then r = .ok () ∧ s' = s.link d dst i
      else r = .error .fileExists ∧ s' = s
  | .unlink d n, s, r, s' =>
    match s.entry d n with
    | none => r = .error .notFound ∧ s' = s
    | some i => r = .ok () ∧ s' = s.unlink d n i
  | .read i offset n, s, r, s' => s' = s ∧
    match (s.inode i).kind with
    | .regular => ∃ chunk, Chunk ((s.inode i).content.drop offset) n chunk ∧ r = .ok chunk
    | .directory => r = .error .isDirectory
    | _ => ∃ chunk : Bytes, chunk.length ≤ n ∧ r = .ok chunk
  | .write i b, s, r, s' =>
    ∃ k, k ≤ b.length ∧ (k = 0 → b = [] ∨ env.faulty) ∧ r = .ok k ∧ s' = s.append i (b.take k)
  | .fchmod i mode, s, r, s' => r = .ok () ∧ s' = s.chmod i mode
  | .quiet .., s, r, s' => r = .ok () ∧ s' = s
  | .uuid, s, r, s' => s' = s ∧
    ∃ u : String, u.length = 32 ∧ isHex u.toList = true ∧ (env.unique → FreshUuid s u) ∧ r = .ok u

/-- One operation: its effect, or a failure without one. -/
def ClearStep (env : ClearEnv) (o : ClearOp) (s : FileSys Dir) (r : Except Exc o.Val)
    (s' : FileSys Dir) : Prop :=
  ClearEffect env o s r s' ∨ (env.faulty ∧ s' = s ∧ ∃ f, r = .error (.fault f))

/-! ## Programs -/

abbrev ClearProg (α : Type) := Prog ClearOp.Val Exc α

namespace Os

def openPart (k : ℕ) : ClearProg Unit := perform (ClearOp.openPart k)
def openFile (d : Dir) (name : String) (mode : OpenMode) :
    ClearProg ℕ := perform (ClearOp.openFile d name mode)
def create (d : Dir) (name : String) : ClearProg ℕ := perform (ClearOp.create d name)
def mkdir (name : String) : ClearProg Unit := perform (ClearOp.mkdir name)
def fstat (fd : Fd) : ClearProg Stat := perform (ClearOp.fstat fd)
def stat (n : Named) : ClearProg Stat := perform (ClearOp.stat n)
def listdir (a : ℕ) : ClearProg (List String) := perform (ClearOp.listdir a)
def link (d : Dir) (src dst : String) : ClearProg Unit := perform (ClearOp.link d src dst)
def unlink (d : Dir) (name : String) : ClearProg Unit := perform (ClearOp.unlink d name)
def read (i offset n : ℕ) : ClearProg Bytes := perform (ClearOp.read i offset n)
def write (i : ℕ) (b : Bytes) : ClearProg ℕ := perform (ClearOp.write i b)
def fchmod (i mode : ℕ) : ClearProg Unit := perform (ClearOp.fchmod i mode)
def quiet (c : Quiet) (fd : Fd) : ClearProg Unit := perform (ClearOp.quiet c fd)
def uuid : ClearProg String := perform ClearOp.uuid

end Os

def close (fd : Fd) : ClearProg Unit := Os.quiet .close fd
def fsync (fd : Fd) : ClearProg Unit := Os.quiet .fsync fd

/-- `if not c: raise ProcessTombstoneError(msg)`. -/
def require (c : Bool) (msg : String) : ClearProg Unit :=
  if c then .ret () else .raise (.tombstone msg)

/-- `try: p except BaseException: os.close(fd); raise`. -/
def orClose {α : Type} (p : ClearProg α) (fd : Fd) : ClearProg α :=
  p.handle fun e => (close fd).bind fun _ => .raise e

/-- `try: p finally: os.close(fd)`. -/
def closing {α : Type} (p : ClearProg α) (fd : Fd) : ClearProg α := p.ensure (close fd)

/-- `_same_inode`. -/
def sameInode (left right : Stat) : Bool := left.ino == right.ino

/-! ## The path -/

/-- `_validate_trusted_directory`. -/
def validateTrustedDirectory (st : Stat) (unit : Bool) : Except Exc Unit :=
  if st.kind ≠ .directory then
    .error (.tombstone "clearance namespace component is not a directory")
  else if unit then
    if st.uid ≠ euid ∨ st.mode &&& 0o022 ≠ 0 then
      .error (.tombstone "unit directory must be euid-owned and not group/world writable")
    else .ok ()
  else if st.uid ≠ 0 ∧ st.uid ≠ euid then
    .error (.tombstone "clearance ancestor has an untrusted owner")
  else if st.mode &&& 0o022 ≠ 0 ∧ ¬(st.uid = 0 ∧ st.mode &&& 0o1000 ≠ 0) then
    .error (.tombstone "clearance ancestor is group/world writable")
  else .ok ()

/-- Open the component after `k`, and close `k`. -/
def enterPart (k : ℕ) : ClearProg Unit :=
  orClose ((Os.openPart (k + 1)).bind fun _ => close (.part k)) (.part k)

def validatePart (k : ℕ) (unit : Bool) : ClearProg Unit :=
  orClose ((Os.fstat (.part k)).bind fun st =>
    Prog.ofExcept (validateTrustedDirectory st unit)) (.part k)

/-- The components after `k` of a path of `depth` components, `n` of which are left. -/
def walkParts (depth : ℕ) : ℕ → ℕ → ClearProg Unit
  | _, 0 => .ret ()
  | k, n + 1 => (enterPart k).bind fun _ =>
    (validatePart (k + 1) (k + 1 == depth - 1)).bind fun _ =>
      walkParts depth (k + 1) n

/-- `_open_trusted_unit_directory` of a path of `depth` components; the descriptor is that
    of the last one. -/
def openTrustedUnitDirectory (depth : ℕ) : ClearProg Stat :=
  (Os.openPart 0).bind fun _ => (validatePart 0 false).bind fun _ =>
  (walkParts depth 0 (depth - 1)).bind fun _ =>
  orClose ((Os.fstat (.part (depth - 1))).bind fun st => (Os.stat .path).bind fun named =>
    (require (sameInode st named) "unit directory pathname identity changed").bind fun _ => .ret st)
    (.part (depth - 1))

/-! ## Files -/

/-- `_bind_named_directory`. -/
def bindNamed (opened : Stat) (n : Named) (message : String) : ClearProg Unit :=
  (Os.stat n).catching.bind fun
    | .ok named => require (sameInode opened named) message
    | .error .notFound => .raise (.tombstone message)
    | .error e => .raise e

/-- The loop of `_read_regular_fd`: every round but the last gets a byte, so there are at
    most `limit + 1`. -/
def readMore (i limit : ℕ) : ℕ → Bytes → ClearProg Bytes
  | 0, _ => .raise (.tombstone "tombstone is unreasonably large")
  | n + 1, got =>
    (Os.read i got.length (min (1024 * 1024) (limit + 1 - got.length))).bind fun chunk =>
      if chunk = [] then .ret got
      else if (got ++ chunk).length > limit then
        .raise (.tombstone "tombstone is unreasonably large")
      else readMore i limit n (got ++ chunk)

/-- `_read_regular_fd`. -/
def readRegularFd (i limit : ℕ) : ClearProg Bytes :=
  (Os.quiet .rewind (.file i)).bind fun _ => readMore i limit (limit + 1) []

/-- The limits of `_read_regular_fd` and of the audit records. -/
def tombstoneLimit : ℕ := 16 * 1024 * 1024
def recordLimit : ℕ := 8192

/-- A directory, or a file with one of the allowed numbers of links, that only the owner
    may use. -/
def isPrivate (st : Stat) (directory : Bool) (allowed : List ℕ) : Bool :=
  (if directory then st.kind == .directory else st.kind == .regular && allowed.contains st.nlink) &&
    st.uid == euid && st.mode &&& 0o077 == 0

/-- `_open_private_named`. -/
def openPrivateNamed (d : Dir) (name : String) (directory : Bool) (allowed : List ℕ) :
    ClearProg (ℕ × Stat) :=
  (Os.openFile d name (if directory then .directory else .read)).bind fun i =>
  (Os.fstat (.file i)).bind fun st => (Os.stat (.entry d name)).bind fun named =>
  if isPrivate st directory allowed && sameInode st named then .ret (i, st)
  else (close (.file i)).bind fun _ =>
    .raise (.tombstone "clearance artifact must be private and named by its opened inode")

/-- The loop that writes a record; every round writes a byte. -/
def writeAll (i : ℕ) : ℕ → Bytes → ClearProg Unit
  | 0, b => if b = [] then .ret () else .raise (.fault .ioError)
  | n + 1, b =>
    if b = [] then .ret ()
    else (Os.write i b).bind fun wrote =>
      if wrote = 0 then .raise (.fault .ioError) else writeAll i n (b.drop wrote)

/-- `_atomic_private_json`, from the opened temporary file to the published record. -/
def publishTmp (a i : ℕ) (tmp final : String) (raw : Bytes) : ClearProg Unit :=
  (writeAll i raw.length raw).bind fun _ => (fsync (.file i)).bind fun _ =>
  (Os.fchmod i 0o600).bind fun _ => (fsync (.file i)).bind fun _ =>
  (Os.link (.sub a) tmp final).bind fun _ => (fsync (.file a)).bind fun _ =>
  (Os.stat (.entry (.sub a) final)).bind fun published => (Os.fstat (.file i)).bind fun opened =>
  require (sameInode published opened) "published audit pathname identity changed"

/-- The temporary name goes, if it is there. -/
def dropTmp (a i : ℕ) (tmp : String) : ClearProg Unit :=
  (close (.file i)).bind fun _ =>
  ((Os.unlink (.sub a) tmp).bind fun _ => fsync (.file a)).handle fun
    | .notFound => .ret ()
    | e => .raise e

/-- `_atomic_private_json`. -/
def atomicPrivateJson (a : ℕ) (final : String) (value : Dict) : ClearProg Unit :=
  (Prog.ofExcept (dumpsSorted value)).bind fun text =>
  let raw := text ++ [0x0A]
  if raw.length > recordLimit then .raise (.tombstone "clearance audit record is too large")
  else
    Os.uuid.bind fun u => (Os.create (.sub a) (tmpName u)).bind fun i =>
      (publishTmp a i (tmpName u) final raw).ensure (dropTmp a i (tmpName u))

/-- The names of the audit directory that lead to the opened record and look temporary. -/
def findLinks (a : ℕ) (opened : Stat) : List String → ClearProg (List String)
  | [] => .ret []
  | n :: names =>
    if isTmpName n then
      (Os.stat (.entry (.sub a) n)).bind fun est => (findLinks a opened names).bind fun l =>
        .ret (if sameInode opened est then n :: l else l)
    else findLinks a opened names

/-- `_recover_audit_link`. -/
def recoverAuditLink (i : ℕ) (opened : Stat) (a : ℕ) : ClearProg Unit :=
  let extra := Exc.tombstone "published audit has unexpected extra links"
  if opened.nlink ≠ 2 then .ret ()
  else
    (Os.listdir a).bind fun names => (findLinks a opened names).bind fun
      | [n] => (Os.unlink (.sub a) n).bind fun _ => (fsync (.file a)).bind fun _ =>
          (Os.fstat (.file i)).bind fun st => if st.nlink ≠ 1 then .raise extra else .ret ()
      | _ => .raise extra

/-- `json.loads(raw)`, with `message` for what is no JSON. -/
def loadsOr (message : String) (raw : Bytes) : ClearProg Content :=
  match loads raw with
  | .malformed | .undecodable => .raise (.tombstone message)
  | .overlong => .raise (.valueError "Exceeds the limit for integer string conversion")
  | c => .ret c

/-- `c == dict(d)`. -/
def contentEq (c : Content) (d : Dict) : Bool :=
  match c with
  | .doc e => e.pyEq d
  | _ => false

/-- `_read_exact_audit`, with the record open. -/
def compareAudit (a : ℕ) (name : String) (expected : Dict) (i : ℕ) (opened : Stat) :
    ClearProg Bool :=
  (recoverAuditLink i opened a).bind fun _ => (readRegularFd i recordLimit).bind fun raw =>
  (loadsOr "clearance audit record is malformed" raw).bind fun actual =>
  (require (contentEq actual expected)
      "clearance audit record does not match request").bind fun _ =>
  (Os.stat (.entry (.sub a) name)).bind fun named => (Os.fstat (.file i)).bind fun opened =>
  (require (sameInode named opened) "clearance audit pathname identity changed").bind
    fun _ => .ret true

/-- `_read_exact_audit`. -/
def readExactAudit (a : ℕ) (name : String) (expected : Dict) : ClearProg Bool :=
  (openPrivateNamed (.sub a) name false [1, 2]).catching.bind fun
    | .ok (i, opened) => closing (compareAudit a name expected i opened) (.file i)
    | .error .notFound => .ret false
    | .error e => .raise e

/-! ## The transaction -/

/-- The opened namespace of a clearance. -/
structure Namespace where
  /-- The descriptor of the unit directory. -/
  dir : Fd
  unitSt : Stat
  lockSt : Stat
  audit : ℕ
  auditSt : Stat

/-- `_bind_clearance_namespace`. -/
def bindClearanceNamespace (ns : Namespace) : ClearProg Unit :=
  (bindNamed ns.unitSt .path "unit directory pathname identity changed").bind fun _ =>
  (bindNamed ns.lockSt (.entry .unit lockFile) "unit lock pathname identity changed").bind fun _ =>
  (bindNamed ns.auditSt (.entry .unit auditDirName)
      "audit directory pathname identity changed").bind fun _ =>
  (Os.fstat (.file ns.audit)).bind fun st =>
  require (sameInode ns.auditSt st) "audit directory descriptor identity changed"

/-- `.process.lock`, made durable before it is used; the descriptor. -/
def openUnitLock (dir : Fd) : ClearProg ℕ :=
  (Os.create .unit lockFile).catching.bind fun
    | .ok l =>
      ((Os.fchmod l 0o600).bind fun _ => (fsync (.file l)).bind fun _ => (fsync dir).bind fun _ =>
        .ret l).handle fun e =>
          if e.isOSError then
            (close (.file l)).bind fun _ =>
              .raise (.tombstone "unit lock could not be durably published")
          else .raise e
    | .error .fileExists =>
      (Os.openFile .unit lockFile .readWrite).handle fun e =>
        .raise (if e.isOSError then .tombstone "unit lock is absent or unreadable" else e)
    | .error e => .raise (if e.isOSError then .tombstone "unit lock could not be created" else e)

/-- Take the lock of the unit, which must be a private file under its name. -/
def lockUnit (l : ℕ) : ClearProg Stat :=
  (Os.fstat (.file l)).bind fun lst => (Os.stat (.entry .unit lockFile)).bind fun named =>
  (require (isPrivate lst false [1] && sameInode lst named)
    "unit lock must be a private regular named file").bind
    fun _ => (Os.quiet .flock (.file l)).bind fun _ => .ret lst

/-- `os.mkdir`, where the directory may exist. -/
def makeAuditDirectory (dir : Fd) : ClearProg Unit :=
  ((Os.mkdir auditDirName).bind fun _ => fsync dir).handle fun
    | .fileExists => .ret ()
    | e => .raise e

/-- What a call works with: the intent, whether it was published before, and the name of
    the quarantine. -/
structure Plan where
  intent : Dict
  existing : Bool
  quarantine : String

/-- Read the opened intent; the audit directory still names it. -/
def readOpenIntent (a : ℕ) (name : String) (i : ℕ) : ClearProg Content :=
  (readRegularFd i recordLimit).bind fun raw =>
    (loadsOr "clearance intent is malformed" raw).bind fun c =>
  (Os.fstat (.file i)).bind fun ist => (Os.stat (.entry (.sub a) name)).bind fun inamed =>
  (require (sameInode ist inamed) "clearance intent pathname identity changed").bind fun _ => .ret c

/-- The plan of an existing intent, which must be that of the request. -/
def adoptIntent (r : ClearRequest) : Content → ClearProg Plan
  | .doc intent =>
    (require (intent.pyEq (r.intentRecord (intent.get "quarantine")))
      "clearance intent does not match request").bind
      fun _ => (Prog.ofExcept (safeQuarantine (intent.get "quarantine"))).bind fun q =>
        .ret ⟨intent, true, q⟩
  | _ => .raise (.tombstone "clearance intent is malformed")

/-- The plan of the request: that of its intent if there is one, and else a new one with
    the quarantine `q`. -/
def readIntent (r : ClearRequest) (a : ℕ) (q : String) : ClearProg Plan :=
  ((openPrivateNamed (.sub a) (intentName r.opId) false [1, 2]).bind fun x =>
    (recoverAuditLink x.1 x.2 a).bind fun _ => .ret x.1).catching.bind fun
    | .error .notFound => .ret ⟨r.intentRecord (.str q), false, q⟩
    | .error e => .raise e
    | .ok i => (closing (readOpenIntent a (intentName r.opId) i) (.file i)).bind (adoptIntent r)

/-- No tombstone is there. -/
def requireRetired (msg : String) : ClearProg Unit :=
  (Os.stat (.entry .unit pidFile)).catching.bind fun
    | .ok _ => .raise (.tombstone msg)
    | .error .notFound => .ret ()
    | .error e => .raise e

/-- The quarantine is a private file with one link, of the expected digest. -/
def checkQuarantine (r : ClearRequest) (q msg : String) : ClearProg Unit :=
  (openPrivateNamed .unit q false [1]).bind fun x =>
  closing ((readRegularFd x.1 tombstoneLimit).bind fun raw =>
    require (sha256 raw == r.expectedSha256) msg) (.file x.1)

/-- The path of the completion below the unit directory. -/
def completionPath (r : ClearRequest) : List String := [auditDirName, completeName r.opId]

/-- The record `st` is what the returned path leads to. -/
def bindReturned (r : ClearRequest) (st : Stat) : ClearProg Unit :=
  (Os.stat (.below auditDirName (completeName r.opId))).bind fun named =>
  require (sameInode st named) "returned audit pathname identity changed"

/-- The request was completed before. -/
def confirmCompleted (r : ClearRequest) (ns : Namespace) (q : String) : ClearProg Unit :=
  (requireRetired "completion exists while tombstone is present").bind fun _ =>
  (checkQuarantine r q "completed quarantine does not match").bind fun _ =>
  (bindClearanceNamespace ns).bind fun _ =>
  (Os.stat (.entry (.sub ns.audit) (completeName r.opId))).bind fun cst =>
  (bindNamed cst (.entry (.sub ns.audit) (completeName r.opId))
      "completion pathname identity changed").bind fun _ =>
  bindReturned r cst

/-- The content is tokenless metadata of exactly the request's unit and generation. -/
def isLegacy (r : ClearRequest) : Content → Bool
  | .doc d => decide ("token" ∉ d) &&
    (match d.get "unit" with | .str u => u == r.unit | _ => false) &&
    (match d.get "generation" with | .int g => g == r.generation | _ => false)
  | _ => false

/-- The opened tombstone is that of the request; `nlink` 2 only if the second link is the
    quarantine of the existing intent. -/
def checkTombstone (r : ClearRequest) (p : Plan) (i : ℕ) : ClearProg Stat :=
  (Os.fstat (.file i)).bind fun pst => (readRegularFd i tombstoneLimit).bind fun raw =>
  (require (pst.kind == .regular && (if p.existing then [1, 2] else [1]).contains pst.nlink &&
    sha256 raw == r.expectedSha256) "tombstone identity or SHA-256 does not match").bind fun _ =>
  (if pst.nlink = 2 then
    bindNamed pst (.entry .unit p.quarantine) "shared tombstone is not our recovery link"
  else .ret ()).bind fun _ =>
  (loadsOr "legacy tombstone is malformed" raw).bind fun data =>
  (require (isLegacy r data) "tombstone is not tokenless exact legacy metadata").bind fun _ =>
  (Os.stat (.entry .unit pidFile)).bind fun pathst =>
  (require (sameInode pathst pst) "tombstone pathname identity changed").bind fun _ => .ret pst

/-- Link the tombstone to its quarantine, unless it is linked already. -/
def linkQuarantine (ns : Namespace) (q : String) (pst : Stat) : ClearProg Unit :=
  ((Os.link .unit pidFile q).bind fun _ => fsync ns.dir).handle fun
    | .fileExists => (Os.stat (.entry .unit q)).bind fun qst =>
      require (sameInode qst pst) "quarantine collision"
    | e => .raise e

/-- The quarantine is the tombstone. -/
def verifyLink (q : String) (pst : Stat) : ClearProg Unit :=
  (openPrivateNamed .unit q false [1, 2]).bind fun x =>
  closing ((require (sameInode x.2 pst) "quarantine inode mismatch").bind fun _ =>
    fsync (.file x.1)) (.file x.1)

/-- Retire the opened tombstone `i`. -/
def retireTombstone (r : ClearRequest) (ns : Namespace) (p : Plan) (i : ℕ) : ClearProg Unit :=
  (checkTombstone r p i).bind fun pst =>
  (Os.fchmod i 0o600).bind fun _ => (fsync (.file i)).bind fun _ =>
  (if p.existing then .ret ()
      else atomicPrivateJson ns.audit (intentName r.opId) p.intent).bind fun _ =>
  (linkQuarantine ns p.quarantine pst).bind fun _ => (verifyLink p.quarantine pst).bind fun _ =>
  -- the last authorization check before the irreversible retirement
  (bindClearanceNamespace ns).bind fun _ => (Os.stat (.entry .unit pidFile)).bind fun current =>
  (require (sameInode pst current) "tombstone pathname identity changed").bind fun _ =>
  (Os.unlink .unit pidFile).bind fun _ => fsync ns.dir

/-- The tombstone is retired, or was by an earlier call with the same intent. -/
def retireOrResume (r : ClearRequest) (ns : Namespace) (p : Plan) : ClearProg Unit :=
  (Os.openFile .unit pidFile .read).catching.bind fun
    | .ok i => closing (retireTombstone r ns p i) (.file i)
    | .error .notFound =>
      (require p.existing "tombstone absent and no matching intent").bind fun _ =>
      checkQuarantine r p.quarantine "intended quarantine does not match"
    | .error e => .raise e

/-- The retired tombstone is in quarantine under its only name. -/
def verifyRetired (r : ClearRequest) (q : String) : ClearProg Unit :=
  let failed := Exc.tombstone "retired quarantine invariant failed"
  (openPrivateNamed .unit q false [1]).bind fun x =>
  closing
    (if x.2.nlink ≠ 1 then .raise failed
    else (readRegularFd x.1 tombstoneLimit).bind fun raw =>
      if sha256 raw ≠ r.expectedSha256 then .raise failed else fsync (.file x.1))
    (.file x.1)

/-- Publish the completion, and look at what it stands for once more. -/
def publishCompletion (r : ClearRequest) (ns : Namespace) (p : Plan) : ClearProg Unit :=
  (verifyRetired r p.quarantine).bind fun _ =>
  (atomicPrivateJson ns.audit (completeName r.opId) (completionRecord p.intent)).bind fun _ =>
  (requireRetired "completion published while tombstone is present").bind fun _ =>
  (bindClearanceNamespace ns).bind fun _ =>
  (openPrivateNamed (.sub ns.audit) (completeName r.opId) false [1]).bind fun x =>
  closing (bindReturned r x.2) (.file x.1)

/-- The part with the audit directory open. -/
def clearInNamespace (r : ClearRequest) (ns : Namespace) : ClearProg Unit :=
  (bindClearanceNamespace ns).bind fun _ =>
  (Prog.ofExcept (dumpsSorted r.indexFields)).bind fun _ =>
  Os.uuid.bind fun u => (Prog.ofExcept
      (safeQuarantine (.str (quarantineName r.expectedSha256 u)))).bind fun q =>
  (readIntent r ns.audit q).bind fun p =>
  (readExactAudit ns.audit (completeName r.opId) (completionRecord p.intent)).bind fun completed =>
  if completed then confirmCompleted r ns p.quarantine
  else (retireOrResume r ns p).bind fun _ => publishCompletion r ns p

/-- The part with the lock open. -/
def clearWithLock (r : ClearRequest) (dir : Fd) (unitSt : Stat) (l : ℕ) : ClearProg Unit :=
  (lockUnit l).bind fun lockSt => (makeAuditDirectory dir).bind fun _ =>
  (openPrivateNamed .unit auditDirName true []).bind fun x =>
  closing (clearInNamespace r ⟨dir, unitSt, lockSt, x.1, x.2⟩) (.file x.1)

/-- The part with the unit directory open. -/
def clearInDirectory (r : ClearRequest) (dir : Fd) (unitSt : Stat) : ClearProg Unit :=
  (openUnitLock dir).bind fun l =>
  (clearWithLock r dir unitSt l).ensure ((Os.quiet .unlock (.file l)).ensure (close (.file l)))

/-- `_clear_legacy_process_tombstone_locked`, in the unit directory with these path
    components; the path of the completion. -/
def clearLocked (directory : List String) (args : ClearArgs) : ClearProg (List String) :=
  (Prog.ofExcept args.validate).bind fun r =>
  let dir := Fd.part (directory.length - 1)
  (openTrustedUnitDirectory directory.length).bind fun unitSt =>
  closing ((clearInDirectory r dir unitSt).bind fun _ => .ret (directory ++ completionPath r)) dir

/-- `clear_legacy_process_tombstone`. -/
def clearLegacyProcessTombstone (directory : List String) (args : ClearArgs) :
    ClearProg (List String) :=
  (clearLocked directory args).handle fun e =>
    .raise (if e.isOSError then .tombstone "legacy tombstone namespace operation failed" else e)

end

end DatasourceKit

import Bsd.Store.Registration
import Bsd.Util.Restore

/-!
# Adding a dump to the store

`addToStoreFromDump` hashes a stream while it reads it and restores a file tree from it.
A dump that fits into the buffer is kept in memory, a longer one is restored into a
temporary directory. For an archive that is hashed with SHA-256, the hash of the bytes
that were read is registered as the hash of the tree.
-/

namespace Bsd.Store.AddFromDump

open List Lib.Occurrences Lib.Readers Util.FilePath Util.Hashes Util.Serialise Util.Archive
open Util.ArchiveRoundTrip Util.ArchiveCanonicity Util.Restore Store.Path Store.ContentAddresses
open Store.PathInfoCache Store.Registration

inductive FileSerialisationMethod where
  | flat
  | bsdArchive
  deriving DecidableEq

def FileSerialisationMethod.ingestion : FileSerialisationMethod → FileIngestionMethod
  | .flat => .flat
  | .bsdArchive => .bsdArchive

structure HashFunctions where
  sha256 : Sha256
  other : HashAlgorithm → Bytes → Hash
  gitDumpHash : HashAlgorithm → FileTree → Except Failure Hash

def HashFunctions.hash (functions : HashFunctions) (algo : HashAlgorithm) (data : Bytes) : Hash :=
  if algo = .sha256 then hashString functions.sha256 data else functions.other algo data

/-- `Source::read`: at least one byte and at most `len`, or the end of the file. -/
def readSome (len : Nat) : Source → Option (Bytes × Source)
  | [] => none
  | [] :: rest => readSome len rest
  | (byte :: bytes) :: rest => some ((byte :: bytes).take len, (byte :: bytes).drop len :: rest)

structure Buffer where
  dump : Bytes
  inMemory : Bool
  source : Source

/-- The loop that fills the buffer. Every round reads a byte, so that `narBufferSize`
rounds are enough. -/
def fillBuffer (narBufferSize : Nat) : Nat → Bytes → Source → Buffer
  | 0, dump, source => ⟨dump, false, source⟩
  | rounds + 1, dump, source =>
    if dump.length < narBufferSize then
      match readSome (min 65536 (narBufferSize - dump.length)) source with
      | none => ⟨dump, true, []⟩
      | some (got, rest) => fillBuffer narBufferSize rounds (dump ++ got) rest
    else ⟨dump, false, source⟩

def readAhead (narBufferSize : Nat) (source : Source) : Buffer :=
  fillBuffer narBufferSize (narBufferSize + 1) [] source

def readFailure : ReadError → Failure
  | .endOfFile => .error (ascii "unexpected end-of-file")
  | .serialisation message => .error message
  | .outOfDepth => .outOfDepth

def restorePath (method : FileSerialisationMethod) (source : Source) :
    Except Failure (FileTree × Source) :=
  match method with
  | .flat => .ok (.regular false source.flatten, [])
  | .bsdArchive =>
    match parseDump false source with
    | .error failure => .error (readFailure failure)
    | .ok (calls, final) =>
      match restore calls with
      | .ok (some tree) => .ok (tree, final)
      | _ => .error (.error (ascii "path already exists"))

def dumpTree (tree : FileTree) : Except Failure Bytes :=
  match dumpPath false defaultPathFilter tree with
  | .ok bytes => .ok bytes
  | .error _ => .error (.error (ascii "file name collision"))

def readRegular : FileTree → Except Failure Bytes
  | .regular _ contents => .ok contents
  | _ => .error (.error (ascii "not a regular file"))

def hashPath (functions : HashFunctions) (tree : FileTree) (algo : HashAlgorithm) :
    FileIngestionMethod → Except Failure Hash
  | .flat => do
      let contents ← readRegular tree
      pure (functions.hash algo contents)
  | .bsdArchive => do
      let bytes ← dumpTree tree
      pure (functions.hash algo bytes)
  | .git => functions.gitDumpHash algo tree

structure Request where
  source : Source
  name : Bytes
  dumpMethod : FileSerialisationMethod
  hashMethod : ContentAddressMethod
  hashAlgo : HashAlgorithm
  references : Finset StorePath
  repair : Bool
  narBufferSize : Nat

def Request.stream (request : Request) : Bytes := request.source.flatten

def Request.methodsMatch (request : Request) : Bool :=
  decide (request.dumpMethod.ingestion = request.hashMethod.getFileIngestionMethod)

/-- What went through the hash sink, and the tree in the temporary directory if the dump
is not restored from memory. -/
structure Ingested where
  hashed : Bytes
  temp : Option FileTree

def ingest (request : Request) : Except Failure Ingested :=
  let buffer := readAhead request.narBufferSize request.source
  if buffer.inMemory && request.methodsMatch then .ok ⟨buffer.dump, none⟩
  else do
    -- The parser reads from the buffer first; only what it takes from the source is hashed.
    let restored ← restorePath request.dumpMethod (buffer.dump :: buffer.source)
    let rest := buffer.source.flatten
    pure ⟨buffer.dump ++ rest.take (rest.length - restored.2.flatten.length), some restored.1⟩

section Adding

variable (config : StoreDirConfig) (functions : HashFunctions)

def contentHash (request : Request) (ingested : Ingested) : Except Failure Hash :=
  if request.methodsMatch then .ok (functions.hash request.hashAlgo ingested.hashed)
  else
    match ingested.temp with
    | some tree =>
      hashPath functions tree request.hashAlgo request.hashMethod.getFileIngestionMethod
    | none => .error .assertion

def fromParts (method : ContentAddressMethod) (hash : Hash) (others : Finset StorePath) :
    ContentAddressWithReferences :=
  match method with
  | .text => .textInfo hash others
  | _ => .fixedOutputInfo method.getFileIngestionMethod hash ⟨others, false⟩

def installed (request : Request) (ingested : Ingested) : Except Failure FileTree :=
  match ingested.temp with
  | some tree => .ok tree
  | none => do
      let restored ← restorePath request.dumpMethod [ingested.hashed]
      pure restored.1

def narHash (request : Request) (ingested : Ingested) (tree : FileTree) :
    Except Failure (Hash × Nat) :=
  if request.dumpMethod ≠ .bsdArchive ∨ request.hashAlgo ≠ .sha256 then do
    let bytes ← dumpTree tree
    pure (hashString functions.sha256 bytes, bytes.length)
  else .ok (functions.hash request.hashAlgo ingested.hashed, ingested.hashed.length)

def newInfo (request : Request) (path : StorePath) (hash : Hash) (nar : Hash × Nat) :
    ValidPathInfo where
  path := path
  deriver := none
  narHash := nar.1
  references := request.references
  registrationTime := 0
  narSize := nar.2
  id := 0
  ultimate := false
  sigs := ∅
  ca := some ⟨request.hashMethod, hash⟩

structure LocalStore where
  registry : Registry
  disk : StorePath → Option FileTree

def LocalStore.readFile (store : LocalStore) (path : StorePath) : Except Failure Bytes :=
  match store.disk path with
  | some tree => readRegular tree
  | none => .error (.error (ascii "no such file"))

def LocalStore.install (store : LocalStore) (path : StorePath) (tree : FileTree) : LocalStore :=
  { store with disk := fun other => if other = path then some tree else store.disk other }

/-- `registered` is the info of a path that was registered. -/
structure Added where
  path : StorePath
  registered : Option ValidPathInfo

variable (depth : Nat) (now : Int)

def register (store : LocalStore) (info : ValidPathInfo) : Except Failure LocalStore :=
  match registerValidPaths config functions.sha256 store.readFile depth now
    (batchOf info) store.registry with
  | (.ok _, registry) => .ok { store with registry := registry }
  | (.error failure, _) => .error failure

def addToStoreFromDump (request : Request) (store : LocalStore) :
    Except Failure (Added × LocalStore) := do
  let ingested ← ingest request
  let hash ← contentHash functions request ingested
  let dstPath ← makeFixedOutputPathFromCA config functions.sha256 request.name
    (fromParts request.hashMethod hash request.references)
  if request.repair || !store.registry.isValidPath config dstPath then do
    let tree ← installed request ingested
    let nar ← narHash functions request ingested tree
    let info := newInfo request dstPath hash nar
    let after ← register config functions depth now (store.install dstPath tree) info
    pure (⟨dstPath, some info⟩, after)
  else pure (⟨dstPath, none⟩, store)

def wasModified (info : ValidPathInfo) (bytes : Bytes) : Bool :=
  decide (info.narHash ≠ ⟨.sha256, List.replicate 32 0, zero_hash_size⟩ ∧
    info.narHash ≠ functions.hash info.narHash.algo bytes)

end Adding

variable {source : Source}

theorem read_some_none {len : Nat} (ended : readSome len source = none) : source.flatten = [] := by
  induction source with
  | nil => rfl
  | cons fragment rest ih =>
    cases fragment with
    | nil =>
      exact ih ended
    | cons byte bytes => cases ended

theorem read_some_some {len : Nat} {rest : Source} {got : Bytes}
    (read : readSome len source = some (got, rest)) :
    source.flatten = got ++ rest.flatten ∧ got.length ≤ len ∧ (0 < len → got ≠ []) := by
  induction source with
  | nil => cases read
  | cons fragment others ih =>
    cases fragment with
    | nil =>
      exact ih read
    | cons byte bytes =>
      rw [readSome, Option.some.injEq, Prod.mk.injEq] at read
      rw [← read.1, ← read.2, flatten_cons, flatten_cons, ← append_assoc, take_append_drop]
      refine ⟨rfl, length_take_le _ _, ?_⟩
      intro positive empty
      cases len with
      | zero => cases positive
      | succ len => cases empty

structure Filled (narBufferSize : Nat) (stream : Bytes) (buffer : Buffer) : Prop where
  split : stream = buffer.dump ++ buffer.source.flatten
  inMemory : buffer.inMemory = true → buffer.source.flatten = [] ∧ stream.length < narBufferSize
  full : buffer.inMemory = false → buffer.dump.length = narBufferSize

theorem fill_buffer_filled {narBufferSize rounds : Nat} (dump : Bytes) (source : Source)
    (fits : dump.length ≤ narBufferSize) (enough : narBufferSize < rounds + dump.length) :
    Filled narBufferSize (dump ++ source.flatten) (fillBuffer narBufferSize rounds dump source) := by
  induction rounds generalizing dump source with
  | zero => omega
  | succ rounds ih =>
    rw [fillBuffer]
    split
    next short =>
      split
      next ended =>
        have nothing := read_some_none ended
        refine ⟨?_, ?_, nofun⟩
        · rw [nothing]
          rfl
        · intro _
          rw [nothing, append_nil]
          exact ⟨rfl, short⟩
      next got rest read =>
        obtain ⟨whole, small, nonempty⟩ := read_some_some read
        have positive : 0 < got.length := length_pos_iff.mpr (nonempty (by omega))
        rw [whole, ← append_assoc]
        apply ih
        · rw [length_append]
          omega
        · rw [length_append]
          omega
    next long =>
      refine ⟨rfl, nofun, ?_⟩
      intro _
      change dump.length = narBufferSize
      omega

theorem read_ahead_filled (narBufferSize : Nat) (source : Source) :
    Filled narBufferSize source.flatten (readAhead narBufferSize source) :=
  fill_buffer_filled [] source (Nat.zero_le narBufferSize) (Nat.lt_succ_self narBufferSize)

/-- How the bytes that were hashed lie in the stream from which a tree was restored. -/
structure Ran (request : Request) (hashed : Bytes) (tree : FileTree) (source final : Source) :
    Prop where
  whole : source.flatten = request.stream
  restored : restorePath request.dumpMethod source = .ok (tree, final)
  front : hashed <+: request.stream
  ahead : hashed = request.stream ∨ request.narBufferSize ≤ hashed.length
  used : ∀ consumed, request.stream = consumed ++ final.flatten →
    (final.flatten = [] ∨ request.narBufferSize ≤ consumed.length) → hashed = consumed

variable {tree : FileTree} {final : Source} {request : Request}

theorem ran_from_both {buffer : Buffer}
    (filled : Filled request.narBufferSize request.stream buffer)
    (restored : restorePath request.dumpMethod (buffer.dump :: buffer.source) = .ok (tree, final)) :
    Ran request (buffer.dump ++ buffer.source.flatten.take
        (buffer.source.flatten.length - final.flatten.length)) tree
      (buffer.dump :: buffer.source) final := by
  have split := filled.split
  have size := congrArg length split
  rw [length_append] at size
  refine ⟨?_, restored, ?_, ?_, ?_⟩
  · rw [flatten_cons, split]
  · rw [split]
    exact (prefix_append_right_inj _).mpr <| take_prefix _ _
  · cases memory : buffer.inMemory with
    | true =>
      left
      rw [split, (filled.inMemory memory).1, take_nil]
    | false =>
      right
      rw [length_append, filled.full memory]
      exact Nat.le_add_right _ _
  · intro consumed isConsumed complete
    have sizes := congrArg length isConsumed
    rw [length_append] at sizes
    -- What was consumed begins with the buffer, or there is nothing behind it.
    have covers : final.flatten.length ≤ buffer.source.flatten.length := by
      rcases complete with nothing | long
      · rw [nothing]
        exact Nat.zero_le _
      have short : buffer.dump.length ≤ request.narBufferSize := by
        cases memory : buffer.inMemory with
        | true =>
          have small := (filled.inMemory memory).2
          omega
        | false => exact le_of_eq (filled.full memory)
      omega
    have taken : consumed = request.stream.take consumed.length := by
      rw [isConsumed, take_left']
      rfl
    have reaches : consumed.length =
        buffer.dump.length + (buffer.source.flatten.length - final.flatten.length) := by
      omega
    rw [taken, reaches, split, take_length_add_append]

theorem installed_ran {ingested : Ingested} (read : ingest request = .ok ingested)
    (install : installed request ingested = .ok tree) :
    ∃ source final, Ran request ingested.hashed tree source final := by
  have filled := read_ahead_filled request.narBufferSize request.source
  rw [ingest] at read
  split at read
  next memory =>
    rw [Bool.and_eq_true] at memory
    obtain ⟨nothing, small⟩ := filled.inMemory memory.1
    have whole : (readAhead request.narBufferSize request.source).dump = request.stream := by
      have split := filled.split
      rw [nothing, append_nil] at split
      exact split.symm
    rw [← Except.ok.inj read] at install
    obtain ⟨restored, isRestored, isTree⟩ := except_bind_ok install
    rw [← Except.ok.inj read, ← Except.ok.inj isTree]
    rw [whole] at isRestored ⊢
    refine ⟨[request.stream], restored.2, flatten_singleton, isRestored, prefix_rfl, .inl rfl, ?_⟩
    rintro consumed split (nothing | long)
    · rw [nothing, append_nil] at split
      exact split
    · have size := congrArg length split
      rw [length_append] at size
      rw [← Request.stream] at small
      omega
  · obtain ⟨restored, isRestored, isIngested⟩ := except_bind_ok read
    rw [← Except.ok.inj isIngested] at install
    rw [← Except.ok.inj isIngested, ← Except.ok.inj install]
    exact ⟨_, restored.2, ran_from_both filled isRestored⟩

theorem restore_path_archive (restored : restorePath .bsdArchive source = .ok (tree, final)) :
    ∃ (described : Tree) (calls : List SinkCall), parseDump false source = .ok (calls, final) ∧
      Describes calls described.val ∧ tree = onDisk described.val := by
  rw [restorePath] at restored
  cases parsed : parseDump false source with
  | error failure =>
    rw [parsed] at restored
    cases restored
  | ok pair =>
    obtain ⟨calls, left⟩ := pair
    obtain ⟨_, made, _, fine, described, _, _⟩ := parse_dump_ok parsed
    rw [parsed] at restored
    dsimp only at restored
    rw [restore_described fine described] at restored
    cases restored
    exact ⟨⟨_, fine⟩, calls, rfl, described, rfl⟩

/-- The stream begins with an archive as `dumpPath` writes it for a tree that can be on disk,
and nothing behind it is read ahead. -/
def Exact (request : Request) : Prop :=
  ∃ (tree : Tree) (rest : Bytes), Linkable tree.val ∧ request.stream = archive tree.val ++ rest ∧
    (rest = [] ∨ request.narBufferSize ≤ (archive tree.val).length)

theorem hashed_archive_iff {hashed : Bytes} (isArchive : request.dumpMethod = .bsdArchive)
    (ran : Ran request hashed tree source final) : hashed = archive tree ↔ Exact request := by
  have restored := ran.restored
  rw [isArchive] at restored
  obtain ⟨described, calls, parsed, describes, rfl⟩ := restore_path_archive restored
  constructor
  · intro same
    obtain ⟨rest, split⟩ := ran.front
    refine ⟨⟨onDisk described.val, well_formed_on_disk _ described.property⟩, rest,
      linkable_on_disk _, ?_, ?_⟩
    · rw [← split, same]
    rcases ran.ahead with all | long
    · left
      rw [← all] at split
      exact append_right_eq_self.mp split
    · right
      rw [same] at long
      exact long
  · intro exact
    obtain ⟨other, rest, linkable, split, complete⟩ := exact
    obtain ⟨otherCalls, otherFinal, otherParsed, remains, otherDescribes⟩ :=
      parse_dump_archive other (ran.whole.trans split)
    rw [parsed] at otherParsed
    cases otherParsed
    have isTree : other = described := describes_unique otherDescribes describes
    subst isTree
    rw [on_disk_of_linkable other.property linkable]
    apply ran.used
    · rw [remains]
      exact split
    · rw [remains]
      exact complete

theorem dump_tree_ok {bytes : Bytes} (dumped : dumpTree tree = .ok bytes) :
    dumpPath false defaultPathFilter tree = .ok bytes := by
  rw [dumpTree] at dumped
  cases outcome : dumpPath false defaultPathFilter tree with
  | error failure =>
    rw [outcome] at dumped
    cases dumped
  | ok found =>
    rw [outcome] at dumped
    rw [Except.ok.inj dumped]

section Registered

variable {config : StoreDirConfig} {functions : HashFunctions} {depth : Nat} {now : Int}
  {request : Request} {store after : LocalStore} {added : Added} {info : ValidPathInfo}

theorem added_registered
    (ran : addToStoreFromDump config functions depth now request store = .ok (added, after))
    (registered : added.registered = some info) :
    ∃ ingested tree nar, ingest request = .ok ingested ∧
      installed request ingested = .ok tree ∧ narHash functions request ingested tree = .ok nar ∧
      after.disk info.path = some tree ∧ info.narHash = nar.1 ∧ info.narSize = nar.2 := by
  obtain ⟨ingested, read, ran⟩ := except_bind_ok ran
  obtain ⟨hash, _, ran⟩ := except_bind_ok ran
  obtain ⟨dstPath, _, ran⟩ := except_bind_ok ran
  split at ran
  · obtain ⟨tree, install, ran⟩ := except_bind_ok ran
    obtain ⟨nar, isNar, ran⟩ := except_bind_ok ran
    obtain ⟨afterwards, isRegistered, ran⟩ := except_bind_ok ran
    cases ran
    cases registered
    refine ⟨ingested, tree, nar, read, install, isNar, ?_, rfl, rfl⟩
    rw [register] at isRegistered
    split at isRegistered
    · rw [← Except.ok.inj isRegistered]
      exact if_pos rfl
    · cases isRegistered
  · cases ran
    cases registered

/-- The registered hash and size are those of the tree on disk exactly if they were
computed from it, or the stream was read as the archive of a tree without a zero byte in a link
target, and no further. Where they are, `verifyStore` has nothing to report. -/
theorem registered_hash_iff
    (ran : addToStoreFromDump config functions depth now request store = .ok (added, after))
    (registered : added.registered = some info)
    (noCollision : ∀ tree bytes front, after.disk info.path = some tree →
      dumpPath false defaultPathFilter tree = .ok bytes → front <+: request.stream →
      functions.sha256.digest front = functions.sha256.digest bytes → front = bytes) :
    ∃ tree bytes, after.disk info.path = some tree ∧
      dumpPath false defaultPathFilter tree = .ok bytes ∧
      ((info.narHash = hashString functions.sha256 bytes ∧ info.narSize = bytes.length) ↔
        (request.dumpMethod = .bsdArchive → request.hashAlgo = .sha256 → Exact request)) ∧
      (info.narHash = hashString functions.sha256 bytes → wasModified functions info bytes = false) := by
  obtain ⟨ingested, tree, nar, read, install, isNar, onDisk, isHash, isSize⟩ :=
    added_registered ran registered
  obtain ⟨source, final, restored⟩ := installed_ran read install
  have unmodified : ∀ bytes, info.narHash = hashString functions.sha256 bytes →
      wasModified functions info bytes = false := by
    intro bytes same
    have algo : info.narHash.algo = .sha256 := by
      rw [same]
      rfl
    rw [wasModified, decide_eq_false_iff_not, algo]
    exact fun both => both.2 same
  rw [narHash] at isNar
  split at isNar
  next recomputed =>
    obtain ⟨bytes, dumped, isNar⟩ := except_bind_ok isNar
    have written := dump_tree_ok dumped
    rw [← Except.ok.inj isNar] at isHash isSize
    refine ⟨tree, bytes, onDisk, written, iff_of_true ⟨isHash, isSize⟩ ?_, unmodified bytes⟩
    intro isArchive isSha
    exact (recomputed.elim (· isArchive) (· isSha)).elim
  next taken =>
    rw [not_or, not_not, not_not] at taken
    obtain ⟨described, _, _, _, isTree⟩ := restore_path_archive (taken.1 ▸ restored.restored)
    have written : dumpPath false defaultPathFilter tree = .ok (archive tree) := by
      rw [isTree]
      exact dump_path_archive _ (well_formed_on_disk _ described.property)
    rw [← Except.ok.inj isNar, taken.2] at isHash
    rw [← Except.ok.inj isNar] at isSize
    refine ⟨tree, archive tree, onDisk, written, ?_, unmodified _⟩
    have condition := hashed_archive_iff taken.1 restored
    constructor
    · intro same _ _
      apply condition.mp
      rw [isHash] at same
      exact noCollision tree _ _ onDisk written restored.front (congrArg Hash.hash same.1)
    · intro exact
      have same := condition.mpr (exact taken.1 taken.2)
      rw [isHash, isSize, same]
      exact ⟨rfl, rfl⟩

end Registered

/-- A stand-in for SHA-256 that counts the bytes. -/
def countSha : Sha256 := ⟨fun data => Fin.ofNat 256 data.length :: List.replicate 31 0, fun _ => rfl⟩

def countFunctions : HashFunctions where
  sha256 := countSha
  other := fun _ data => hashString countSha data
  gitDumpHash := fun _ _ => .error .assertion

def linkTree : Tree := ⟨.symlink (ascii "a"), by rw [WellFormed]; decide⟩

theorem link_tree_linkable : Linkable linkTree.val := by
  intro path target member
  cases mem_singleton.mp member
  decide

def linkRequest (behind : Bytes) : Request where
  source := [archive linkTree.val ++ behind]
  name := ascii "link"
  dumpMethod := .bsdArchive
  hashMethod := .bsdArchive
  hashAlgo := .sha256
  references := ∅
  repair := false
  narBufferSize := 1024

def emptyStore : LocalStore := ⟨emptyRegistry, fun _ => none⟩

def addLink (behind : Bytes) : Except Failure (Added × LocalStore) :=
  addToStoreFromDump usualStore countFunctions 0 0 (linkRequest behind) emptyStore

def registeredTest (test : ValidPathInfo → Bytes → Bool)
    (result : Except Failure (Added × LocalStore)) : Bool :=
  match result with
  | .error _ => false
  | .ok (added, after) =>
    match added.registered with
    | none => false
    | some info =>
      match (after.disk info.path).map dumpTree with
      | some (.ok bytes) => test info bytes
      | _ => false

theorem registered_test (test : ValidPathInfo → Bytes → Bool)
    (result : Except Failure (Added × LocalStore)) (passed : registeredTest test result = true) :
    ∃ added after info tree bytes, result = .ok (added, after) ∧ added.registered = some info ∧
      after.disk info.path = some tree ∧ dumpPath false defaultPathFilter tree = .ok bytes ∧
      test info bytes = true := by
  rw [registeredTest.eq_def] at passed
  split at passed
  · cases passed
  next added after =>
    split at passed
    · cases passed
    next info registered =>
      split at passed
      next bytes dumped =>
        obtain ⟨tree, onDisk, written⟩ := Option.map_eq_some_iff.mp dumped
        exact ⟨added, after, info, tree, bytes, rfl, registered, onDisk,
          dump_tree_ok written, passed⟩
      · cases passed

theorem registered_hash_iff_link : ∃ added after info tree bytes, addLink [] = .ok (added, after) ∧
      added.registered = some info ∧ after.disk info.path = some tree ∧
      dumpPath false defaultPathFilter tree = .ok bytes ∧
      info.narHash = hashString countSha bytes ∧ info.narSize = bytes.length := by
  obtain ⟨added, after, info, link, whole, ran, registered, linked, written, same⟩ :=
    registered_test (fun _ bytes => decide (bytes = (linkRequest []).stream)) (addLink []) (by decide +kernel)
  have isStream : whole = (linkRequest []).stream := of_decide_eq_true same
  have size : (linkRequest []).stream.length < 256 := by decide +kernel
  have noCollision : ∀ tree bytes front, after.disk info.path = some tree →
      dumpPath false defaultPathFilter tree = .ok bytes → front <+: (linkRequest []).stream →
      countSha.digest front = countSha.digest bytes → front = bytes := by
    intro tree bytes front onDisk dumped isFront sameDigest
    rw [linked, Option.some.injEq] at onDisk
    rw [← onDisk, written, Except.ok.injEq, isStream] at dumped
    rw [← dumped] at sameDigest ⊢
    have counted : front.length % 256 = (linkRequest []).stream.length % 256 :=
      congrArg Fin.val (cons.inj sameDigest).1
    have short := isFront.length_le
    apply isFront.eq_of_length
    omega
  obtain ⟨tree, bytes, onDisk, dumped, condition, _⟩ := registered_hash_iff ran registered noCollision
  refine ⟨added, after, info, tree, bytes, ran, registered, onDisk, dumped, condition.mpr ?_⟩
  intro _ _
  exact ⟨linkTree, [], link_tree_linkable, flatten_singleton, .inl rfl⟩

/-- The byte behind the archive is hashed and counted, and it is not on disk. -/
theorem trailing_byte_registered : ∃ added after info tree bytes, addLink [1] = .ok (added, after) ∧
      added.registered = some info ∧ after.disk info.path = some tree ∧
      dumpPath false defaultPathFilter tree = .ok bytes ∧
      info.narHash ≠ hashString countSha bytes ∧ info.narSize ≠ bytes.length ∧
      wasModified countFunctions info bytes = true := by
  obtain ⟨added, after, info, tree, bytes, ran, registered, onDisk, dumped, shown⟩ :=
    registered_test (fun info bytes => decide (info.narHash ≠ hashString countSha bytes ∧
      info.narSize ≠ bytes.length ∧ wasModified countFunctions info bytes = true))
      (addLink [1]) (by decide +kernel)
  exact ⟨added, after, info, tree, bytes, ran, registered, onDisk, dumped, of_decide_eq_true shown⟩

end Bsd.Store.AddFromDump

import PeerHours.Library.Hex
import PeerHours.Library.JsonIndent
import PeerHours.Library.Timestamp
import PeerHours.Node.FileSystem

/-!
# Backups of a node

A backup is a copy of the node's data directory with a manifest of its files. It is made beside its destination and
published by one rename, and so is a restored directory. A backup is verified against its manifest.
-/

namespace PeerHours.Node

open Checked FileTree Json KeyedMap Sorting Stateful

/-- The parts of the host that a backup uses: SHA-256, the order of names, what `Date.parse` takes beyond the texts of
`toISOString`, and how bytes that are no UTF-8 are decoded. -/
structure BackupHost where
  crypto : Crypto
  localeCompare : String → String → Ordering
  parsesOther : String → Bool
  replaceInvalid : Buffer → String

def BACKUP_MANIFEST_FILE : String := "peer-hours-node-backup.json"

def BACKUP_SCHEMA : String := "peer-hours/node-backup/v1"

/-- One regular file captured in a backup. -/
structure BackupFile where
  path : String
  bytes : Nat
  sha256 : String
deriving DecidableEq

/-- The inventory of a backup. -/
structure NodeBackupManifest where
  createdAt : String
  files : List BackupFile
deriving DecidableEq

structure BackupVerification where
  manifest : NodeBackupManifest
  backupDirectory : Path
deriving DecidableEq

/-- `buffer.toString("utf8")`. -/
def decodeUtf8 (host : BackupHost) (data : Buffer) : String :=
  (String.fromUTF8? ⟨data.toArray⟩).getD (host.replaceInvalid data)

/-- `relative(root, absolute).split(sep).join("/")`. -/
def joinPath (path : Path) : String :=
  String.ofList (['/'].intercalate (path.map String.toList))

/-! ## Manifest -/

def BackupFile.toJson (file : BackupFile) : JsonValue :=
  .obj [("path", .str file.path), ("bytes", .int file.bytes), ("sha256", .str file.sha256)]

def NodeBackupManifest.toJson (manifest : NodeBackupManifest) : JsonValue :=
  .obj [("schema", .str BACKUP_SCHEMA), ("createdAt", .str manifest.createdAt),
    ("files", .arr (manifest.files.map BackupFile.toJson))]

/-- The bytes of the manifest file. -/
def NodeBackupManifest.data (manifest : NodeBackupManifest) : Buffer :=
  utf8 (stringifyIndented manifest.toJson ++ "\n")

/-- Ensures manifest file paths cannot be absolute or escape the backup root. -/
def isSafeBackupPath (path : String) : Bool :=
  path ≠ "" && path.toList.head? ≠ some '/' &&
    (path.toList.splitOn '/').all fun segment ↦ segment ≠ [] && segment ≠ ['.'] && segment ≠ ['.', '.']

/-- One entry of a manifest. -/
def readBackupFile (file : JsonValue) : Except String BackupFile :=
  let invalid := "Backup manifest contains an invalid file entry."
  do
    require (file.isObject = true) invalid
    let path ← present (JsonValue.text? (file.field "path")) invalid
    require (isSafeBackupPath path = true) invalid
    let bytes ← present (JsonValue.int? (file.field "bytes")) invalid
    require (0 ≤ bytes ∧ bytes ≤ 2 ^ 53 - 1) invalid
    let sha256 ← present (JsonValue.text? (file.field "sha256")) invalid
    require (sha256.toList.length = 64 ∧ sha256.toList.all Hex.isLower = true) invalid
    pure ⟨path, bytes.toNat, sha256⟩

/-- The items of an array. -/
def items? : Option JsonValue → Option (List JsonValue)
  | some (.arr items) => some items
  | _ => none

/-- Validates the JSON value of a manifest. -/
def checkManifest (host : BackupHost) (parsed : JsonValue) : Except String NodeBackupManifest :=
  let unsupported := "Backup manifest has an unsupported shape."
  do
    require (JsonValue.text? (parsed.field "schema") = some BACKUP_SCHEMA) unsupported
    let createdAt ← present (JsonValue.text? (parsed.field "createdAt")) unsupported
    let items ← present (items? (parsed.field "files")) unsupported
    require ((Timestamp.isCanonical createdAt || host.parsesOther createdAt) = true)
      "Backup manifest has an invalid creation time."
    let files ← items.mapM readBackupFile
    pure ⟨createdAt, files⟩

/-- Reads and validates a manifest. -/
def readManifest (host : BackupHost) (faults : Faults) (backupDirectory : Path) (fs : FileSystem) :
    Except String NodeBackupManifest := do
  let data := (readFile faults (backupDirectory ++ [BACKUP_MANIFEST_FILE]) fs).toOption
  let parsed ← present (data.bind fun data ↦ parse (decodeUtf8 host data))
    "Backup manifest is missing or is not valid JSON."
  checkManifest host parsed

/-! ## Inventory -/

mutual

/-- `visit` of one entry below the root: a directory's entries in the order of their names, or a regular file. -/
def visit (host : BackupHost) (faults : Faults) (root : Path) (ignored : List String) (path : Path) :
    FileSystem → Except String (List BackupFile)
  | .directory entries =>
      match faults.read (root ++ path) with
      | some message => .error message
      | none => do
          let visited := visitEntries host faults root ignored path entries
          let found ← (sortBy (on host.localeCompare Prod.fst) visited).mapM Prod.snd
          pure found.flatten
  | .file contents =>
      if joinPath path ∈ ignored then .ok []
      else do
        let contents ← readContents faults (root ++ path) contents
        pure [⟨joinPath path, contents.length, Hex.encode (host.crypto.sha256 contents)⟩]
  | .link _ | .special =>
      .error ("Backup does not support symbolic links or special file entries: " ++ joinPath path ++ ".")

/-- The visits of the entries of a directory, with their names. -/
def visitEntries (host : BackupHost) (faults : Faults) (root : Path) (ignored : List String)
    (path : Path) : List (String × FileSystem) → List (String × Except String (List BackupFile))
  | [] => []
  | (name, entry) :: rest =>
      (name, visit host faults root ignored (path ++ [name]) entry) ::
        visitEntries host faults root ignored path rest

end

/-- Walks regular files and rejects links or device-like entries that make a backup ambiguous. -/
def inventoryFiles (host : BackupHost) (faults : Faults) (root : Path) (ignored : List String)
    (fs : FileSystem) : Except String (List BackupFile) :=
  match find? root fs with
  | some (.directory entries) => visit host faults root ignored [] (.directory entries)
  | some _ => .error "ENOTDIR: not a directory, scandir"
  | none => .error "ENOENT: no such file or directory, scandir"

/-! ## Checks of paths -/

/-- Requires an explicit stopped-node acknowledgement. -/
def requireStoppedNode (nodeStopped : Bool) : Except String Unit :=
  require (nodeStopped = true)
    "Refusing to copy live node storage. Stop the node cleanly and pass --node-stopped."

/-- Ensures a path exists and is a real directory. -/
def assertDirectory (path : Path) (label : String) (fs : FileSystem) : Except String Unit :=
  require ((find? path fs).any isDirectory = true)
    (label ++ " must be an existing directory: " ++ pathText path)

/-- Rejects existing targets so neither backup nor restore can silently replace operator data. -/
def assertMissing (faults : Faults) (path : Path) (label : String) : Action FileSystem PUnit := do
  let fs ← get
  check (require ((find? path fs).isNone = true) (label ++ " already exists: " ++ pathText path))
  mkdir faults path

/-- `destination.startsWith(source + sep)`. -/
def startsInside (source destination : Path) : Bool :=
  ((pathText source).toList ++ ['/']).isPrefixOf (pathText destination).toList

/-- Rejects a destination inside its source or backup, where recursive copying would be unsafe. -/
def assertSeparateDirectories (source destination : Path) : Except String Unit :=
  require (¬ (pathText source = pathText destination ∨ startsInside source destination = true ∨
      startsInside destination source = true))
    "Backup and destination directories must be separate, non-nested paths."

/-- Builds a staging path beside a final target so final publication is one rename operation. -/
def joinSibling (target : Path) (name : String) : Path :=
  target.dropLast ++ [name]

/-! ## Backup, verification and restoring -/

/-- Recomputes every manifest digest and rejects missing, extra, symlinked, or malformed backup content. -/
def verifyNodeBackup (host : BackupHost) (faults : Faults) (backupDirectory : Path) (fs : FileSystem) :
    Except String BackupVerification := do
  assertDirectory backupDirectory "backup directory" fs
  let manifest ← readManifest host faults backupDirectory fs
  let actualFiles ← inventoryFiles host faults backupDirectory [BACKUP_MANIFEST_FILE] fs
  let expected := manifest.files.foldl (fun map file ↦ upsert BackupFile.path file map) []
  require (expected.length = manifest.files.length) "Backup manifest contains duplicate file paths."
  require (actualFiles.length = expected.length)
    "Backup contents do not match the manifest file count."
  checkAll (fun actual : BackupFile ↦
    require ((lookup BackupFile.path actual.path expected).any (fun declared ↦
        declared.bytes = actual.bytes ∧ declared.sha256 = actual.sha256) = true)
      ("Backup file verification failed for " ++ actual.path ++ ".")) actualFiles
  pure ⟨manifest, backupDirectory⟩

/-- The parameters of a backup: `now` gives no text when the clock's date is invalid, and `uuid` is the random
identifier that is drawn. -/
structure CreateNodeBackupOptions where
  sourceDirectory : Path
  destinationDirectory : Path
  nodeStopped : Bool
  now : Option {text : String // Timestamp.isCanonical text = true}
  uuid : String

/-- Copies the source into the staging directory and writes the manifest of the copy. -/
def stageNodeBackup (host : BackupHost) (faults : Faults) (options : CreateNodeBackupOptions)
    (staging : Path) : Action FileSystem PUnit := do
  cp faults options.sourceDirectory staging fun _ ↦ true
  let fs ← get
  let files ← check (inventoryFiles host faults staging [] fs)
  let createdAt ← check (present options.now "Invalid time value")
  let manifest : NodeBackupManifest := ⟨createdAt.val, files⟩
  writeNew faults (staging ++ [BACKUP_MANIFEST_FILE]) manifest.data

/-- The name of the staging directory of a backup. -/
def CreateNodeBackupOptions.stagingName (options : CreateNodeBackupOptions) : String :=
  ".peer-hours-backup-" ++ options.uuid

/-- Everything that `createNodeBackup` does up to the rename that publishes the backup. -/
def publishNodeBackup (host : BackupHost) (faults : Faults) (options : CreateNodeBackupOptions) :
    Action FileSystem PUnit := do
  let destination := options.destinationDirectory
  check (requireStoppedNode options.nodeStopped)
  let fs ← get
  check (assertDirectory options.sourceDirectory "source directory" fs)
  check (assertSeparateDirectories options.sourceDirectory destination)
  assertMissing faults destination "backup destination"
  let staging := joinSibling destination options.stagingName
  assertMissing faults staging "backup staging directory"
  cleaningUp (rm faults staging) do
    stageNodeBackup host faults options staging
    rename faults staging destination

/-- Creates a complete directory snapshot and a SHA-256 verification manifest. -/
def createNodeBackup (host : BackupHost) (faults : Faults) (options : CreateNodeBackupOptions) :
    Action FileSystem BackupVerification := do
  publishNodeBackup host faults options
  let fs ← get
  check (verifyNodeBackup host faults options.destinationDirectory fs)

/-- Verifies a backup and confirms restoring it cannot overwrite an existing node data directory. -/
def preflightNodeRestore (host : BackupHost) (faults : Faults) (backupDirectory destination : Path) :
    Action FileSystem BackupVerification := do
  let fs ← get
  let verification ← check (verifyNodeBackup host faults backupDirectory fs)
  check (assertSeparateDirectories verification.backupDirectory destination)
  assertMissing faults destination "restore destination"
  pure verification

/-- The parameters of a restore, with the random identifier that is drawn. -/
structure RestoreNodeBackupOptions where
  backupDirectory : Path
  destinationDirectory : Path
  nodeStopped : Bool
  uuid : String

/-- The name of the staging directory of a restore. -/
def RestoreNodeBackupOptions.stagingName (options : RestoreNodeBackupOptions) : String :=
  ".peer-hours-restore-" ++ options.uuid

/-- Restores a verified backup into a new directory without touching a prior node data directory. -/
def restoreNodeBackup (host : BackupHost) (faults : Faults) (options : RestoreNodeBackupOptions) :
    Action FileSystem BackupVerification := do
  let destination := options.destinationDirectory
  check (requireStoppedNode options.nodeStopped)
  let verification ← preflightNodeRestore host faults options.backupDirectory destination
  let staging := joinSibling destination options.stagingName
  assertMissing faults staging "restore staging directory"
  cleaningUp (rm faults staging) do
    cp faults verification.backupDirectory staging fun path ↦ path ≠ [BACKUP_MANIFEST_FILE]
    rename faults staging destination
  pure verification

end PeerHours.Node

import PeerHours.Node.Backup

/-!
# Manifests of a backup

A manifest that was written is read back: the paths of an inventory are safe and tell its files apart, and the checks
of a manifest accept what an inventory finds.
-/

namespace PeerHours.Node

open Checked FileTree Json KeyedMap

/-! ## Paths in a manifest -/

/-- What may name an entry of a directory. -/
structure IsFileName (name : String) : Prop where
  nonempty : name ≠ ""
  current : name ≠ "."
  parent : name ≠ ".."
  separator : '/' ∉ name.toList

theorem splitOn_joinPath {path : Path} (hpath : ∀ name ∈ path, IsFileName name) (hne : path ≠ []) :
    (joinPath path).toList.splitOn '/' = path.map String.toList := by
  rw [joinPath, String.toList_ofList]
  refine List.splitOn_intercalate '/' (fun chars hchars ↦ ?_) (by simpa using hne)
  obtain ⟨name, hname, rfl⟩ := List.mem_map.mp hchars
  exact (hpath name hname).separator

@[simp] theorem joinPath_nil : joinPath [] = "" := rfl

@[simp] theorem joinPath_singleton (name : String) : joinPath [name] = name := by
  simp [joinPath]

theorem joinPath_ne_empty {path : Path} (hpath : ∀ name ∈ path, IsFileName name) (hne : path ≠ []) :
    joinPath path ≠ "" := by
  intro hempty
  have hsplit := splitOn_joinPath hpath hne
  rw [hempty] at hsplit
  cases path with
  | nil => exact hne rfl
  | cons name rest =>
      have hname : [] = name.toList := (List.cons.inj hsplit).1
      exact (hpath name List.mem_cons_self).nonempty (String.toList_eq_nil_iff.mp hname.symm)

/-- Paths of entries are told apart by their texts. -/
theorem joinPath_inj {left right : Path} (hleft : ∀ name ∈ left, IsFileName name)
    (hright : ∀ name ∈ right, IsFileName name) : joinPath left = joinPath right ↔ left = right := by
  refine ⟨fun h ↦ ?_, fun h ↦ h ▸ rfl⟩
  by_cases hleftNil : left = []
  · by_cases hrightNil : right = []
    · rw [hleftNil, hrightNil]
    · rw [hleftNil, joinPath_nil] at h
      exact absurd h.symm (joinPath_ne_empty hright hrightNil)
  · by_cases hrightNil : right = []
    · rw [hrightNil, joinPath_nil] at h
      exact absurd h (joinPath_ne_empty hleft hleftNil)
    · have hsplit := splitOn_joinPath hleft hleftNil
      rw [h, splitOn_joinPath hright hrightNil] at hsplit
      exact (List.map_injective_iff.mpr (fun _ _ ↦ String.toList_inj.mp) hsplit).symm

/-- The path of an entry is safe. -/
theorem isSafeBackupPath_joinPath {path : Path} (hpath : ∀ name ∈ path, IsFileName name)
    (hne : path ≠ []) : isSafeBackupPath (joinPath path) = true := by
  have hhead : (joinPath path).toList.head? ≠ some '/' := by
    intro hslash
    obtain ⟨rest, hrest⟩ := List.head?_eq_some_iff.mp hslash
    have hsplit := splitOn_joinPath hpath hne
    cases path with
    | nil => exact hne rfl
    | cons name others =>
        rw [hrest, ← List.nil_append ('/' :: rest), List.splitOn_append_cons_self_of_not_mem
          List.not_mem_nil] at hsplit
        have hname : [] = name.toList := (List.cons.inj hsplit).1
        exact (hpath name List.mem_cons_self).nonempty (String.toList_eq_nil_iff.mp hname.symm)
  have hsegments : (path.map String.toList).all (fun segment ↦
      segment ≠ [] && segment ≠ ['.'] && segment ≠ ['.', '.']) = true := by
    rw [List.all_map, List.all_eq_true]
    intro name hname
    have hfit := hpath name hname
    have hnil : name.toList ≠ [] := fun h ↦ hfit.nonempty (String.toList_eq_nil_iff.mp h)
    have hdot : name.toList ≠ ['.'] := fun h ↦ hfit.current (String.toList_inj.mp h)
    have hdots : name.toList ≠ ['.', '.'] := fun h ↦ hfit.parent (String.toList_inj.mp h)
    simp [hnil, hdot, hdots]
  rw [isSafeBackupPath, splitOn_joinPath hpath hne, hsegments]
  simp [joinPath_ne_empty hpath hne, hhead]

theorem isFileName_manifest : IsFileName BACKUP_MANIFEST_FILE := by
  constructor <;> decide

/-- Only the entry at the top of the tree is taken for the manifest. -/
theorem joinPath_eq_manifest {path : Path} (hpath : ∀ name ∈ path, IsFileName name) :
    joinPath path = BACKUP_MANIFEST_FILE ↔ path = [BACKUP_MANIFEST_FILE] := by
  rw [← joinPath_inj hpath (by simpa using isFileName_manifest), joinPath_singleton]

/-! ## Reading a manifest -/

/-- Text that was encoded is decoded. -/
theorem decodeUtf8_utf8 (host : BackupHost) (text : String) : decodeUtf8 host (utf8 text) = text := by
  have hbytes : (⟨(utf8 text).toArray⟩ : ByteArray) = text.toByteArray := by
    rw [utf8, Array.toArray_toList]
  rw [decodeUtf8, hbytes, String.fromUTF8?, dif_pos text.isValidUTF8]
  rfl

/-- What the checks of a manifest accept as a file. -/
structure BackupFile.Valid (file : BackupFile) : Prop where
  path : isSafeBackupPath file.path = true
  bytes : file.bytes ≤ 2 ^ 53 - 1
  length : file.sha256.toList.length = 64
  digits : file.sha256.toList.all Hex.isLower = true

/-- A file is read back. -/
theorem readBackupFile_toJson {file : BackupFile} (h : file.Valid) :
    readBackupFile file.toJson = .ok file := by
  have hbytes : (0 : Int) ≤ file.bytes ∧ (file.bytes : Int) ≤ 2 ^ 53 - 1 := by
    have hbound := h.bytes
    omega
  simp only [readBackupFile, bind_eq_ok, require_eq_ok, present_eq_ok, exists_const, pure_eq_ok]
  exact ⟨rfl, file.path, rfl, h.path, file.bytes, rfl, hbytes, file.sha256, rfl, ⟨h.length, h.digits⟩, rfl⟩

/-- What the checks of a manifest accept. -/
structure NodeBackupManifest.Valid (manifest : NodeBackupManifest) : Prop where
  createdAt : Timestamp.isCanonical manifest.createdAt = true
  files : ∀ file ∈ manifest.files, file.Valid

theorem wellFormed_manifest (manifest : NodeBackupManifest) : WellFormed manifest.toJson := by
  have hnames : plainNames ["schema", "createdAt", "files"] = true := by decide
  have hfileNames : plainNames ["path", "bytes", "sha256"] = true := by decide
  refine ⟨.of_plainNames hnames, trivial, trivial, ?_, trivial⟩
  show WellFormedItems (manifest.files.map BackupFile.toJson)
  rw [wellFormedItems_iff]
  intro item hitem
  obtain ⟨file, -, rfl⟩ := List.mem_map.mp hitem
  exact ⟨.of_plainNames hfileNames, trivial, trivial, trivial, trivial⟩

theorem checkManifest_toJson (host : BackupHost) {manifest : NodeBackupManifest} (h : manifest.Valid) :
    checkManifest host manifest.toJson = .ok manifest := by
  have hfiles : (manifest.files.map BackupFile.toJson).mapM readBackupFile = .ok manifest.files := by
    rw [mapM_eq_ok, List.forall₂_map_left_iff, List.forall₂_same]
    exact fun file hfile ↦ readBackupFile_toJson (h.files file hfile)
  simp only [checkManifest, bind_eq_ok, require_eq_ok, present_eq_ok, exists_const, pure_eq_ok]
  exact ⟨rfl, manifest.createdAt, rfl, _, rfl, by rw [h.createdAt, Bool.true_or], _, hfiles, rfl⟩

/-- A manifest file with the bytes of a manifest is read as that manifest. -/
theorem readManifest_of_data (host : BackupHost) {faults : Faults} {backupDirectory : Path}
    {fs : FileSystem} {manifest : NodeBackupManifest} (h : manifest.Valid)
    (hread : readFile faults (backupDirectory ++ [BACKUP_MANIFEST_FILE]) fs = .ok manifest.data) :
    readManifest host faults backupDirectory fs = .ok manifest := by
  have hparsed : parse (decodeUtf8 host manifest.data) = some manifest.toJson := by
    rw [NodeBackupManifest.data, decodeUtf8_utf8, parse_stringifyIndented (wellFormed_manifest manifest)]
  have hpresent : (readFile faults (backupDirectory ++ [BACKUP_MANIFEST_FILE]) fs).toOption.bind
      (fun data ↦ parse (decodeUtf8 host data)) = some manifest.toJson := by
    rw [hread, Except.toOption, Option.bind_some, hparsed]
  rw [readManifest, bind_eq_ok]
  exact ⟨manifest.toJson, present_eq_ok.mpr hpresent, checkManifest_toJson host h⟩

end PeerHours.Node

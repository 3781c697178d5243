import PeerHours.Node.BackupInventory

/-!
# Verifying a backup

A backup whose manifest is as it was written is accepted exactly when its files and their contents are those that the
manifest was made of, provided that SHA-256 tells the contents apart.
-/

namespace PeerHours.Node

open Checked FileTree KeyedMap

variable {host : BackupHost} {faults : Faults}

/-- The entry of an inventory for a regular file. -/
def backupFile (host : BackupHost) (path : Path) (contents : Buffer) : BackupFile :=
  ⟨joinPath path, contents.length, Hex.encode (host.crypto.sha256 contents)⟩

/-- The files are those of a tree, each of them once. -/
structure Inventory (host : BackupHost) (ignored : List String) (tree : FileSystem)
    (files : List BackupFile) : Prop where
  nodup : (files.map BackupFile.path).Nodup
  mem : ∀ file, file ∈ files ↔ ∃ (path : Path) (contents : Buffer),
    leaf? path tree = some (.file contents) ∧ joinPath path ∉ ignored ∧ file = backupFile host path contents
  takes : ∀ path leaf, leaf? path tree = some leaf → Takes ignored [] (path, leaf)

/-- What an inventory of a well named tree lists. -/
theorem inventory_of_visit (hreads : ∀ path, faults.read path = none) {root : Path}
    {ignored : List String} {tree : FileSystem} (hnamed : WellNamed IsFileName tree)
    {files : List BackupFile} (h : visit host faults root ignored [] tree = .ok files) :
    Inventory host ignored tree files := by
  have hperm := visit_perm [] tree h
  have htakes := (succeeds_visit hreads [] tree).mp ⟨files, h⟩
  have hleaf {path : Path} {leaf : FileSystem} :
      (path, leaf) ∈ leaves tree ↔ leaf? path tree = some leaf := mem_leaves tree hnamed
  have hpath {leaf : Path × FileSystem} (hmem : leaf ∈ leaves tree) : ∀ name ∈ leaf.1, IsFileName name :=
    (hnamed.of_find? (leaf?_eq_some.mp (hleaf.mp hmem)).1).1
  have hdescribe (leaf : Path × FileSystem) : (describe host [] leaf).path = joinPath leaf.1 := by
    unfold describe
    split <;> rfl
  refine ⟨?_, fun file ↦ ?_, fun path leaf hfound ↦ htakes _ (hleaf.mpr hfound)⟩
  · rw [(hperm.map BackupFile.path).nodup_iff, List.map_map]
    refine List.Nodup.map_on (fun left hleft right hright hsame ↦ ?_)
      ((nodup_leaves tree hnamed).of_map.filter _)
    have hleftMem := List.mem_of_mem_filter hleft
    have hrightMem := List.mem_of_mem_filter hright
    simp only [Function.comp, hdescribe] at hsame
    exact List.inj_on_of_nodup_map (nodup_leaves tree hnamed) hleftMem hrightMem
      ((joinPath_inj (hpath hleftMem) (hpath hrightMem)).mp hsame)
  · rw [hperm.mem_iff, List.mem_map]
    constructor
    · rintro ⟨⟨path, leaf⟩, hmem, rfl⟩
      obtain ⟨hlisted, hkept⟩ := List.mem_filter.mp hmem
      obtain ⟨contents, hcontents, -⟩ := htakes _ hlisted
      obtain rfl : leaf = .file contents := hcontents
      exact ⟨path, contents, hleaf.mp hlisted, of_decide_eq_true hkept, rfl⟩
    · rintro ⟨path, contents, hfound, hkept, rfl⟩
      exact ⟨(path, .file contents), List.mem_filter.mpr ⟨hleaf.mpr hfound, decide_eq_true hkept⟩, rfl⟩

/-- A tree of regular files has an inventory. -/
theorem exists_inventory (host : BackupHost) (hreads : ∀ path, faults.read path = none) (root : Path)
    (ignored : List String) {tree : FileSystem} (hnamed : WellNamed IsFileName tree)
    (htakes : ∀ path leaf, leaf? path tree = some leaf → Takes ignored [] (path, leaf)) :
    ∃ files, visit host faults root ignored [] tree = .ok files ∧ Inventory host ignored tree files := by
  obtain ⟨files, hfiles⟩ := (@succeeds_visit host faults root ignored hreads [] tree).mpr
    fun leaf hleaf ↦ htakes leaf.1 leaf.2 ((mem_leaves tree hnamed).mp hleaf)
  exact ⟨files, hfiles, inventory_of_visit hreads hnamed hfiles⟩

/-- SHA-256 tells the contents of two trees apart, file by file. -/
def DigestsDiffer (host : BackupHost) (left right : FileSystem) : Prop :=
  ∀ path contents others, leaf? path left = some (.file contents) →
    leaf? path right = some (.file others) → contents.length = others.length →
      host.crypto.sha256 contents = host.crypto.sha256 others → contents = others

variable {tree source now : FileSystem} {files actual : List BackupFile}

/-- A file of an inventory is found at its path, with contents of the same digest. -/
theorem Inventory.found {ignored : List String} (h : Inventory host ignored tree files)
    (hnamed : WellNamed IsFileName tree) {path : Path} (hpath : ∀ name ∈ path, IsFileName name)
    {contents : Buffer} (hmem : backupFile host path contents ∈ files) :
    ∃ others, leaf? path tree = some (.file others) ∧ contents.length = others.length ∧
      host.crypto.sha256 contents = host.crypto.sha256 others := by
  obtain ⟨other, others, hother, -, hsame⟩ := (h.mem _).mp hmem
  obtain ⟨hjoined, hlength, hdigest⟩ := BackupFile.mk.inj hsame
  have hnames := (hnamed.of_find? (leaf?_eq_some.mp hother).1).1
  obtain rfl := (joinPath_inj hpath hnames).mp hjoined
  exact ⟨others, hother, hlength, Hex.encode_inj.mp hdigest⟩

/-- A leaf that is not left out is a file of the inventory. -/
theorem Inventory.listed {ignored : List String} (h : Inventory host ignored tree files) {path : Path}
    {leaf : FileSystem} (hleaf : leaf? path tree = some leaf) (hkept : joinPath path ∉ ignored) :
    ∃ contents, leaf = .file contents ∧ backupFile host path contents ∈ files := by
  obtain ⟨contents, rfl, -⟩ := h.takes path leaf hleaf
  exact ⟨contents, rfl, (h.mem _).mpr ⟨path, contents, hleaf, hkept, rfl⟩⟩

/-- The leaves beside the manifest are the same exactly when the inventories list the same files. -/
theorem sameLeaves_iff (hsource : Inventory host [] source files)
    (hsourceNamed : WellNamed IsFileName source)
    (hnow : Inventory host [BACKUP_MANIFEST_FILE] now actual) (hnowNamed : WellNamed IsFileName now)
    (hfree : leaf? [BACKUP_MANIFEST_FILE] source = none) (hdigests : DigestsDiffer host source now) :
    (∀ file, file ∈ actual ↔ file ∈ files) ↔
      ∀ path, path ≠ [BACKUP_MANIFEST_FILE] → leaf? path now = leaf? path source := by
  have hkept {path : Path} (hpath : ∀ name ∈ path, IsFileName name) :
      joinPath path ∉ [BACKUP_MANIFEST_FILE] ↔ path ≠ [BACKUP_MANIFEST_FILE] := by
    rw [List.mem_singleton, not_iff_not, joinPath_eq_manifest hpath]
  constructor
  · intro hsame path hne
    refine Option.ext fun leaf ↦ ⟨fun hleaf ↦ ?_, fun hleaf ↦ ?_⟩
    · have hpath := (hnowNamed.of_find? (leaf?_eq_some.mp hleaf).1).1
      obtain ⟨contents, rfl, hmem⟩ := hnow.listed hleaf ((hkept hpath).mpr hne)
      obtain ⟨others, hothers, hlength, hdigest⟩ :=
        hsource.found hsourceNamed hpath ((hsame _).mp hmem)
      rw [hothers, hdigests path others contents hothers hleaf hlength.symm hdigest.symm]
    · have hpath := (hsourceNamed.of_find? (leaf?_eq_some.mp hleaf).1).1
      obtain ⟨contents, rfl, hmem⟩ := hsource.listed hleaf List.not_mem_nil
      obtain ⟨others, hothers, hlength, hdigest⟩ := hnow.found hnowNamed hpath ((hsame _).mpr hmem)
      rw [hothers, hdigests path contents others hleaf hothers hlength hdigest]
  · intro hsame file
    rw [hnow.mem, hsource.mem]
    constructor
    · rintro ⟨path, contents, hleaf, hkeptPath, rfl⟩
      have hpath := (hnowNamed.of_find? (leaf?_eq_some.mp hleaf).1).1
      rw [hsame path ((hkept hpath).mp hkeptPath)] at hleaf
      exact ⟨path, contents, hleaf, List.not_mem_nil, rfl⟩
    · rintro ⟨path, contents, hleaf, -, rfl⟩
      have hpath := (hsourceNamed.of_find? (leaf?_eq_some.mp hleaf).1).1
      have hne : path ≠ [BACKUP_MANIFEST_FILE] := by
        rintro rfl
        rw [hfree] at hleaf
        cases hleaf
      rw [← hsame path hne] at hleaf
      exact ⟨path, contents, hleaf, (hkept hpath).mpr hne, rfl⟩

/-- Setting distinct paths one after another sets each of them. -/
theorem foldl_upsert_files {map files : List BackupFile}
    (h : ((map ++ files).map BackupFile.path).Nodup) :
    files.foldl (fun map file ↦ upsert BackupFile.path file map) map = map ++ files := by
  induction files generalizing map with
  | nil => simp
  | cons file rest ih =>
      have hfresh : file.path ∉ map.map BackupFile.path := by
        rw [List.map_append, List.map_cons] at h
        exact fun hmem ↦ (List.nodup_append.mp h).2.2 _ hmem _ List.mem_cons_self rfl
      rw [List.foldl_cons, upsert_of_fresh hfresh, ih (by simpa using h), List.append_assoc,
        List.singleton_append]

/-- A backup with a readable manifest of distinct paths is accepted exactly when its inventory lists the files of the
manifest. -/
theorem verifyNodeBackup_eq_ok {backupDirectory : Path} {fs : FileSystem} {manifest : NodeBackupManifest}
    (hdirectory : (find? backupDirectory fs).any isDirectory = true)
    (hmanifest : readManifest host faults backupDirectory fs = .ok manifest)
    (hfiles : (manifest.files.map BackupFile.path).Nodup)
    (hnodup : ∀ actual, inventoryFiles host faults backupDirectory [BACKUP_MANIFEST_FILE] fs = .ok actual →
      (actual.map BackupFile.path).Nodup) {verification : BackupVerification} :
    verifyNodeBackup host faults backupDirectory fs = .ok verification ↔
      (∃ actual, inventoryFiles host faults backupDirectory [BACKUP_MANIFEST_FILE] fs = .ok actual ∧
        ∀ file, file ∈ actual ↔ file ∈ manifest.files) ∧ verification = ⟨manifest, backupDirectory⟩ := by
  have hexpected : manifest.files.foldl (fun map file ↦ upsert BackupFile.path file map) [] =
      manifest.files := foldl_upsert_files (by simpa using hfiles)
  have hdeclared (file : BackupFile) : (lookup BackupFile.path file.path manifest.files).any (fun declared ↦
      declared.bytes = file.bytes ∧ declared.sha256 = file.sha256) = true ↔ file ∈ manifest.files := by
    rw [Option.any_eq_true]
    constructor
    · rintro ⟨declared, hfound, hsame⟩
      obtain ⟨hmem, hpath⟩ := lookup_eq_some hfound
      obtain ⟨hbytes, hdigest⟩ := of_decide_eq_true hsame
      obtain rfl : declared = file := by
        cases declared
        cases file
        exact BackupFile.mk.injEq .. ▸ ⟨hpath, hbytes, hdigest⟩
      exact hmem
    · exact fun hmem ↦ ⟨file, lookup_of_mem hfiles hmem, decide_eq_true ⟨rfl, rfl⟩⟩
  simp only [verifyNodeBackup, assertDirectory, bind_eq_ok, require_eq_ok, exists_const, hdirectory,
    hmanifest, hexpected, checkAll_eq_ok, hdeclared, pure_eq_ok, true_and, Except.ok.injEq,
    exists_eq_left']
  constructor
  · rintro ⟨actual, hactual, hlength, hall, rfl⟩
    have hperm : actual.Perm manifest.files :=
      (List.subperm_of_subset (hnodup actual hactual).of_map hall).perm_of_length_le hlength.ge
    exact ⟨⟨actual, hactual, fun file ↦ hperm.mem_iff⟩, rfl⟩
  · rintro ⟨⟨actual, hactual, hsame⟩, rfl⟩
    have hperm : actual.Perm manifest.files :=
      (List.perm_ext_iff_of_nodup (hnodup actual hactual).of_map hfiles.of_map).mpr hsame
    exact ⟨actual, hactual, hperm.length_eq, fun file hfile ↦ (hsame file).mp hfile, rfl⟩

/-- What an inventory of a directory lists passes the checks of a manifest. -/
theorem Inventory.valid {entries : List (String × FileSystem)}
    (h : Inventory host [] (.directory entries) files)
    (hnamed : WellNamed IsFileName (.directory entries)) : ∀ file ∈ files, file.Valid := by
  intro file hfile
  obtain ⟨path, contents, hleaf, -, rfl⟩ := (h.mem file).mp hfile
  have hpath := (hnamed.of_find? (leaf?_eq_some.mp hleaf).1).1
  have hne : path ≠ [] := by
    rintro rfl
    cases hleaf
  obtain ⟨_, hcontents, hlength⟩ := h.takes path _ hleaf
  obtain rfl := FileTree.file.inj hcontents
  have hbound : contents.length ≤ maxReadBytes := hlength.resolve_left List.not_mem_nil
  have hdigest : (Hex.encode (host.crypto.sha256 contents)).toList.length = 64 := by
    rw [Hex.length_encode, host.crypto.length_sha256]
  refine ⟨isSafeBackupPath_joinPath hpath hne, ?_, hdigest, ?_⟩
  · unfold maxReadBytes at hbound
    show contents.length ≤ 2 ^ 53 - 1
    omega
  · exact List.all_eq_true.mpr fun c hc ↦ Hex.isLower_of_mem hc

theorem inventoryFiles_of_find {root : Path} {fs : FileSystem} {entries : List (String × FileSystem)}
    (h : find? root fs = some (.directory entries)) (ignored : List String) :
    inventoryFiles host faults root ignored fs = visit host faults root ignored [] (.directory entries) := by
  rw [inventoryFiles, h]

/-- A backup with the manifest of a source is accepted exactly when its other files are those of the source. -/
theorem succeeds_verifyNodeBackup_iff (hreads : ∀ path, faults.read path = none)
    {entries now : List (String × FileSystem)} {createdAt : String} {backupDirectory : Path}
    {fs : FileSystem} (hsource : Inventory host [] (.directory entries) files)
    (hsourceNamed : WellNamed IsFileName (.directory entries))
    (hfree : leaf? [BACKUP_MANIFEST_FILE] (.directory entries) = none)
    (hcreatedAt : Timestamp.isCanonical createdAt = true)
    (hsize : (NodeBackupManifest.mk createdAt files).data.length ≤ maxReadBytes)
    (hnow : find? backupDirectory fs = some (.directory now))
    (hnowNamed : WellNamed IsFileName (.directory now))
    (hmanifest : leaf? [BACKUP_MANIFEST_FILE] (.directory now) =
      some (.file (NodeBackupManifest.mk createdAt files).data))
    (hdigests : DigestsDiffer host (.directory entries) (.directory now)) :
    Succeeds (verifyNodeBackup host faults backupDirectory fs) ↔ ∀ path, path ≠ [BACKUP_MANIFEST_FILE] →
      leaf? path (.directory now) = leaf? path (.directory entries) := by
  have hfile : find? (backupDirectory ++ [BACKUP_MANIFEST_FILE]) fs =
      some (.file (NodeBackupManifest.mk createdAt files).data) := by
    rw [find?_append, hnow]
    exact (leaf?_eq_some.mp hmanifest).1
  have hread : readManifest host faults backupDirectory fs = .ok ⟨createdAt, files⟩ := by
    refine readManifest_of_data host ⟨hcreatedAt, hsource.valid hsourceNamed⟩ ?_
    rw [readFile, hfile]
    exact (readContents_eq_ok hreads).mpr ⟨hsize, rfl⟩
  have hinventory (actual : List BackupFile)
      (h : inventoryFiles host faults backupDirectory [BACKUP_MANIFEST_FILE] fs = .ok actual) :
      Inventory host [BACKUP_MANIFEST_FILE] (.directory now) actual := by
    rw [inventoryFiles_of_find hnow] at h
    exact inventory_of_visit hreads hnowNamed h
  have haccepted (verification : BackupVerification) := @verifyNodeBackup_eq_ok host faults backupDirectory
    fs _ (by rw [hnow]; rfl) hread hsource.nodup (fun actual h ↦ (hinventory actual h).nodup) verification
  constructor
  · rintro ⟨verification, hverified⟩
    obtain ⟨⟨actual, hactual, hsame⟩, -⟩ := (haccepted verification).mp hverified
    exact (sameLeaves_iff hsource hsourceNamed (hinventory actual hactual) hnowNamed hfree hdigests).mp hsame
  · intro hsame
    have htakes (path : Path) (leaf : FileSystem) (hleaf : leaf? path (.directory now) = some leaf) :
        Takes [BACKUP_MANIFEST_FILE] [] (path, leaf) := by
      by_cases hpath : path = [BACKUP_MANIFEST_FILE]
      · subst hpath
        cases hmanifest.symm.trans hleaf
        exact ⟨_, rfl, .inl (by simp)⟩
      · rw [hsame path hpath] at hleaf
        obtain ⟨contents, hcontents, hlength⟩ := hsource.takes path leaf hleaf
        exact ⟨contents, hcontents, .inr (hlength.resolve_left List.not_mem_nil)⟩
    obtain ⟨actual, hactual, hlisted⟩ :=
      exists_inventory host hreads backupDirectory [BACKUP_MANIFEST_FILE] hnowNamed htakes
    refine ⟨_, (haccepted _).mpr ⟨⟨actual, ?_, ?_⟩, rfl⟩⟩
    · rw [inventoryFiles_of_find hnow, hactual]
    · exact (sameLeaves_iff hsource hsourceNamed hlisted hnowNamed hfree hdigests).mpr hsame

end PeerHours.Node

import PeerHours.Identity.Transparent
import PeerHours.Node.BackupRuns

/-!
# Backup, verification and restore together

A tree of regular files without a top-level entry under the manifest's name is backed up, verified and restored as it
was, and a call that fails early leaves nothing behind at its destination.
-/

namespace PeerHours.Node

open Checked FileTree KeyedMap Stateful

variable {host : BackupHost} {entries : List (String × FileSystem)}

/-- A tree of regular files that `readFile` reads, with no top-level entry under the manifest's name. -/
structure BackupSource (entries : List (String × FileSystem)) : Prop where
  named : WellNamed IsFileName (.directory entries)
  regular : ∀ path leaf, leaf? path (.directory entries) = some leaf →
    ∃ contents, leaf = .file contents ∧ contents.length ≤ maxReadBytes
  free : BACKUP_MANIFEST_FILE ∉ entries.map Prod.fst

/-- The entries of a backup: those of its source and the manifest. -/
def backupEntries (entries : List (String × FileSystem)) (manifest : NodeBackupManifest) :
    List (String × FileSystem) :=
  entries ++ [(BACKUP_MANIFEST_FILE, .file manifest.data)]

theorem BackupSource.onlyFiles (h : BackupSource entries) : OnlyFiles (.directory entries) := by
  intro leaf hleaf
  obtain ⟨contents, hcontents, -⟩ := h.regular leaf.1 leaf.2 ((mem_leaves _ h.named).mp hleaf)
  exact ⟨contents, hcontents⟩

theorem BackupSource.takes (h : BackupSource entries) (path : Path) (leaf : FileSystem)
    (hleaf : leaf? path (.directory entries) = some leaf) : Takes [] [] (path, leaf) := by
  obtain ⟨contents, hcontents, hlength⟩ := h.regular path leaf hleaf
  exact ⟨contents, hcontents, .inr hlength⟩

theorem BackupSource.child?_manifest (h : BackupSource entries) :
    child? BACKUP_MANIFEST_FILE (.directory entries) = none := by
  rw [child?, Option.map_eq_none_iff, lookup_eq_none]
  exact fun entry hentry hname ↦ h.free (hname ▸ List.mem_map_of_mem hentry)

theorem BackupSource.leaf?_manifest (h : BackupSource entries) :
    leaf? [BACKUP_MANIFEST_FILE] (.directory entries) = none := by
  rw [leaf?_cons, h.child?_manifest]
  rfl

/-- A backup finds its manifest, and everything else as the source does. -/
theorem BackupSource.child?_backup (h : BackupSource entries) (manifest : NodeBackupManifest)
    (name : String) : child? name (.directory (backupEntries entries manifest)) =
      if BACKUP_MANIFEST_FILE = name then some (.file manifest.data) else child? name (.directory entries) := by
  rw [backupEntries, ← @upsert_of_fresh _ _ _ Prod.fst (BACKUP_MANIFEST_FILE, FileTree.file manifest.data) _ h.free]
  exact child?_upsert _ _ _ _

theorem BackupSource.leaf?_backup (h : BackupSource entries) (manifest : NodeBackupManifest) {path : Path}
    (hpath : path ≠ [BACKUP_MANIFEST_FILE]) :
    leaf? path (.directory (backupEntries entries manifest)) = leaf? path (.directory entries) := by
  cases path with
  | nil => rfl
  | cons name rest =>
      rw [leaf?_cons, leaf?_cons, h.child?_backup]
      split
      · rename_i hname
        subst hname
        rw [h.child?_manifest]
        cases rest with
        | nil => exact absurd rfl hpath
        | cons => rfl
      · rfl

theorem BackupSource.leaf?_backup_manifest (h : BackupSource entries) (manifest : NodeBackupManifest) :
    leaf? [BACKUP_MANIFEST_FILE] (.directory (backupEntries entries manifest)) =
      some (.file manifest.data) := by
  rw [leaf?_cons, h.child?_backup, if_pos rfl]
  rfl

theorem BackupSource.named_backup (h : BackupSource entries) (manifest : NodeBackupManifest) :
    WellNamed IsFileName (.directory (backupEntries entries manifest)) := by
  refine ⟨?_, wellNamedEntries_iff.mpr fun entry hentry ↦ ?_⟩
  · rw [backupEntries, List.map_append, List.nodup_append]
    refine ⟨h.named.1, List.nodup_singleton _, fun name hname other hother hsame ↦ ?_⟩
    obtain rfl := List.mem_singleton.mp hother
    have hmanifest : name = BACKUP_MANIFEST_FILE := hsame
    exact h.free (hmanifest ▸ hname)
  · rcases List.mem_append.mp hentry with hsource | hmanifest
    · exact wellNamedEntries_iff.mp h.named.2 entry hsource
    · obtain rfl := List.mem_singleton.mp hmanifest
      exact ⟨isFileName_manifest, trivial⟩

/-- Leaving the manifest out of a backup gives the entries of its source. -/
theorem BackupSource.without_manifest (h : BackupSource entries) (manifest : NodeBackupManifest) :
    (backupEntries entries manifest).filter (fun entry ↦ entry.1 ≠ BACKUP_MANIFEST_FILE) = entries := by
  rw [backupEntries, List.filter_append, List.filter_eq_self.mpr, List.filter_singleton]
  · simp
  · exact fun entry hentry ↦ decide_eq_true fun hname ↦ h.free (hname ▸ List.mem_map_of_mem hentry)

/-- A backup that stands as it was made is accepted. -/
theorem BackupSource.verified (h : BackupSource entries) {manifest : NodeBackupManifest}
    (hinventory : Inventory host [] (.directory entries) manifest.files)
    (hcreatedAt : Timestamp.isCanonical manifest.createdAt = true)
    (hsize : manifest.data.length ≤ maxReadBytes) {backupDirectory : Path} {fs : FileSystem}
    (hfound : find? backupDirectory fs = some (.directory (backupEntries entries manifest))) :
    Succeeds (verifyNodeBackup host .absent backupDirectory fs) := by
  have hdigests : DigestsDiffer host (.directory entries) (.directory (backupEntries entries manifest)) := by
    intro path contents others hcontents hothers _ _
    by_cases hpath : path = [BACKUP_MANIFEST_FILE]
    · rw [hpath, h.leaf?_manifest] at hcontents
      cases hcontents
    · rw [h.leaf?_backup manifest hpath, hcontents] at hothers
      exact FileTree.file.inj (Option.some.inj hothers)
  exact (succeeds_verifyNodeBackup_iff Faults.read_absent hinventory h.named h.leaf?_manifest hcreatedAt hsize
    hfound (h.named_backup manifest) (h.leaf?_backup_manifest manifest) hdigests).mpr
      fun _ hpath ↦ h.leaf?_backup manifest hpath

/-! ## Calls that do their work -/

/-- A directory beside which there is room for a copy: its destination and the staging directory are missing, and
the directory of the destination stands or can be made. -/
structure Transferable (fs : FileSystem) (source destination : Path) (stagingName : String)
    (entries : List (String × FileSystem)) : Prop where
  here : find? source fs = some (.directory entries)
  below : source ≠ []
  separate : assertSeparateDirectories source destination = .ok ()
  fresh : find? destination fs = none
  unused : find? (joinSibling destination stagingName) fs = none
  drawn : joinSibling destination stagingName ≠ destination
  makeable : ∃ made, mkdirs destination.dropLast fs = some made

/-- A file system in which the copy can be staged. -/
structure Prepared (fs : FileSystem) (source parent : Path) (destination staging : String)
    (entries : List (String × FileSystem)) : Prop where
  here : find? source fs = some (.directory entries)
  outside : ¬ source <+: parent ++ [staging]
  fresh : find? (parent ++ [destination]) fs = none
  unused : find? (parent ++ [staging]) fs = none
  made : ∃ others, find? parent fs = some (.directory others)
  drawn : staging ≠ destination

variable {fs : FileSystem} {source parent : Path} {destination staging : String}

/-- Both targets are found missing, and directories are made for them. -/
theorem Transferable.prepare (h : Transferable fs source (parent ++ [destination]) staging entries) :
    ∃ made reached, (∀ label, outcome (assertMissing .absent (parent ++ [destination]) label) fs = (.ok ⟨⟩, made)) ∧
      (∀ label, outcome (assertMissing .absent (parent ++ [staging]) label) made = (.ok ⟨⟩, reached)) ∧
      Prepared reached source parent destination staging entries := by
  obtain ⟨hsource, hroot, hseparate, hdestination, hstaging, hdrawn, made, hmade⟩ := h
  rw [joinSibling, List.dropLast_concat] at hstaging hdrawn
  rw [List.dropLast_concat] at hmade
  obtain ⟨others, hothers⟩ := find?_mkdirs hmade
  obtain ⟨reached, hreached⟩ := exists_mkdirs_of_find? hothers
  have honly : OnlyDirectories parent fs reached :=
    (onlyDirectories_mkdirs (List.prefix_refl _) hmade).trans
      (onlyDirectories_mkdirs (List.prefix_refl _) hreached)
  have hbelow (name : String) : ¬ parent ++ [name] <+: parent := by
    simpa using @not_prefix_dropLast (parent ++ [name]) (by simp)
  have houtside : ¬ source <+: parent := fun hstarts ↦
    hroot (eq_nil_of_separate hseparate (hstarts.trans (List.prefix_append _ _)))
  have hstagingMade : find? (parent ++ [staging]) made = none := by
    rw [find?_mkdirs_beside hmade (hbelow staging), hstaging]
  refine ⟨made, reached, fun _ ↦ outcome_assertMissing hdestination (by rwa [List.dropLast_concat]),
    fun _ ↦ outcome_assertMissing hstagingMade (by rwa [List.dropLast_concat]), ?_⟩
  refine ⟨by rw [honly.beside _ houtside, hsource], fun hstarts ↦ ?_,
    by rw [honly.beside _ (hbelow _), hdestination], by rw [honly.beside _ (hbelow _), hstaging],
    find?_mkdirs hreached, fun hsame ↦ hdrawn (by rw [hsame])⟩
  rcases List.prefix_concat_iff.mp hstarts with rfl | hparent
  · rw [hstaging] at hsource
    cases hsource
  · exact houtside hparent

/-- A staged copy is found at the destination once it was renamed. -/
theorem Prepared.publish (h : Prepared fs source parent destination staging entries) {middle entry : FileSystem}
    (honly : OnlyEntry parent staging fs middle)
    (hentry : find? (parent ++ [staging]) middle = some entry) :
    ∃ after, outcome (rename .absent (parent ++ [staging]) (parent ++ [destination])) middle = (.ok ⟨⟩, after) ∧
      find? (parent ++ [destination]) after = some entry := by
  have hbelow : ¬ parent ++ [destination] <+: parent := by
    simpa using @not_prefix_dropLast (parent ++ [destination]) (by simp)
  have hmissing : find? (parent ++ [destination]) middle = none := by
    rw [honly.beside _ ?_ hbelow, h.fresh]
    rw [List.prefix_append_right_inj]
    simpa using h.drawn
  obtain ⟨others, hothers⟩ := honly.discard.directory
  exact ⟨_, outcome_rename hentry hmissing, find?_place hothers entry⟩

/-- The staged backup holds the source's entries and the manifest. -/
theorem Prepared.stage (h : Prepared fs source parent destination staging entries)
    (hentries : BackupSource entries) {options : CreateNodeBackupOptions}
    (hsource : options.sourceDirectory = source)
    {now : {text : String // Timestamp.isCanonical text = true}} (hnow : options.now = some now)
    {files : List BackupFile}
    (hfiles : visit host .absent (parent ++ [staging]) [] [] (.directory entries) = .ok files) :
    ∃ middle, outcome (stageNodeBackup host .absent options (parent ++ [staging])) fs = (.ok ⟨⟩, middle) ∧
      OnlyEntry parent staging fs middle ∧
      find? (parent ++ [staging]) middle = some (.directory (backupEntries entries ⟨now.val, files⟩)) := by
  obtain ⟨others, hothers⟩ := h.made
  have hcopy : copied (fun _ ↦ true) [] (.directory entries) = .ok (.directory entries) :=
    copied_eq_self [] _ (fun _ _ ↦ rfl) hentries.onlyFiles
  have hplaced := @find?_place parent staging _ _ hothers (.directory entries)
  have honly := (@OnlyEntry.refl parent staging fs others hothers).place (.directory entries)
  have hinventory := (inventoryFiles_of_find hplaced []).trans hfiles
  have hmissing : find? (parent ++ [staging] ++ [BACKUP_MANIFEST_FILE])
      (place (parent ++ [staging]) (.directory entries) fs) = none := by
    rw [find?_append, hplaced]
    show (child? BACKUP_MANIFEST_FILE (.directory entries)).bind _ = none
    rw [hentries.child?_manifest]
    rfl
  refine ⟨_, ?_, honly.placeBelow BACKUP_MANIFEST_FILE (.file (NodeBackupManifest.mk now.val files).data), ?_⟩
  · unfold stageNodeBackup
    rw [hsource, outcome_bind (outcome_cp h.outside h.here hcopy), outcome_get_bind,
      outcome_check_bind hinventory, outcome_check_bind (present_eq_ok.mpr hnow)]
    exact outcome_writeNew hmissing
  · rw [place_concat, find?_update_self, hplaced, Option.map_some, FileTree.insert, upsert_of_fresh hentries.free]
    rfl

/-- The manifest of the tree is not too large for `readFile`. -/
def ManifestFits (host : BackupHost) (entries : List (String × FileSystem)) (createdAt : String) : Prop :=
  ∀ root files, visit host .absent root [] [] (.directory entries) = .ok files →
    (NodeBackupManifest.mk createdAt files).data.length ≤ maxReadBytes

/-- A backup is published and accepted. -/
theorem outcome_createNodeBackup (hentries : BackupSource entries) {options : CreateNodeBackupOptions}
    (hstopped : options.nodeStopped = true) {now : {text : String // Timestamp.isCanonical text = true}}
    (hnow : options.now = some now) (hfits : ManifestFits host entries now.val)
    (h : Transferable fs options.sourceDirectory options.destinationDirectory options.stagingName entries) :
    ∃ manifest verification after,
      outcome (createNodeBackup host .absent options) fs = (.ok verification, after) ∧
      manifest.createdAt = now.val ∧ Inventory host [] (.directory entries) manifest.files ∧
      manifest.data.length ≤ maxReadBytes ∧
      find? options.destinationDirectory after = some (.directory (backupEntries entries manifest)) := by
  obtain ⟨parent, name, hname⟩ : ∃ parent name, options.destinationDirectory = parent ++ [name] :=
    ⟨_, _, (List.dropLast_append_getLast (ne_nil_of_missing h.fresh)).symm⟩
  have hstoppedNode : requireStoppedNode options.nodeStopped = .ok () := require_eq_ok.mpr hstopped
  have hsource : assertDirectory options.sourceDirectory "source directory" fs = .ok () :=
    require_eq_ok.mpr (by rw [h.here]; rfl)
  have hseparate := h.separate
  rw [hname] at h hseparate
  obtain ⟨made, reached, hmissing, hunused, hprepared⟩ := h.prepare
  obtain ⟨files, hfiles, hinventory⟩ := exists_inventory host Faults.read_absent
    (parent ++ [options.stagingName]) [] hentries.named hentries.takes
  obtain ⟨middle, hstaged, honly, hfound⟩ := hprepared.stage hentries rfl hnow hfiles
  obtain ⟨after, hrenamed, hpublished⟩ := hprepared.publish honly hfound
  have hpublish : outcome (publishNodeBackup host .absent options) fs = (.ok ⟨⟩, after) := by
    have hpath : joinSibling (parent ++ [name]) options.stagingName = parent ++ [options.stagingName] := by
      rw [joinSibling, List.dropLast_concat]
    unfold publishNodeBackup
    dsimp only
    rw [hname, hpath,
      outcome_check_bind hstoppedNode, outcome_get_bind, outcome_check_bind hsource,
      outcome_check_bind hseparate, outcome_bind (hmissing _), outcome_bind (hunused _)]
    refine outcome_cleaningUp ?_
    rw [outcome_bind hstaged, hrenamed]
  have hsize := hfits _ files hfiles
  obtain ⟨verification, hverified⟩ :=
    @BackupSource.verified host _ hentries ⟨now.val, files⟩ hinventory now.property hsize _ _ hpublished
  refine ⟨⟨now.val, files⟩, verification, after, ?_, rfl, hinventory, hsize, by rw [hname, hpublished]⟩
  unfold createNodeBackup
  rw [outcome_bind hpublish, outcome_get_bind, hname, hverified]
  rfl

/-- A backup of a source is restored as the source. -/
theorem outcome_restoreNodeBackup (hentries : BackupSource entries) {manifest : NodeBackupManifest}
    {options : RestoreNodeBackupOptions} (hstopped : options.nodeStopped = true)
    {verification : BackupVerification}
    (hverified : verifyNodeBackup host .absent options.backupDirectory fs = .ok verification)
    (h : Transferable fs options.backupDirectory options.destinationDirectory options.stagingName
      (backupEntries entries manifest)) :
    ∃ after, outcome (restoreNodeBackup host .absent options) fs = (.ok verification, after) ∧
      find? options.destinationDirectory after = some (.directory entries) := by
  obtain ⟨parent, name, hname⟩ : ∃ parent name, options.destinationDirectory = parent ++ [name] :=
    ⟨_, _, (List.dropLast_append_getLast (ne_nil_of_missing h.fresh)).symm⟩
  have hstoppedNode : requireStoppedNode options.nodeStopped = .ok () := require_eq_ok.mpr hstopped
  have hdirectory := (verifyNodeBackup_directory hverified).2
  have hseparate := h.separate
  rw [hname] at h hseparate
  obtain ⟨made, reached, hmissing, hunused, hprepared⟩ := h.prepare
  obtain ⟨others, hothers⟩ := hprepared.made
  have hfiles : OnlyFiles (.directory (backupEntries entries manifest)) := by
    refine fun leaf hleaf ↦ ?_
    have hfound : leaf? leaf.1 (.directory (backupEntries entries manifest)) = some leaf.2 :=
      (mem_leaves _ (hentries.named_backup manifest)).mp hleaf
    by_cases hpath : leaf.1 = [BACKUP_MANIFEST_FILE]
    · rw [hpath, hentries.leaf?_backup_manifest] at hfound
      exact ⟨_, (Option.some.inj hfound).symm⟩
    · rw [hentries.leaf?_backup manifest hpath] at hfound
      obtain ⟨contents, hcontents, -⟩ := hentries.regular _ _ hfound
      exact ⟨contents, hcontents⟩
  have hcopy : copied (fun path ↦ path ≠ [BACKUP_MANIFEST_FILE]) []
      (.directory (backupEntries entries manifest)) = .ok (.directory entries) := by
    rw [copied, copiedEntries_without _ hfiles, hentries.without_manifest]
    rfl
  have hplaced := @find?_place parent options.stagingName _ _ hothers (.directory entries)
  have honly := (@OnlyEntry.refl parent options.stagingName reached others hothers).place (.directory entries)
  obtain ⟨after, hrenamed, hpublished⟩ := hprepared.publish honly hplaced
  have hpath : joinSibling (parent ++ [name]) options.stagingName = parent ++ [options.stagingName] := by
    rw [joinSibling, List.dropLast_concat]
  have hattempt : outcome (do
      cp .absent options.backupDirectory (parent ++ [options.stagingName]) fun path ↦ path ≠ [BACKUP_MANIFEST_FILE]
      rename .absent (parent ++ [options.stagingName]) (parent ++ [name])) reached = (.ok ⟨⟩, after) := by
    rw [outcome_bind (outcome_cp hprepared.outside hprepared.here hcopy), hrenamed]
  refine ⟨after, ?_, by rw [hname, hpublished]⟩
  unfold restoreNodeBackup preflightNodeRestore
  simp only [bind_assoc, pure_bind]
  rw [hname, hpath, outcome_check_bind hstoppedNode, outcome_get_bind, outcome_check_bind hverified,
    hdirectory, outcome_check_bind hseparate, outcome_bind (hmissing _), outcome_bind (hunused _),
    outcome_bind (outcome_cleaningUp hattempt)]
  rfl

/-- An attempt stops where its staging stops. -/
theorem ensures_attempt_stops {faults : Faults} {body : Action FileSystem PUnit} {before middle : FileSystem}
    {message : String} (h : outcome body before = (.error message, middle)) (staging destination : Path) :
    Ensures (cleaningUp (rm faults staging) do
        body
        rename faults staging destination) before fun result _ ↦ ∃ message, result = .error message := by
  rw [ensures_cleaningUp]
  unfold Ensures
  rw [outcome_bind_error h]
  show Ensures (rm faults staging >>= fun _ ↦ throw message : Action FileSystem PUnit) middle
    fun result _ ↦ ∃ message, result = .error message
  rw [ensures_bind]
  unfold Ensures
  cases (outcome (rm faults staging) middle).1 with
  | error other => exact ⟨other, rfl⟩
  | ok => exact ⟨message, rfl⟩

/-- A file that `readFile` does not read is not backed up. -/
theorem createNodeBackup_stops_of_large {options : CreateNodeBackupOptions}
    (h : Transferable fs options.sourceDirectory options.destinationDirectory options.stagingName entries)
    (hnamed : WellNamed IsFileName (.directory entries)) (hfiles : OnlyFiles (.directory entries))
    {path : Path} {contents : Buffer} (hleaf : leaf? path (.directory entries) = some (.file contents))
    (hlarge : maxReadBytes < contents.length) :
    ∃ message, (outcome (createNodeBackup host .absent options) fs).1 = .error message := by
  obtain ⟨parent, name, hname⟩ : ∃ parent name, options.destinationDirectory = parent ++ [name] :=
    ⟨_, _, (List.dropLast_append_getLast (ne_nil_of_missing h.fresh)).symm⟩
  rw [hname] at h
  obtain ⟨made, reached, hmissing, hunused, hprepared⟩ := h.prepare
  obtain ⟨others, hothers⟩ := hprepared.made
  have hcopy := @copied_eq_self (fun _ ↦ true) [] _ (fun _ _ ↦ rfl) hfiles
  have hplaced := @find?_place parent options.stagingName _ _ hothers (.directory entries)
  have hstops : ∃ message, visit host .absent (parent ++ [options.stagingName]) [] [] (.directory entries) =
      .error message := by
    cases hvisit : visit host .absent (parent ++ [options.stagingName]) [] [] (.directory entries) with
    | error message => exact ⟨message, rfl⟩
    | ok files =>
        have hall := (succeeds_visit Faults.read_absent [] _).mp ⟨files, hvisit⟩
        obtain ⟨_, hsame, hlength⟩ := hall _ ((mem_leaves _ hnamed).mpr hleaf)
        obtain rfl := FileTree.file.inj hsame
        exact absurd (hlength.resolve_left List.not_mem_nil) (Nat.not_le.mpr hlarge)
  obtain ⟨message, hmessage⟩ := hstops
  have hstage : outcome (stageNodeBackup host .absent options (parent ++ [options.stagingName])) reached =
      (.error message, place (parent ++ [options.stagingName]) (.directory entries) reached) := by
    unfold stageNodeBackup
    rw [outcome_bind (outcome_cp hprepared.outside hprepared.here hcopy), outcome_get_bind,
      inventoryFiles_of_find hplaced, hmessage]
    rfl
  have hpath : joinSibling (parent ++ [name]) options.stagingName = parent ++ [options.stagingName] := by
    rw [joinSibling, List.dropLast_concat]
  have hpublish : Ensures (publishNodeBackup host .absent options) fs
      fun result _ ↦ ∃ message, result = .error message := by
    unfold publishNodeBackup
    dsimp only
    rw [hname, hpath]
    refine Ensures.check_bind (fun message ↦ ⟨message, rfl⟩) fun _ _ ↦ ?_
    rw [ensures_get_bind]
    refine Ensures.check_bind (fun message ↦ ⟨message, rfl⟩) fun _ _ ↦ ?_
    refine Ensures.check_bind (fun message ↦ ⟨message, rfl⟩) fun _ _ ↦ ?_
    unfold Ensures
    rw [outcome_bind (hmissing _), outcome_bind (hunused _)]
    exact ensures_attempt_stops hstage _ _
  obtain ⟨stopped, hstopped⟩ := hpublish
  exact ⟨stopped, congrArg Prod.fst (outcome_bind_error (Prod.ext hstopped rfl))⟩

/-! ## Faithful backups -/

/-- What backup, verification and restore do together. Where nothing fails, a tree of regular files that `readFile`
reads, with no top-level entry under the manifest's name, is backed up without a change to it; the backup is accepted
as long as its manifest is the one that was written exactly when its other files are those of the source; and it is
restored as the source. Whatever fails, a backup that stops before it is published and a restore that stops leave the
destination as it was, and the files of what they copy. -/
structure FaithfulBackup (host : BackupHost) : Prop where
  roundTrip : ∀ (fs : FileSystem) (entries : List (String × FileSystem)) (options : CreateNodeBackupOptions)
    (now : {text : String // Timestamp.isCanonical text = true}), BackupSource entries →
    options.nodeStopped = true → options.now = some now → ManifestFits host entries now.val →
    Transferable fs options.sourceDirectory options.destinationDirectory options.stagingName entries →
    ∃ manifest verification after,
      outcome (createNodeBackup host .absent options) fs = (.ok verification, after) ∧
      find? options.destinationDirectory after = some (.directory (backupEntries entries manifest)) ∧
      (∀ (later : FileSystem) (found : List (String × FileSystem)),
        find? options.destinationDirectory later = some (.directory found) →
        WellNamed IsFileName (.directory found) →
        leaf? [BACKUP_MANIFEST_FILE] (.directory found) = some (.file manifest.data) →
        DigestsDiffer host (.directory entries) (.directory found) →
        (Succeeds (verifyNodeBackup host .absent options.destinationDirectory later) ↔
          ∀ path, path ≠ [BACKUP_MANIFEST_FILE] →
            leaf? path (.directory found) = leaf? path (.directory entries))) ∧
      ∀ (later : FileSystem) (restore : RestoreNodeBackupOptions),
        restore.backupDirectory = options.destinationDirectory → restore.nodeStopped = true →
        Transferable later restore.backupDirectory restore.destinationDirectory restore.stagingName
          (backupEntries entries manifest) →
        ∃ restored verification,
          outcome (restoreNodeBackup host .absent restore) later = (.ok verification, restored) ∧
          find? restore.destinationDirectory restored = some (.directory entries)
  createStopped : ∀ (faults : Faults) (fs after : FileSystem) (options : CreateNodeBackupOptions)
    (message : String),
    joinSibling options.destinationDirectory options.stagingName ≠ options.destinationDirectory →
    outcome (publishNodeBackup host faults options) fs = (.error message, after) →
    outcome (createNodeBackup host faults options) fs = (.error message, after) ∧
      find? options.destinationDirectory after = find? options.destinationDirectory fs ∧
      ∀ path, leaf? (options.sourceDirectory ++ path) after = leaf? (options.sourceDirectory ++ path) fs
  restoreStopped : ∀ (faults : Faults) (fs after : FileSystem) (options : RestoreNodeBackupOptions)
    (message : String),
    joinSibling options.destinationDirectory options.stagingName ≠ options.destinationDirectory →
    outcome (restoreNodeBackup host faults options) fs = (.error message, after) →
    find? options.destinationDirectory after = find? options.destinationDirectory fs ∧
      ∀ path, leaf? (options.backupDirectory ++ path) after = leaf? (options.backupDirectory ++ path) fs

/-- Backup and restore are faithful, on every host. -/
theorem node_backup_faithful (host : BackupHost) : FaithfulBackup host where
  roundTrip fs entries options now hentries hstopped hnow hfits htransfer := by
    obtain ⟨manifest, verification, after, hcreated, hcreatedAt, hinventory, hsize, hfound⟩ :=
      outcome_createNodeBackup hentries hstopped hnow hfits htransfer
    have hcanonical : Timestamp.isCanonical manifest.createdAt = true := hcreatedAt ▸ now.property
    refine ⟨manifest, verification, after, hcreated, hfound, fun later found hlater hnamed hmanifest hdigests ↦ ?_,
      fun later restore hbackup hrestoreStopped hready ↦ ?_⟩
    · exact succeeds_verifyNodeBackup_iff Faults.read_absent hinventory hentries.named hentries.leaf?_manifest
        hcanonical hsize hlater hnamed hmanifest hdigests
    · obtain ⟨accepted, haccepted⟩ := hentries.verified hinventory hcanonical hsize hready.here
      obtain ⟨restored, hrestored, hentriesRestored⟩ :=
        outcome_restoreNodeBackup hentries hrestoreStopped haccepted hready
      exact ⟨restored, accepted, hrestored, hentriesRestored⟩
  createStopped faults fs after options message hdrawn hpublish := by
    have hkeeps := @ensures_publishNodeBackup host faults options fs hdrawn
    unfold Ensures at hkeeps
    rw [hpublish] at hkeeps
    exact ⟨outcome_bind_error hpublish, hkeeps.destination ⟨message, rfl⟩, hkeeps.source⟩
  restoreStopped faults fs after options message hdrawn hrestore := by
    have hkeeps := @ensures_restoreNodeBackup host faults options fs hdrawn
    unfold Ensures at hkeeps
    rw [hrestore] at hkeeps
    exact ⟨hkeeps.destination ⟨message, rfl⟩, hkeeps.source⟩

namespace Yard

/-- A host with transparent digests. -/
def yardHost : BackupHost :=
  ⟨transparentCrypto, fun _ _ ↦ .eq, fun _ ↦ false, fun _ ↦ ""⟩

/-- A disk with the data directory of a node. -/
def disk (entries : List (String × FileSystem)) : FileSystem :=
  .directory [("data", .directory entries)]

/-- A backup of the data directory. -/
def options : CreateNodeBackupOptions :=
  ⟨["data"], ["backups", "daily"], true, some ⟨"2026-07-18T12:00:00.000Z", by decide⟩, "1"⟩

/-- A data directory, with a file below it under the manifest's name. -/
def dataEntries : List (String × FileSystem) :=
  [("CORESTORE", .file [1, 2]), ("db", .directory [(BACKUP_MANIFEST_FILE, .file [])])]

theorem transferable (entries : List (String × FileSystem)) :
    Transferable (disk entries) options.sourceDirectory options.destinationDirectory options.stagingName
      entries where
  here := rfl
  below := List.cons_ne_nil _ _
  separate := rfl
  fresh := rfl
  unused := rfl
  drawn := by decide
  makeable := ⟨_, rfl⟩

theorem wellNamed_dataEntries : WellNamed IsFileName (.directory dataEntries) := by
  have hcore : IsFileName "CORESTORE" := by constructor <;> decide
  have hdb : IsFileName "db" := by constructor <;> decide
  exact ⟨by decide, hcore, trivial, hdb, ⟨by decide, isFileName_manifest, trivial, trivial⟩, trivial⟩

/-- The data directory may be backed up. -/
theorem backupSource_dataEntries : BackupSource dataEntries where
  named := wellNamed_dataEntries
  regular path leaf hleaf := by
    have hmem := (mem_leaves _ wellNamed_dataEntries).mpr hleaf
    rcases List.mem_cons.mp hmem with hcore | hrest
    · obtain ⟨rfl, rfl⟩ := Prod.mk.inj hcore
      exact ⟨[1, 2], rfl, by decide⟩
    · obtain ⟨rfl, rfl⟩ := Prod.mk.inj (List.mem_singleton.mp hrest)
      exact ⟨[], rfl, by decide⟩
  free := by decide

/-- The manifest of the data directory is small. -/
theorem manifestFits_dataEntries : ManifestFits yardHost dataEntries "2026-07-18T12:00:00.000Z" := by
  intro root files hfiles
  have hvisit : visit yardHost .absent root [] [] (.directory dataEntries) =
      .ok [⟨"CORESTORE", 2, Hex.encode (transparentCrypto.sha256 [1, 2])⟩,
        ⟨"db/peer-hours-node-backup.json", 0, Hex.encode (transparentCrypto.sha256 [])⟩] := rfl
  obtain rfl := Except.ok.inj (hvisit.symm.trans hfiles)
  decide +kernel

/-- A disk on which the destination of the backup stands already, as a directory without a manifest. -/
def occupiedDisk : FileSystem :=
  .directory [("data", .directory []), ("backups", .directory [("daily", .directory [])])]

/-- Another disk, to which the backup was copied. -/
def replacementDisk (manifest : NodeBackupManifest) : FileSystem :=
  .directory [("backups", .directory [("daily", .directory (backupEntries dataEntries manifest))])]

/-- A restore from that disk. -/
def restoreOptions : RestoreNodeBackupOptions :=
  ⟨["backups", "daily"], ["data"], true, "2"⟩

theorem transferable_replacementDisk (manifest : NodeBackupManifest) :
    Transferable (replacementDisk manifest) restoreOptions.backupDirectory
      restoreOptions.destinationDirectory restoreOptions.stagingName (backupEntries dataEntries manifest) where
  here := rfl
  below := List.cons_ne_nil _ _
  separate := rfl
  fresh := rfl
  unused := rfl
  drawn := by decide
  makeable := ⟨_, rfl⟩

/-- The data directory is backed up and restored on another disk, and a backup and a restore that stop leave what
stood. -/
theorem node_backup_faithful_yard :
    (∃ manifest verification after restored accepted,
      outcome (createNodeBackup yardHost .absent options) (disk dataEntries) = (.ok verification, after) ∧
      find? ["backups", "daily"] after = some (.directory (backupEntries dataEntries manifest)) ∧
      outcome (restoreNodeBackup yardHost .absent restoreOptions) (replacementDisk manifest) =
        (.ok accepted, restored) ∧
      find? ["data"] restored = some (.directory dataEntries)) ∧
    (∃ message stopped,
      outcome (createNodeBackup yardHost .absent options) occupiedDisk = (.error message, stopped) ∧
      find? ["backups", "daily"] stopped = some (.directory [])) ∧
    ∃ message stopped,
      outcome (restoreNodeBackup yardHost .absent restoreOptions) occupiedDisk = (.error message, stopped) ∧
      find? ["data"] stopped = some (.directory []) := by
  obtain ⟨hroundTrip, hcreateStopped, hrestoreStopped⟩ := node_backup_faithful yardHost
  refine ⟨?_, ?_, ?_⟩
  · obtain ⟨manifest, verification, after, hcreated, hfound, -, hrestores⟩ :=
      hroundTrip (disk dataEntries) dataEntries options _ backupSource_dataEntries rfl rfl
        manifestFits_dataEntries (transferable dataEntries)
    obtain ⟨restored, accepted, hrestored, hentries⟩ :=
      hrestores (replacementDisk manifest) restoreOptions rfl rfl (transferable_replacementDisk manifest)
    exact ⟨manifest, verification, after, restored, accepted, hcreated, hfound, hrestored, hentries⟩
  · obtain ⟨hcreated, hkept, -⟩ := hcreateStopped .absent occupiedDisk _ options
      "backup destination already exists: /backups/daily" (by decide) rfl
    exact ⟨_, _, hcreated, hkept⟩
  · have hrestored : outcome (restoreNodeBackup yardHost .absent restoreOptions) occupiedDisk =
        (.error "Backup manifest is missing or is not valid JSON.", occupiedDisk) := rfl
    exact ⟨_, _, hrestored, (hrestoreStopped .absent occupiedDisk _ restoreOptions _ (by decide) hrestored).1⟩

/-- Files below a top-level directory under the manifest's name. -/
def disguisedEntries : List (String × FileSystem) :=
  [(BACKUP_MANIFEST_FILE, .directory [("note", .file [])])]

/-- A file that is larger than `readFile` reads. -/
def largeFile : Buffer := List.replicate (2 ^ 31) 0

/-- A directory under the manifest's name stops a backup though no file has that name, a destination that stands
stays when a backup stops, and a file of two gibibytes is not backed up. -/
theorem node_backup_not_faithful :
    (leaf? [BACKUP_MANIFEST_FILE] (.directory disguisedEntries) = none ∧
      leaf? [BACKUP_MANIFEST_FILE, "note"] (.directory disguisedEntries) = some (.file []) ∧
      (outcome (createNodeBackup yardHost .absent options) (disk disguisedEntries)).1 =
        .error "EEXIST: file already exists, open") ∧
    ((outcome (createNodeBackup yardHost .absent options) occupiedDisk).1 =
        .error "backup destination already exists: /backups/daily" ∧
      find? ["backups", "daily"] (outcome (createNodeBackup yardHost .absent options) occupiedDisk).2 =
        some (.directory [])) ∧
    ∃ message, (outcome (createNodeBackup yardHost .absent options) (disk [("log", .file largeFile)])).1 =
      .error message := by
  refine ⟨⟨rfl, rfl, rfl⟩, ⟨rfl, rfl⟩, ?_⟩
  have hlog : IsFileName "log" := by constructor <;> decide
  have hfiles : OnlyFiles (.directory [("log", .file largeFile)]) := fun leaf hleaf ↦
    ⟨largeFile, by rw [List.mem_singleton.mp hleaf]⟩
  have hlarge : maxReadBytes < largeFile.length := by
    rw [largeFile, List.length_replicate]
    decide
  exact @createNodeBackup_stops_of_large yardHost _ _ options (transferable _)
    ⟨List.nodup_singleton _, hlog, trivial, trivial⟩ hfiles ["log"] largeFile rfl hlarge

end Yard

end PeerHours.Node

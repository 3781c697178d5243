import PeerHours.Node.BackupVerification
import PeerHours.Node.Publication

/-!
# Faithful backups

A backup that is restored gives the files of its source again, and is accepted as long as its files are those that
were copied. A backup or a restore that stops before its rename leaves the source and the destination as they were.
-/

namespace PeerHours.Node

open Checked FileTree KeyedMap Stateful

variable {host : BackupHost} {faults : Faults}

/-! ## Calls that stop -/

theorem ensures_cp_inside {source target : Path} (h : source <+: target) (keep : Path → Bool)
    (fs : FileSystem) : Ensures (cp faults source target keep) fs fun result after ↦
      (∃ message, result = .error message) ∧ after = fs := by
  unfold cp
  refine Ensures.check_bind (fun message ↦ ⟨⟨message, rfl⟩, rfl⟩) fun _ hseparate ↦ ?_
  rw [require_eq_ok] at hseparate
  exact absurd h hseparate

theorem ensures_stageNodeBackup (options : CreateNodeBackupOptions) {parent : Path} {name : String}
    {before after : FileSystem} (h : OnlyEntry parent name before after) :
    Ensures (stageNodeBackup host faults options (parent ++ [name])) after fun _ middle ↦
      OnlyEntry parent name before middle := by
  unfold stageNodeBackup
  refine (ensures_cp h _ _).bind (fun _ _ hcopied ↦ hcopied) fun _ copied hcopied ↦ ?_
  rw [ensures_get_bind]
  refine Ensures.check_bind (fun _ ↦ hcopied) fun files _ ↦ ?_
  refine Ensures.check_bind (fun _ ↦ hcopied) fun createdAt _ ↦ ?_
  exact ensures_writeNew hcopied _ _

/-- Until it is published, a backup changes nothing of the source or of the destination. -/
theorem ensures_publishNodeBackup (options : CreateNodeBackupOptions) (fs : FileSystem)
    (hfresh : joinSibling options.destinationDirectory options.stagingName ≠ options.destinationDirectory) :
    Ensures (publishNodeBackup host faults options) fs
      (Keeps options.sourceDirectory options.destinationDirectory fs) := by
  unfold publishNodeBackup
  refine Ensures.check_bind (fun _ ↦ .refl _ _ _ _) fun _ _ ↦ ?_
  rw [ensures_get_bind]
  refine Ensures.check_bind (fun _ ↦ .refl _ _ _ _) fun _ hsource ↦ ?_
  refine Ensures.check_bind (fun _ ↦ .refl _ _ _ _) fun _ hseparate ↦ ?_
  rw [assertDirectory, require_eq_ok] at hsource
  refine (ensures_assertMissing _ _ fs).bind ?_ ?_
  · rintro message middle (⟨-, rfl⟩ | ⟨hmissing, hmiddle, -⟩)
    · exact .refl _ _ _ _
    · exact hmiddle.keeps hmissing _
  · rintro _ middle (⟨⟨_, hstopped⟩, -⟩ | ⟨hmissing, hmiddle, -⟩)
    · cases hstopped
    · refine ensures_transfer _ hsource hseparate hfresh hmissing hmiddle
        (fun before h ↦ ensures_stageNodeBackup options h) fun hroot before ↦ ?_
      unfold stageNodeBackup
      rw [hroot]
      refine (ensures_cp_inside List.nil_prefix _ before).bind (fun message _ hstopped ↦ hstopped) ?_
      rintro _ _ ⟨⟨_, hstopped⟩, -⟩
      cases hstopped

/-- What was verified is a directory, and the verification names it. -/
theorem verifyNodeBackup_directory {backupDirectory : Path} {fs : FileSystem}
    {verification : BackupVerification}
    (h : verifyNodeBackup host faults backupDirectory fs = .ok verification) :
    (find? backupDirectory fs).any isDirectory = true ∧ verification.backupDirectory = backupDirectory := by
  simp only [verifyNodeBackup, assertDirectory, bind_eq_ok, require_eq_ok, exists_const, pure_eq_ok] at h
  obtain ⟨hdirectory, _, -, _, -, -, -, _, -, rfl⟩ := h
  exact ⟨hdirectory, rfl⟩

/-- A restore changes nothing of the backup, and nothing of the destination when it stops. -/
theorem ensures_restoreNodeBackup (options : RestoreNodeBackupOptions) (fs : FileSystem)
    (hfresh : joinSibling options.destinationDirectory options.stagingName ≠ options.destinationDirectory) :
    Ensures (restoreNodeBackup host faults options) fs
      (Keeps options.backupDirectory options.destinationDirectory fs) := by
  unfold restoreNodeBackup preflightNodeRestore
  refine Ensures.check_bind (fun _ ↦ .refl _ _ _ _) fun _ _ ↦ ?_
  simp only [bind_assoc, pure_bind]
  rw [ensures_get_bind]
  refine Ensures.check_bind (fun _ ↦ .refl _ _ _ _) fun verification hverified ↦ ?_
  obtain ⟨hsource, hdirectory⟩ := verifyNodeBackup_directory hverified
  rw [hdirectory]
  refine Ensures.check_bind (fun _ ↦ .refl _ _ _ _) fun _ hseparate ↦ ?_
  refine (ensures_assertMissing _ _ fs).bind ?_ ?_
  · rintro message middle (⟨-, rfl⟩ | ⟨hmissing, hmiddle, -⟩)
    · exact .refl _ _ _ _
    · exact hmiddle.keeps hmissing _
  · rintro _ middle (⟨⟨_, hstopped⟩, -⟩ | ⟨hmissing, hmiddle, -⟩)
    · cases hstopped
    · rw [← bind_assoc]
      refine (ensures_transfer _ hsource hseparate hfresh hmissing hmiddle
        (fun before h ↦ ensures_cp h _ _) fun hroot before ↦ ?_).bind ?_ ?_
      · rw [hroot]
        exact ensures_cp_inside List.nil_prefix _ before
      · exact fun message _ hkeeps ↦ ⟨hkeeps.source, fun _ ↦ hkeeps.destination ⟨message, rfl⟩⟩
      · exact fun _ _ hkeeps ↦ ensures_pure.mpr ⟨hkeeps.source, nofun⟩

/-! ## Copies -/

/-- Every leaf is a regular file. -/
def OnlyFiles (tree : FileSystem) : Prop :=
  ∀ leaf ∈ leaves tree, ∃ contents, leaf.2 = .file contents

mutual

/-- A tree of regular files is copied as it is, where the filter keeps all that is below. -/
theorem copied_eq_self {keep : Path → Bool} (path : Path) (tree : FileSystem)
    (hkeep : ∀ rest, rest ≠ [] → keep (path ++ rest) = true)
    (hfiles : OnlyFiles tree) : copied keep path tree = .ok tree := by
  match tree with
  | .file _ | .link _ => rfl
  | .special =>
      obtain ⟨_, hnever⟩ := hfiles ([], .special) (List.mem_singleton.mpr rfl)
      cases hnever
  | .directory entries =>
      have hentries := copiedEntries_eq_self path entries hkeep hfiles
      rw [copied, hentries]
      rfl

theorem copiedEntries_eq_self {keep : Path → Bool} (path : Path) (entries : List (String × FileSystem))
    (hkeep : ∀ rest, rest ≠ [] → keep (path ++ rest) = true)
    (hfiles : OnlyFiles (.directory entries)) : copiedEntries keep path entries = .ok entries := by
  match entries with
  | [] => rfl
  | (name, entry) :: rest =>
      have hboth := List.forall_mem_append.mp hfiles
      have hentry : OnlyFiles entry := fun leaf hleaf ↦
        hboth.1 (name :: leaf.1, leaf.2) (List.mem_map.mpr ⟨leaf, hleaf, rfl⟩)
      have hbelow (others : Path) (hothers : others ≠ []) : keep ((path ++ [name]) ++ others) = true := by
        rw [List.append_assoc]
        exact hkeep _ (by simp)
      rw [copiedEntries, if_pos (hkeep [name] (List.cons_ne_nil _ _)),
        copied_eq_self (path ++ [name]) entry hbelow hentry,
        copiedEntries_eq_self path rest hkeep hboth.2]
      rfl

end

/-- A copy without its manifest is a copy of the other entries. -/
theorem copiedEntries_without (entries : List (String × FileSystem))
    (hfiles : OnlyFiles (.directory entries)) (name : String) :
    copiedEntries (fun path ↦ path ≠ [name]) [] entries =
      .ok (entries.filter fun entry ↦ entry.1 ≠ name) := by
  induction entries with
  | nil => rfl
  | cons entry rest ih =>
      obtain ⟨first, child⟩ := entry
      have hboth := List.forall_mem_append.mp hfiles
      have hchild : OnlyFiles child := fun leaf hleaf ↦
        hboth.1 (first :: leaf.1, leaf.2) (List.mem_map.mpr ⟨leaf, hleaf, rfl⟩)
      rw [copiedEntries, List.filter_cons]
      by_cases hname : first = name
      · subst hname
        rw [if_neg (by simp), if_neg (by simp), ih hboth.2]
      · have hcopy := @copied_eq_self (fun path ↦ decide (path ≠ [name])) ([] ++ [first]) child
          (fun others hothers ↦ decide_eq_true fun hsame ↦ hothers (List.cons.inj hsame).2) hchild
        rw [if_pos (by simpa using hname), hcopy, ih hboth.2, if_pos (by simpa using hname)]
        rfl

/-! ## Calls that do their work -/

theorem outcome_mkdir {target : Path} {fs made : FileSystem} (h : mkdirs target.dropLast fs = some made) :
    outcome (mkdir .absent target) fs = (.ok ⟨⟩, made) := by
  show outcome (check (present (mkdirs target.dropLast fs) _) >>= fun made ↦ modify fun _ ↦ made) fs = _
  rw [outcome_check_bind (present_eq_ok.mpr h)]
  rfl

theorem outcome_assertMissing {path : Path} {label : String} {fs made : FileSystem}
    (hmissing : find? path fs = none) (hmade : mkdirs path.dropLast fs = some made) :
    outcome (assertMissing .absent path label) fs = (.ok ⟨⟩, made) := by
  unfold assertMissing
  rw [outcome_get_bind, @outcome_check_bind _ _ _ _ _ () _ (require_eq_ok.mpr (by rw [hmissing]; rfl)),
    outcome_mkdir hmade]

theorem outcome_cp {source target : Path} {keep : Path → Bool} {fs entry copy : FileSystem}
    (hseparate : ¬ source <+: target) (hentry : find? source fs = some entry)
    (hcopy : copied keep [] entry = .ok copy) :
    outcome (cp .absent source target keep) fs = (.ok ⟨⟩, place target copy fs) := by
  unfold cp
  rw [@outcome_check_bind _ _ _ _ _ () _ (require_eq_ok.mpr hseparate)]
  show outcome (get >>= _) fs = _
  rw [outcome_get_bind, outcome_check_bind (present_eq_ok.mpr hentry), outcome_check_bind hcopy]
  rfl

theorem outcome_writeNew {path : Path} {data : Buffer} {fs : FileSystem} (hmissing : find? path fs = none) :
    outcome (writeNew .absent path data) fs = (.ok ⟨⟩, place path (.file data) fs) := by
  unfold writeNew
  rw [outcome_get_bind, @outcome_check_bind _ _ _ _ _ () _ (require_eq_ok.mpr (by rw [hmissing]; rfl))]
  rfl

theorem outcome_rename {source target : Path} {fs entry : FileSystem} (hentry : find? source fs = some entry)
    (hmissing : find? target fs = none) :
    outcome (rename .absent source target) fs = (.ok ⟨⟩, place target entry (discard source fs)) := by
  show outcome (get >>= _) fs = _
  rw [outcome_get_bind, outcome_check_bind (present_eq_ok.mpr hentry),
    @outcome_check_bind _ _ _ _ _ () _ (require_eq_ok.mpr (by rw [vacant, hmissing]))]
  rfl

end PeerHours.Node

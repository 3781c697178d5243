import PeerHours.Node.BackupManifest

/-!
# Inventories of a file tree

An inventory lists each regular file of a tree once, whatever the order in which the directories are read, and exists
when the tree holds nothing but regular files that can be read.
-/

namespace PeerHours.Node

open Checked FileTree KeyedMap Sorting

/-- A list of computations that all return, by their results. -/
theorem mapM_eq_ok_filterMap {α β ε : Type} {f : α → Except ε β} {values : List α}
    {results : List β} : values.mapM f = .ok results ↔
      (∀ value ∈ values, Succeeds (f value)) ∧ values.filterMap (fun value ↦ (f value).toOption) = results := by
  induction values generalizing results with
  | nil => simp [pure_eq_ok]
  | cons value rest ih =>
      rw [List.mapM_cons, List.forall_mem_cons, List.filterMap_cons]
      simp only [bind_eq_ok, ih, pure_eq_ok]
      constructor
      · rintro ⟨first, hfirst, _, ⟨hrest, rfl⟩, rfl⟩
        exact ⟨⟨⟨first, hfirst⟩, hrest⟩, by rw [hfirst]; rfl⟩
      · rintro ⟨⟨⟨first, hfirst⟩, hrest⟩, hresults⟩
        exact ⟨first, hfirst, _, ⟨hrest, rfl⟩, by rw [← hresults, hfirst]; rfl⟩

section Visit

variable {host : BackupHost} {faults : Faults} {root : Path} {ignored : List String}

/-- The file that an inventory lists for a leaf below a path. -/
def describe (host : BackupHost) (path : Path) (leaf : Path × FileSystem) : BackupFile :=
  match leaf.2 with
  | .file contents =>
      ⟨joinPath (path ++ leaf.1), contents.length, Hex.encode (host.crypto.sha256 contents)⟩
  | _ => ⟨joinPath (path ++ leaf.1), 0, ""⟩

/-- The leaf below a path is not left out. -/
def kept (ignored : List String) (path : Path) (leaf : Path × FileSystem) : Bool :=
  joinPath (path ++ leaf.1) ∉ ignored

theorem describe_cons (path : Path) (name : String) (leaf : Path × FileSystem) :
    describe host path (name :: leaf.1, leaf.2) = describe host (path ++ [name]) leaf := by
  unfold describe
  rw [List.append_assoc, List.singleton_append]

theorem kept_cons (path : Path) (name : String) (leaf : Path × FileSystem) :
    kept ignored path (name :: leaf.1, leaf.2) = kept ignored (path ++ [name]) leaf := by
  rw [kept, kept, List.append_assoc, List.singleton_append]

/-- What is listed for the leaves below an entry of a directory. -/
theorem map_describe_cons (path : Path) (name : String) (found : List (Path × FileSystem)) :
    ((found.map fun leaf ↦ (name :: leaf.1, leaf.2)).filter (kept ignored path)).map
        (describe host path) =
      (found.filter (kept ignored (path ++ [name]))).map (describe host (path ++ [name])) := by
  rw [List.filter_map, List.map_map]
  congr 1
  · exact funext fun leaf ↦ describe_cons path name leaf
  · congr 1
    exact funext fun leaf ↦ kept_cons path name leaf

theorem visit_directory_eq_ok {path : Path} {entries : List (String × FileSystem)}
    {files : List BackupFile} :
    visit host faults root ignored path (.directory entries) = .ok files ↔
      faults.read (root ++ path) = none ∧
      (∀ visited ∈ visitEntries host faults root ignored path entries, Succeeds visited.2) ∧
      ((sortBy (on host.localeCompare Prod.fst)
        (visitEntries host faults root ignored path entries)).filterMap
          fun visited ↦ visited.2.toOption).flatten = files := by
  rw [visit]
  cases faults.read (root ++ path) with
  | some message => simp
  | none =>
      simp only [bind_eq_ok, mapM_eq_ok_filterMap, mem_sortBy, pure_eq_ok, true_and]
      constructor
      · rintro ⟨_, ⟨hall, rfl⟩, hfiles⟩
        exact ⟨hall, hfiles⟩
      · rintro ⟨hall, hfiles⟩
        exact ⟨_, ⟨hall, rfl⟩, hfiles⟩

mutual

/-- An inventory lists the leaves that are not left out, in some order. -/
theorem visit_perm (path : Path) (tree : FileSystem) {files : List BackupFile}
    (h : visit host faults root ignored path tree = .ok files) :
    files.Perm (((leaves tree).filter (kept ignored path)).map (describe host path)) := by
  match tree with
  | .file contents =>
      rw [visit] at h
      by_cases hignored : joinPath path ∈ ignored
      · rw [if_pos hignored] at h
        cases h
        simp [leaves, kept, hignored]
      · rw [if_neg hignored, bind_eq_ok] at h
        obtain ⟨found, hfound, hfiles⟩ := h
        rw [readContents] at hfound
        split at hfound
        · cases hfound
        · rw [bind_eq_ok] at hfound
          obtain ⟨-, -, hsame⟩ := hfound
          cases hsame
          cases hfiles
          simp [leaves, kept, hignored, describe]
  | .link _ => cases h
  | .special => cases h
  | .directory entries =>
      obtain ⟨-, hall, rfl⟩ := visit_directory_eq_ok.mp h
      exact (((perm_sortBy _).filterMap _).flatten).trans (visitEntries_perm path entries hall)

theorem visitEntries_perm (path : Path) (entries : List (String × FileSystem))
    (h : ∀ visited ∈ visitEntries host faults root ignored path entries, Succeeds visited.2) :
    ((visitEntries host faults root ignored path entries).filterMap
        fun visited ↦ visited.2.toOption).flatten.Perm
      (((entryLeaves entries).filter (kept ignored path)).map (describe host path)) := by
  match entries with
  | [] => exact .refl _
  | (name, entry) :: rest =>
      rw [visitEntries, List.forall_mem_cons] at h
      obtain ⟨⟨files, hfiles⟩, hrest⟩ := h
      have hhere := visit_perm (path ++ [name]) entry hfiles
      rw [visitEntries, List.filterMap_cons_some (by rw [hfiles]; rfl), List.flatten_cons, entryLeaves,
        List.filter_append, List.map_append, map_describe_cons]
      exact hhere.append (visitEntries_perm path rest hrest)

end

/-- A leaf that an inventory takes: a regular file that is left out or can be read. -/
def Takes (ignored : List String) (path : Path) (leaf : Path × FileSystem) : Prop :=
  ∃ contents, leaf.2 = .file contents ∧
    (joinPath (path ++ leaf.1) ∈ ignored ∨ contents.length ≤ maxReadBytes)

theorem takes_cons {path : Path} {name : String} {leaf : Path × FileSystem} :
    Takes ignored path (name :: leaf.1, leaf.2) ↔ Takes ignored (path ++ [name]) leaf := by
  unfold Takes
  rw [List.append_assoc, List.singleton_append]

theorem readContents_eq_ok (hreads : ∀ path, faults.read path = none) {path : Path}
    {contents found : Buffer} :
    readContents faults path contents = .ok found ↔ contents.length ≤ maxReadBytes ∧ contents = found := by
  simp only [readContents, hreads, bind_eq_ok, require_eq_ok, exists_const, pure_eq_ok]

mutual

/-- An inventory exists when every leaf is a regular file that can be read. -/
theorem succeeds_visit (hreads : ∀ path, faults.read path = none) (path : Path) (tree : FileSystem) :
    Succeeds (visit host faults root ignored path tree) ↔ ∀ leaf ∈ leaves tree, Takes ignored path leaf := by
  match tree with
  | .file contents =>
      rw [visit, leaves_of_leaf rfl, List.forall_mem_singleton]
      by_cases hignored : joinPath path ∈ ignored
      · simp [Takes, hignored, Succeeds]
      · rw [if_neg hignored]
        simp only [Succeeds, bind_eq_ok, readContents_eq_ok hreads, pure_eq_ok, Takes, List.append_nil,
          hignored, false_or, FileTree.file.injEq]
        constructor
        · rintro ⟨_, _, ⟨hlength, rfl⟩, -⟩
          exact ⟨contents, rfl, hlength⟩
        · rintro ⟨_, rfl, hlength⟩
          exact ⟨_, contents, ⟨hlength, rfl⟩, rfl⟩
  | .link _ | .special => simp [visit, leaves, Takes, Succeeds]
  | .directory entries =>
      rw [leaves, ← succeeds_visitEntries hreads path entries]
      constructor
      · rintro ⟨files, hfiles⟩
        exact (visit_directory_eq_ok.mp hfiles).2.1
      · exact fun hall ↦ ⟨_, visit_directory_eq_ok.mpr ⟨hreads _, hall, rfl⟩⟩

theorem succeeds_visitEntries (hreads : ∀ path, faults.read path = none) (path : Path)
    (entries : List (String × FileSystem)) :
    (∀ visited ∈ visitEntries host faults root ignored path entries, Succeeds visited.2) ↔
      ∀ leaf ∈ entryLeaves entries, Takes ignored path leaf := by
  match entries with
  | [] => simp [visitEntries, entryLeaves]
  | (name, entry) :: rest =>
      rw [visitEntries, List.forall_mem_cons, succeeds_visit hreads (path ++ [name]) entry,
        succeeds_visitEntries hreads path rest, entryLeaves, List.forall_mem_append, List.forall_mem_map]
      simp only [takes_cons]

end

end Visit

end PeerHours.Node

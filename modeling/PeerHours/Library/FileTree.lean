import Mathlib.Data.List.Nodup
import PeerHours.Library.KeyedMap

/-!
# File trees

A file system as a tree of named entries: regular files, directories, symbolic links and special files. What is no
directory is a leaf. Changing the tree at one path leaves every path beside it as it was.
-/

open KeyedMap

/-- An entry of a file system, with what it holds. -/
inductive FileTree (α : Type) where
  | file (contents : α)
  | directory (entries : List (String × FileTree α))
  | link (target : String)
  | special

namespace FileTree

variable {α : Type}

def isDirectory : FileTree α → Bool
  | .directory _ => true
  | _ => false

theorem isDirectory_eq_true {tree : FileTree α} :
    tree.isDirectory = true ↔ ∃ entries, tree = .directory entries := by
  cases tree <;> simp [isDirectory]

/-! ## Looking up -/

/-- The entry of a name in a directory. -/
def child? (name : String) : FileTree α → Option (FileTree α)
  | .directory entries => (lookup Prod.fst name entries).map Prod.snd
  | _ => none

/-- What stands at a path. -/
def find? : List String → FileTree α → Option (FileTree α)
  | [], tree => some tree
  | name :: rest, tree => (tree.child? name).bind (find? rest)

/-- The leaf at a path. -/
def leaf? (path : List String) (tree : FileTree α) : Option (FileTree α) :=
  (find? path tree).filter fun entry ↦ !entry.isDirectory

@[simp] theorem find?_nil (tree : FileTree α) : find? [] tree = some tree := rfl

@[simp] theorem find?_cons (name : String) (rest : List String) (tree : FileTree α) :
    find? (name :: rest) tree = (tree.child? name).bind (find? rest) := rfl

theorem find?_append (path rest : List String) (tree : FileTree α) :
    find? (path ++ rest) tree = (find? path tree).bind (find? rest) := by
  induction path generalizing tree with
  | nil => rfl
  | cons name path ih =>
      rw [List.cons_append, find?_cons, find?_cons, Option.bind_assoc]
      exact Option.bind_congr fun child _ ↦ ih child

theorem leaf?_eq_some {path : List String} {tree leaf : FileTree α} :
    leaf? path tree = some leaf ↔ find? path tree = some leaf ∧ leaf.isDirectory = false := by
  simp [leaf?, Option.filter_eq_some_iff]

theorem leaf?_cons (name : String) (rest : List String) (tree : FileTree α) :
    leaf? (name :: rest) tree = (tree.child? name).bind (leaf? rest) := by
  unfold leaf?
  rw [find?_cons]
  cases tree.child? name <;> rfl

theorem leaf?_append {path : List String} {tree entry : FileTree α} (h : find? path tree = some entry)
    (rest : List String) : leaf? (path ++ rest) tree = leaf? rest entry := by
  rw [leaf?, find?_append, h]
  rfl

theorem leaf?_congr {path : List String} {left right : FileTree α}
    (h : find? path left = find? path right) : leaf? path left = leaf? path right := by
  rw [leaf?, h, leaf?]

/-- What has entries below it is a directory. -/
theorem isDirectory_of_find? {path : List String} {tree : FileTree α}
    {entries : List (String × FileTree α)} (h : find? path tree = some (.directory entries)) :
    tree.isDirectory = true := by
  cases path with
  | nil =>
      cases h
      rfl
  | cons name rest =>
      cases tree with
      | directory => rfl
      | file | link | special => cases h

/-- No leaf stands on the way to a directory. -/
theorem leaf?_above {path parent : List String} {tree : FileTree α}
    {entries : List (String × FileTree α)} (h : find? parent tree = some (.directory entries))
    (hpath : path <+: parent) : leaf? path tree = none := by
  obtain ⟨rest, rfl⟩ := hpath
  rw [find?_append, Option.bind_eq_some_iff] at h
  obtain ⟨entry, hentry, hrest⟩ := h
  rw [leaf?, hentry, Option.filter_some, isDirectory_of_find? hrest]
  rfl

theorem child?_upsert (name : String) (entry : FileTree α) (entries : List (String × FileTree α))
    (wanted : String) : child? wanted (.directory (upsert Prod.fst (name, entry) entries)) =
      if name = wanted then some entry else child? wanted (.directory entries) := by
  rw [child?, lookup_upsert, child?]
  split <;> rfl

/-! ## Changing a directory -/

/-- Replaces what stands at a path, if something does. -/
def update : List String → (FileTree α → FileTree α) → FileTree α → FileTree α
  | [], f, tree => f tree
  | name :: rest, f, .directory entries =>
      match child? name (.directory entries) with
      | some child => .directory (upsert Prod.fst (name, update rest f child) entries)
      | none => .directory entries
  | _ :: _, _, tree => tree

theorem child?_update (name : String) (rest : List String) (f : FileTree α → FileTree α)
    (tree : FileTree α) (wanted : String) : child? wanted (update (name :: rest) f tree) =
      if name = wanted then (child? name tree).map (update rest f) else child? wanted tree := by
  cases tree with
  | directory entries =>
      rw [update]
      cases hchild : child? name (.directory entries) with
      | none =>
          by_cases hname : name = wanted
          · rw [if_pos hname, ← hname]
            exact hchild
          · rw [if_neg hname]
      | some child => exact child?_upsert name (update rest f child) entries wanted
  | file | link | special => simp [update, child?]

/-- A path that leads through the changed entry. -/
theorem find?_update (path rest : List String) (f : FileTree α → FileTree α) (tree : FileTree α) :
    find? path (update (path ++ rest) f tree) = (find? path tree).map (update rest f) := by
  induction path generalizing tree with
  | nil => rfl
  | cons name path ih =>
      rw [List.cons_append, find?_cons, find?_cons, child?_update, if_pos rfl, Option.bind_map,
        Option.map_bind]
      exact Option.bind_congr fun child _ ↦ ih child

/-- A path beside the changed entry. -/
theorem find?_update_of_diverge {path other : List String} (hpath : ¬ path <+: other)
    (hother : ¬ other <+: path) (f : FileTree α → FileTree α) (tree : FileTree α) :
    find? other (update path f tree) = find? other tree := by
  induction path generalizing other tree with
  | nil => exact absurd (List.nil_prefix) hpath
  | cons name path ih =>
      cases other with
      | nil => exact absurd (List.nil_prefix) hother
      | cons wanted other =>
          rw [find?_cons, find?_cons, child?_update]
          by_cases hname : name = wanted
          · subst hname
            rw [List.prefix_cons_inj] at hpath hother
            rw [if_pos rfl, Option.bind_map]
            exact Option.bind_congr fun child _ ↦ ih hpath hother child
          · rw [if_neg hname]

/-- Puts an entry into a directory. -/
def insert (name : String) (entry : FileTree α) : FileTree α → FileTree α
  | .directory entries => .directory (upsert Prod.fst (name, entry) entries)
  | tree => tree

/-- Takes an entry out of a directory. -/
def erase (name : String) : FileTree α → FileTree α
  | .directory entries => .directory (entries.filter fun entry ↦ entry.1 ≠ name)
  | tree => tree

theorem lookup_filter_ne {β : Type} {key : β → String} (name wanted : String) (entries : List β) :
    lookup key wanted (entries.filter fun entry ↦ key entry ≠ name) =
      if name = wanted then none else lookup key wanted entries := by
  induction entries with
  | nil => simp
  | cons entry rest ih =>
      rw [List.filter_cons, lookup_cons]
      by_cases hname : key entry = name
      · rw [if_neg (by simpa using hname), ih, hname]
        split
        · rfl
        · rfl
      · rw [if_pos (by simpa using hname), lookup_cons, ih]
        split
        · rw [if_neg fun hsame ↦ hname (by rw [hsame]; assumption)]
        · rfl

theorem child?_erase (name wanted : String) (tree : FileTree α) :
    child? wanted (erase name tree) = if name = wanted then none else child? wanted tree := by
  cases tree with
  | directory entries =>
      rw [erase, child?, lookup_filter_ne, child?]
      split <;> rfl
  | file | link | special => simp [erase, child?]

theorem child?_insert (name : String) (entry : FileTree α) {tree : FileTree α}
    (h : tree.isDirectory = true) (wanted : String) :
    child? wanted (insert name entry tree) = if name = wanted then some entry else child? wanted tree := by
  obtain ⟨entries, rfl⟩ := isDirectory_eq_true.mp h
  exact child?_upsert name entry entries wanted

theorem isDirectory_insert (name : String) (entry tree : FileTree α) :
    (insert name entry tree).isDirectory = tree.isDirectory := by
  cases tree <;> rfl

theorem isDirectory_erase (name : String) (tree : FileTree α) :
    (erase name tree).isDirectory = tree.isDirectory := by
  cases tree <;> rfl

/-- A change below an entry leaves a directory a directory. -/
theorem isDirectory_update {path : List String} {f : FileTree α → FileTree α}
    (hf : ∀ tree, (f tree).isDirectory = tree.isDirectory) (tree : FileTree α) :
    (update path f tree).isDirectory = tree.isDirectory := by
  cases path with
  | nil => exact hf tree
  | cons name rest =>
      cases tree with
      | directory entries =>
          rw [update]
          split <;> rfl
      | file | link | special => rfl

/-- A change of one entry of a directory leaves all paths beside that entry as they were. -/
theorem find?_update_child {parent other : List String} {name : String} {f : FileTree α → FileTree α}
    (hf : ∀ tree wanted, name ≠ wanted → child? wanted (f tree) = child? wanted tree)
    (hbelow : ¬ parent ++ [name] <+: other) (habove : ¬ other <+: parent) (tree : FileTree α) :
    find? other (update parent f tree) = find? other tree := by
  by_cases hparent : parent <+: other
  · obtain ⟨rest, rfl⟩ := hparent
    have hsplit := find?_update parent [] f tree
    rw [List.append_nil] at hsplit
    rw [find?_append, hsplit, find?_append, Option.bind_map]
    refine Option.bind_congr fun entry _ ↦ ?_
    cases rest with
    | nil => exact absurd ((List.append_nil parent).symm ▸ List.prefix_refl parent) habove
    | cons wanted rest =>
        have hne : name ≠ wanted := by
          rintro rfl
          exact hbelow ⟨rest, by simp⟩
        show ((f entry).child? wanted).bind (find? rest) = _
        rw [hf entry wanted hne]
        rfl
  · exact find?_update_of_diverge hparent habove f tree

/-! ## Making directories -/

/-- `mkdir` with all directories on the way. -/
def mkdirs : List String → FileTree α → Option (FileTree α)
  | [], .directory entries => some (.directory entries)
  | name :: rest, .directory entries =>
      (mkdirs rest ((child? name (.directory entries)).getD (.directory []))).map fun child ↦
        .directory (upsert Prod.fst (name, child) entries)
  | _, _ => none

theorem mkdirs_nil_eq_some {tree made : FileTree α} :
    mkdirs [] tree = some made ↔ tree.isDirectory = true ∧ tree = made := by
  cases tree <;> simp [mkdirs, isDirectory]

theorem mkdirs_cons_eq_some {name : String} {rest : List String} {tree made : FileTree α} :
    mkdirs (name :: rest) tree = some made ↔ tree.isDirectory = true ∧
      ∃ child, mkdirs rest ((child? name tree).getD (.directory [])) = some child ∧
        insert name child tree = made := by
  cases tree <;> simp [mkdirs, isDirectory, insert]

/-- What was made is a directory. -/
theorem find?_mkdirs {path : List String} {tree made : FileTree α} (h : mkdirs path tree = some made) :
    ∃ entries, find? path made = some (.directory entries) := by
  induction path generalizing tree made with
  | nil =>
      obtain ⟨hdirectory, rfl⟩ := mkdirs_nil_eq_some.mp h
      obtain ⟨entries, rfl⟩ := isDirectory_eq_true.mp hdirectory
      exact ⟨entries, rfl⟩
  | cons name rest ih =>
      obtain ⟨hdirectory, child, hchild, rfl⟩ := mkdirs_cons_eq_some.mp h
      obtain ⟨entries, hentries⟩ := ih hchild
      exact ⟨entries, by rw [find?_cons, child?_insert name child hdirectory, if_pos rfl]; exact hentries⟩

/-- Directories that stand need not be made. -/
theorem exists_mkdirs_of_find? {path : List String} {tree : FileTree α}
    {entries : List (String × FileTree α)} (h : find? path tree = some (.directory entries)) :
    ∃ made, mkdirs path tree = some made := by
  induction path generalizing tree with
  | nil =>
      cases h
      exact ⟨_, rfl⟩
  | cons name rest ih =>
      have hdirectory := isDirectory_of_find? h
      rw [find?_cons, Option.bind_eq_some_iff] at h
      obtain ⟨child, hchild, hrest⟩ := h
      obtain ⟨made, hmade⟩ := ih hrest
      exact ⟨_, mkdirs_cons_eq_some.mpr ⟨hdirectory, made, by rw [hchild]; exact hmade, rfl⟩⟩

/-- Making directories leaves all paths beside them as they were. -/
theorem find?_mkdirs_beside {path other : List String} {tree made : FileTree α}
    (h : mkdirs path tree = some made) (hother : ¬ other <+: path) :
    find? other made = find? other tree := by
  induction path generalizing other tree made with
  | nil =>
      obtain ⟨-, rfl⟩ := mkdirs_nil_eq_some.mp h
      rfl
  | cons name rest ih =>
      obtain ⟨hdirectory, child, hchild, rfl⟩ := mkdirs_cons_eq_some.mp h
      cases other with
      | nil => exact absurd List.nil_prefix hother
      | cons wanted other =>
          rw [find?_cons, find?_cons, child?_insert name child hdirectory]
          by_cases hname : name = wanted
          · subst hname
            rw [List.prefix_cons_inj] at hother
            rw [if_pos rfl, Option.bind_some, ih hchild hother]
            cases child? name tree with
            | some found => rfl
            | none =>
                cases other with
                | nil => exact absurd List.nil_prefix hother
                | cons => rfl
          · rw [if_neg hname]

/-- Making directories makes and loses no leaf. -/
theorem leaf?_mkdirs {path : List String} {tree made : FileTree α} (h : mkdirs path tree = some made)
    (other : List String) : leaf? other made = leaf? other tree := by
  induction path generalizing other tree made with
  | nil =>
      obtain ⟨-, rfl⟩ := mkdirs_nil_eq_some.mp h
      rfl
  | cons name rest ih =>
      obtain ⟨hdirectory, child, hchild, rfl⟩ := mkdirs_cons_eq_some.mp h
      cases other with
      | nil =>
          obtain ⟨entries, rfl⟩ := isDirectory_eq_true.mp hdirectory
          rfl
      | cons wanted other =>
          rw [leaf?_cons, leaf?_cons, child?_insert name child hdirectory]
          by_cases hname : name = wanted
          · subst hname
            rw [if_pos rfl, Option.bind_some, ih hchild]
            cases child? name tree with
            | some found => rfl
            | none => cases other <;> rfl
          · rw [if_neg hname]

/-! ## Leaves -/

mutual

/-- The leaves below an entry with their paths. -/
def leaves : FileTree α → List (List String × FileTree α)
  | .directory entries => entryLeaves entries
  | leaf => [([], leaf)]

/-- The leaves below the entries of a directory. -/
def entryLeaves : List (String × FileTree α) → List (List String × FileTree α)
  | [] => []
  | (name, entry) :: rest =>
      (leaves entry).map (fun leaf ↦ (name :: leaf.1, leaf.2)) ++ entryLeaves rest

end

mutual

/-- The names in every directory are distinct and fit for an entry. -/
def WellNamed (fit : String → Prop) : FileTree α → Prop
  | .directory entries => (entries.map Prod.fst).Nodup ∧ WellNamedEntries fit entries
  | _ => True

/-- The entries of a directory have fit names, and their directories are well named. -/
def WellNamedEntries (fit : String → Prop) : List (String × FileTree α) → Prop
  | [] => True
  | (name, entry) :: rest => fit name ∧ WellNamed fit entry ∧ WellNamedEntries fit rest

end

theorem entryLeaves_eq_flatMap (entries : List (String × FileTree α)) :
    entryLeaves entries =
      entries.flatMap fun entry ↦ (leaves entry.2).map fun leaf ↦ (entry.1 :: leaf.1, leaf.2) := by
  induction entries with
  | nil => rfl
  | cons entry rest ih => rw [entryLeaves, ih, List.flatMap_cons]

theorem wellNamedEntries_iff {fit : String → Prop} {entries : List (String × FileTree α)} :
    WellNamedEntries fit entries ↔ ∀ entry ∈ entries, fit entry.1 ∧ WellNamed fit entry.2 := by
  induction entries with
  | nil => simp [WellNamedEntries]
  | cons entry rest ih => simp [WellNamedEntries, ih, and_assoc]

theorem child?_directory_eq_some {entries : List (String × FileTree α)}
    (hnodup : (entries.map Prod.fst).Nodup) {name : String} {child : FileTree α} :
    child? name (.directory entries) = some child ↔ (name, child) ∈ entries := by
  rw [child?, Option.map_eq_some_iff]
  constructor
  · rintro ⟨⟨found, entry⟩, hfound, rfl⟩
    obtain ⟨hmem, rfl⟩ := lookup_eq_some hfound
    exact hmem
  · exact fun hmem ↦ ⟨(name, child), lookup_of_mem hnodup hmem, rfl⟩

theorem leaves_of_leaf {leaf : FileTree α} (h : leaf.isDirectory = false) : leaves leaf = [([], leaf)] := by
  cases leaf with
  | directory => cases h
  | _ => rfl

theorem mem_leaves_of_leaf {tree : FileTree α} (h : tree.isDirectory = false) {path : List String}
    {leaf : FileTree α} : (path, leaf) ∈ leaves tree ↔ leaf? path tree = some leaf := by
  rw [leaves_of_leaf h, List.mem_singleton, leaf?_eq_some]
  cases path with
  | nil =>
      rw [find?_nil, Option.some.injEq]
      constructor
      · intro hsame
        obtain rfl := (Prod.mk.inj hsame).2
        exact ⟨rfl, h⟩
      · rintro ⟨rfl, -⟩
        rfl
  | cons name rest =>
      have hnone : tree.child? name = none := by
        cases tree with
        | directory => cases h
        | _ => rfl
      simp [hnone]

mutual

/-- The listed leaves are those that are found. -/
theorem mem_leaves {fit : String → Prop} (tree : FileTree α) (h : WellNamed fit tree)
    {path : List String} {leaf : FileTree α} :
    (path, leaf) ∈ leaves tree ↔ leaf? path tree = some leaf := by
  match tree with
  | .directory entries =>
      rw [leaves, mem_entryLeaves entries h.2]
      constructor
      · rintro ⟨name, child, rest, rfl, hmem, hleaf⟩
        rw [leaf?_cons, (child?_directory_eq_some h.1).mpr hmem]
        exact hleaf
      · intro hleaf
        cases path with
        | nil => cases hleaf
        | cons name rest =>
            rw [leaf?_cons, Option.bind_eq_some_iff] at hleaf
            obtain ⟨child, hchild, hleaf⟩ := hleaf
            exact ⟨name, child, rest, rfl, (child?_directory_eq_some h.1).mp hchild, hleaf⟩
  | .file _ | .link _ | .special => exact mem_leaves_of_leaf rfl

theorem mem_entryLeaves {fit : String → Prop} (entries : List (String × FileTree α))
    (h : WellNamedEntries fit entries) {path : List String} {leaf : FileTree α} :
    (path, leaf) ∈ entryLeaves entries ↔ ∃ name child rest, path = name :: rest ∧
      (name, child) ∈ entries ∧ leaf? rest child = some leaf := by
  match entries with
  | [] => simp [entryLeaves]
  | (name, entry) :: others =>
      rw [entryLeaves, List.mem_append, mem_entryLeaves others h.2.2, List.mem_map]
      constructor
      · rintro (⟨⟨rest, found⟩, hmem, hsame⟩ | ⟨found, child, rest, hpath, hmem, hleaf⟩)
        · obtain ⟨rfl, rfl⟩ := Prod.mk.inj hsame
          exact ⟨name, entry, rest, rfl, List.mem_cons_self, (mem_leaves entry h.2.1).mp hmem⟩
        · exact ⟨found, child, rest, hpath, List.mem_cons_of_mem _ hmem, hleaf⟩
      · rintro ⟨found, child, rest, rfl, hmem, hleaf⟩
        rcases List.mem_cons.mp hmem with hfirst | hother
        · obtain ⟨rfl, rfl⟩ := Prod.mk.inj hfirst
          exact .inl ⟨(rest, leaf), (mem_leaves child h.2.1).mpr hleaf, rfl⟩
        · exact .inr ⟨found, child, rest, rfl, hother, hleaf⟩

end

/-- Paths in a well named tree have fit names and lead to well named trees. -/
theorem WellNamed.of_find? {fit : String → Prop} {path : List String} {tree entry : FileTree α}
    (h : WellNamed fit tree) (hfind : find? path tree = some entry) :
    (∀ name ∈ path, fit name) ∧ WellNamed fit entry := by
  induction path generalizing tree with
  | nil =>
      cases hfind
      exact ⟨nofun, h⟩
  | cons name rest ih =>
      rw [find?_cons, Option.bind_eq_some_iff] at hfind
      obtain ⟨child, hchild, hfind⟩ := hfind
      cases tree with
      | directory entries =>
          have hmem := (child?_directory_eq_some h.1).mp hchild
          obtain ⟨hname, hnamed⟩ := wellNamedEntries_iff.mp h.2 (name, child) hmem
          obtain ⟨hrest, hentry⟩ := ih hnamed hfind
          exact ⟨List.forall_mem_cons.mpr ⟨hname, hrest⟩, hentry⟩
      | file | link | special => cases hchild

mutual

/-- Every leaf has a path of its own. -/
theorem nodup_leaves {fit : String → Prop} (tree : FileTree α) (h : WellNamed fit tree) :
    ((leaves tree).map Prod.fst).Nodup := by
  match tree with
  | .directory entries => exact nodup_entryLeaves entries h.1 h.2
  | .file _ | .link _ | .special => exact List.nodup_singleton _

theorem nodup_entryLeaves {fit : String → Prop} (entries : List (String × FileTree α))
    (hnodup : (entries.map Prod.fst).Nodup) (h : WellNamedEntries fit entries) :
    ((entryLeaves entries).map Prod.fst).Nodup := by
  match entries with
  | [] => exact List.nodup_nil
  | (name, entry) :: others =>
      obtain ⟨hname, hothers⟩ := List.nodup_cons.mp hnodup
      rw [entryLeaves, List.map_append, List.map_map, List.nodup_append]
      refine ⟨?_, nodup_entryLeaves others hothers h.2.2, ?_⟩
      · have hpaths := (nodup_leaves entry h.2.1).map (List.cons_injective (a := name))
        rwa [List.map_map] at hpaths
      · intro path hpath other hother hsame
        obtain ⟨leaf, -, rfl⟩ := List.mem_map.mp hpath
        obtain ⟨⟨_, found⟩, hfound, rfl⟩ := List.mem_map.mp hother
        obtain ⟨_, child, rest, heq, hmem, -⟩ := (mem_entryLeaves others h.2.2).mp hfound
        obtain ⟨rfl, -⟩ := List.cons.inj (hsame.trans heq)
        exact hname (List.mem_map.mpr ⟨_, hmem, rfl⟩)

end

end FileTree

import PeerHours.Node.Backup

/-!
# Publishing by one rename

What is made for a destination is made in a staging directory beside it. Until the rename nothing but the staging
directory changes, whatever fails, and directories on the way to the destination are only ever added.
-/

namespace PeerHours.Node

open Checked FileTree Stateful

variable {faults : Faults}

/-! ## Directories on the way -/

/-- Nothing was done but making directories on the way to a path. -/
structure OnlyDirectories (path : Path) (before after : FileSystem) : Prop where
  leaf : ∀ other, leaf? other after = leaf? other before
  beside : ∀ other, ¬ other <+: path → find? other after = find? other before

theorem OnlyDirectories.refl (path : Path) (fs : FileSystem) : OnlyDirectories path fs fs :=
  ⟨fun _ ↦ rfl, fun _ _ ↦ rfl⟩

theorem OnlyDirectories.trans {path : Path} {before middle after : FileSystem}
    (h : OnlyDirectories path before middle) (hafter : OnlyDirectories path middle after) :
    OnlyDirectories path before after :=
  ⟨fun other ↦ (hafter.leaf other).trans (h.leaf other),
    fun other hother ↦ (hafter.beside other hother).trans (h.beside other hother)⟩

theorem onlyDirectories_mkdirs {path made : Path} {fs after : FileSystem} (hmade : made <+: path)
    (h : mkdirs made fs = some after) : OnlyDirectories path fs after :=
  ⟨leaf?_mkdirs h, fun _ hother ↦ find?_mkdirs_beside h fun hbefore ↦ hother (hbefore.trans hmade)⟩

/-- `mkdir` makes directories only, and the one that was asked for when it returns. -/
theorem ensures_mkdir (target : Path) (fs : FileSystem) :
    Ensures (mkdir faults target) fs fun result after ↦ OnlyDirectories target.dropLast fs after ∧
      (result = .ok ⟨⟩ → ∃ entries, find? target.dropLast after = some (.directory entries)) := by
  unfold mkdir
  rw [ensures_get_bind]
  cases faults.mkdir target with
  | some fault =>
      obtain ⟨message, count⟩ := fault
      rw [ensures_modify_bind, ensures_throw]
      refine ⟨?_, nofun⟩
      cases hmade : mkdirs (target.dropLast.take count) fs with
      | none => exact .refl _ _
      | some made => exact onlyDirectories_mkdirs (List.take_prefix _ _) hmade
  | none =>
      refine Ensures.check_bind (fun _ ↦ ⟨.refl _ _, nofun⟩) fun made hmade ↦ ?_
      rw [present_eq_ok] at hmade
      exact ⟨onlyDirectories_mkdirs (List.prefix_refl _) hmade, fun _ ↦ find?_mkdirs hmade⟩

/-- A path that stands is left alone; one that is missing is given a directory to be put into. -/
theorem ensures_assertMissing (path : Path) (label : String) (fs : FileSystem) :
    Ensures (assertMissing faults path label) fs fun result after ↦
      (∃ message, result = .error message) ∧ after = fs ∨
        find? path fs = none ∧ OnlyDirectories path.dropLast fs after ∧
          (result = .ok ⟨⟩ → ∃ entries, find? path.dropLast after = some (.directory entries)) := by
  unfold assertMissing
  rw [ensures_get_bind]
  refine Ensures.check_bind (fun message ↦ .inl ⟨⟨message, rfl⟩, rfl⟩) fun _ hmissing ↦ ?_
  rw [require_eq_ok, Option.isNone_iff_eq_none] at hmissing
  exact (ensures_mkdir path fs).mono fun _ _ hmade ↦ .inr ⟨hmissing, hmade⟩

/-! ## The staging directory -/

/-- Nothing was changed but one entry of a directory. -/
structure OnlyEntry (parent : Path) (name : String) (before after : FileSystem) : Prop where
  directory : ∃ entries, find? parent after = some (.directory entries)
  beside : ∀ other, ¬ parent ++ [name] <+: other → ¬ other <+: parent →
    find? other after = find? other before

variable {parent : Path} {name : String} {before after : FileSystem}

theorem place_concat (entry fs : FileSystem) :
    place (parent ++ [name]) entry fs = update parent (insert name entry) fs := by
  rw [place, List.getLast?_concat, List.dropLast_concat]

theorem discard_concat (fs : FileSystem) :
    discard (parent ++ [name]) fs = update parent (erase name) fs := by
  rw [discard, List.getLast?_concat, List.dropLast_concat]

theorem find?_update_self (path : Path) (f : FileSystem → FileSystem) (fs : FileSystem) :
    find? path (update path f fs) = (find? path fs).map f := by
  have hsplit := find?_update path [] f fs
  rw [List.append_nil] at hsplit
  exact hsplit

/-- What was put at a path is found there. -/
theorem find?_place {entries : List (String × FileSystem)} {fs : FileSystem}
    (hparent : find? parent fs = some (.directory entries)) (entry : FileSystem) :
    find? (parent ++ [name]) (place (parent ++ [name]) entry fs) = some entry := by
  rw [place_concat, find?_append, find?_update_self, hparent]
  show ((insert name entry (.directory entries)).child? name).bind _ = _
  rw [child?_insert name entry rfl, if_pos rfl]
  rfl

theorem OnlyEntry.refl {entries : List (String × FileSystem)}
    (h : find? parent before = some (.directory entries)) : OnlyEntry parent name before before :=
  ⟨⟨entries, h⟩, fun _ _ _ ↦ rfl⟩

/-- Changing the entry once more. -/
theorem OnlyEntry.update (h : OnlyEntry parent name before after) {f : FileSystem → FileSystem}
    (hdirectory : ∀ tree, (f tree).isDirectory = tree.isDirectory)
    (hf : ∀ tree wanted, name ≠ wanted → child? wanted (f tree) = child? wanted tree) :
    OnlyEntry parent name before (update parent f after) := by
  obtain ⟨entries, hentries⟩ := h.directory
  refine ⟨?_, fun other hbelow habove ↦ ?_⟩
  · obtain ⟨others, hothers⟩ := isDirectory_eq_true.mp (hdirectory (.directory entries))
    exact ⟨others, by rw [find?_update_self, hentries, Option.map_some, hothers]⟩
  · rw [find?_update_child hf hbelow habove, h.beside other hbelow habove]

theorem OnlyEntry.place (h : OnlyEntry parent name before after) (entry : FileSystem) :
    OnlyEntry parent name before (place (parent ++ [name]) entry after) := by
  rw [place_concat]
  refine h.update (isDirectory_insert name entry) fun tree wanted hne ↦ ?_
  cases tree with
  | directory entries => rw [child?_insert name entry rfl, if_neg hne]
  | file | link | special => rfl

theorem OnlyEntry.discard (h : OnlyEntry parent name before after) :
    OnlyEntry parent name before (discard (parent ++ [name]) after) := by
  rw [discard_concat]
  exact h.update (isDirectory_erase name) fun tree wanted hne ↦ by rw [child?_erase, if_neg hne]

/-- Putting something below the entry. -/
theorem OnlyEntry.placeBelow (h : OnlyEntry parent name before after) (below : String)
    (entry : FileSystem) : OnlyEntry parent name before (Node.place (parent ++ [name] ++ [below]) entry after) := by
  obtain ⟨entries, hentries⟩ := h.directory
  rw [place_concat]
  refine ⟨?_, fun other hbelow habove ↦ ?_⟩
  · have hstill := @isDirectory_update _ [name] _ (isDirectory_insert below entry) (.directory entries)
    obtain ⟨others, hothers⟩ := isDirectory_eq_true.mp hstill
    exact ⟨others, by rw [find?_update, hentries, Option.map_some, hothers]⟩
  · have hstarts : ¬ other <+: parent ++ [name] := by
      rw [List.prefix_concat_iff]
      rintro (rfl | hother)
      · exact hbelow (List.prefix_refl _)
      · exact habove hother
    rw [find?_update_of_diverge hbelow hstarts, h.beside other hbelow habove]

/-- Leaves beside the entry stay. -/
theorem OnlyEntry.leaf (h : OnlyEntry parent name before after) {entries : List (String × FileSystem)}
    (hparent : find? parent before = some (.directory entries)) {other : Path}
    (hbelow : ¬ parent ++ [name] <+: other) : leaf? other after = leaf? other before := by
  by_cases habove : other <+: parent
  · obtain ⟨others, hothers⟩ := h.directory
    rw [leaf?_above hothers habove, leaf?_above hparent habove]
  · exact leaf?_congr (h.beside other hbelow habove)

/-! ## Calls in the staging directory -/

theorem ensures_cp (h : OnlyEntry parent name before after) (source : Path) (keep : Path → Bool) :
    Ensures (cp faults source (parent ++ [name]) keep) after fun _ copied ↦
      OnlyEntry parent name before copied := by
  unfold cp
  refine Ensures.check_bind (fun _ ↦ h) fun _ _ ↦ ?_
  cases faults.copy with
  | some fault =>
      obtain ⟨message, left⟩ := fault
      rw [ensures_modify_bind, ensures_throw]
      cases left with
      | none => exact h
      | some part => exact h.place part
  | none =>
      rw [ensures_get_bind]
      refine Ensures.check_bind (fun _ ↦ h) fun entry _ ↦ ?_
      refine Ensures.check_bind (fun _ ↦ h) fun copy _ ↦ ?_
      exact ensures_modify.mpr (h.place copy)

theorem ensures_writeNew (h : OnlyEntry parent name before after) (below : String) (data : Buffer) :
    Ensures (writeNew faults (parent ++ [name] ++ [below]) data) after fun _ written ↦
      OnlyEntry parent name before written := by
  unfold writeNew
  rw [ensures_get_bind]
  refine Ensures.check_bind (fun _ ↦ h) fun _ _ ↦ ?_
  cases faults.write with
  | some fault =>
      obtain ⟨message, left⟩ := fault
      rw [ensures_modify_bind, ensures_throw]
      cases left with
      | none => exact h
      | some part => exact h.placeBelow below (.file part)
  | none => exact ensures_modify.mpr (h.placeBelow below (.file data))

theorem ensures_rm (h : OnlyEntry parent name before after) :
    Ensures (rm faults (parent ++ [name])) after fun _ removed ↦ OnlyEntry parent name before removed := by
  unfold rm
  rw [ensures_get_bind]
  split
  · exact ensures_pure.mpr h
  · cases faults.remove with
    | some fault =>
        rw [ensures_modify_bind, ensures_throw]
        exact h.place fault.2
    | none => exact ensures_modify.mpr h.discard

/-- A rename that fails changes nothing. -/
theorem ensures_rename (source target : Path) (fs : FileSystem) :
    Ensures (rename faults source target) fs fun result after ↦
      (∃ message, result = .error message) ∧ after = fs ∨
        result = .ok ⟨⟩ ∧ ∃ entry, find? source fs = some entry ∧
          after = place target entry (discard source fs) := by
  unfold rename
  cases faults.rename with
  | some message => exact .inl ⟨⟨message, rfl⟩, rfl⟩
  | none =>
      rw [ensures_get_bind]
      refine Ensures.check_bind (fun message ↦ .inl ⟨⟨message, rfl⟩, rfl⟩) fun entry hentry ↦ ?_
      refine Ensures.check_bind (fun message ↦ .inl ⟨⟨message, rfl⟩, rfl⟩) fun _ _ ↦ ?_
      exact ensures_modify.mpr (.inr ⟨rfl, entry, present_eq_ok.mp hentry, rfl⟩)

/-- What is left of an attempt to publish a staging directory: it failed and only the staging directory may have been
touched, or what was staged was moved to the destination. -/
def Attempted (parent : Path) (staging destination : String) (before : FileSystem)
    (result : Except String PUnit) (after : FileSystem) : Prop :=
  (∃ message, result = .error message) ∧ OnlyEntry parent staging before after ∨
    result = .ok ⟨⟩ ∧ ∃ middle entry, OnlyEntry parent staging before middle ∧
      find? (parent ++ [staging]) middle = some entry ∧
      after = place (parent ++ [destination]) entry (discard (parent ++ [staging]) middle)

/-- Whatever is done in the staging directory, it is published by the rename or cleaned up. -/
theorem ensures_attempt {staging destination : String} {body : Action FileSystem PUnit}
    (hbody : Ensures body before fun _ middle ↦ OnlyEntry parent staging before middle) :
    Ensures (cleaningUp (rm faults (parent ++ [staging])) do
        body
        rename faults (parent ++ [staging]) (parent ++ [destination])) before
      (Attempted parent staging destination before) := by
  rw [ensures_cleaningUp]
  have hcleaned (message : String) (middle : FileSystem) (h : OnlyEntry parent staging before middle) :
      Ensures (rm faults (parent ++ [staging]) >>= fun _ ↦ throw message) middle
        (Attempted parent staging destination before) :=
    (ensures_rm h).bind (fun other _ hremoved ↦ .inl ⟨⟨other, rfl⟩, hremoved⟩)
      fun _ _ hremoved ↦ ensures_throw.mpr (.inl ⟨⟨message, rfl⟩, hremoved⟩)
  refine hbody.bind hcleaned fun _ middle hmiddle ↦ ?_
  refine (ensures_rename _ _ middle).mono fun result after hrenamed ↦ ?_
  rcases hrenamed with ⟨⟨message, rfl⟩, rfl⟩ | ⟨rfl, entry, hentry, rfl⟩
  · exact hcleaned message after hmiddle
  · exact .inr ⟨rfl, middle, entry, hmiddle, hentry, rfl⟩

/-! ## The source and the destination -/

/-- The leaves of a source are as they were, and a call that stops leaves the destination as it was. -/
structure Keeps {α : Type} (source destination : Path) (before : FileSystem) (result : Except String α)
    (after : FileSystem) : Prop where
  source : ∀ path, leaf? (source ++ path) after = leaf? (source ++ path) before
  destination : (∃ message, result = .error message) → find? destination after = find? destination before

theorem Keeps.refl {α : Type} (source destination : Path) (before : FileSystem)
    (result : Except String α) : Keeps source destination before result before :=
  ⟨fun _ ↦ rfl, fun _ ↦ rfl⟩

theorem not_prefix_dropLast {path : Path} (h : path ≠ []) : ¬ path <+: path.dropLast := by
  intro hstarts
  have hlength := hstarts.length_le
  have hpos := List.length_pos_iff.mpr h
  rw [List.length_dropLast] at hlength
  omega

theorem ne_nil_of_missing {path : Path} {fs : FileSystem} (h : find? path fs = none) : path ≠ [] := by
  rintro rfl
  cases h

theorem OnlyDirectories.keeps {α : Type} {source destination : Path}
    (h : OnlyDirectories destination.dropLast before after) (hmissing : find? destination before = none)
    (result : Except String α) : Keeps source destination before result after :=
  ⟨fun _ ↦ h.leaf _, fun _ ↦ h.beside _ (not_prefix_dropLast (ne_nil_of_missing hmissing))⟩

theorem startsInside_append {source rest : Path} (hsource : source ≠ []) (hrest : rest ≠ []) :
    startsInside source (source ++ rest) = true := by
  cases rest with
  | nil => exact absurd rfl hrest
  | cons name others =>
      rw [startsInside, pathText, if_neg hsource, pathText, if_neg (by simp), String.toList_ofList,
        String.toList_ofList, List.isPrefixOf_iff_prefix, List.flatMap_append, List.flatMap_cons]
      exact ⟨name.toList ++ others.flatMap fun name ↦ '/' :: name.toList, by simp⟩

/-- A destination that starts with its source is refused, unless the source is the root. -/
theorem eq_nil_of_separate {source destination : Path}
    (h : assertSeparateDirectories source destination = .ok ()) (hstarts : source <+: destination) :
    source = [] := by
  obtain ⟨rest, rfl⟩ := hstarts
  rw [assertSeparateDirectories, require_eq_ok, not_or, not_or] at h
  by_contra hsource
  by_cases hrest : rest = []
  · rw [hrest, List.append_nil] at h
    exact h.1 rfl
  · exact h.2.1 (startsInside_append hsource hrest)

/-- A source outside the staging directory and the destination stays when the attempt is over. -/
theorem Attempted.keeps {source : Path} {staging destination : String} {start : FileSystem}
    {result : Except String PUnit} (h : Attempted parent staging destination before result after)
    (hstart : OnlyDirectories parent start before)
    (hparent : ∃ entries, find? parent before = some (.directory entries))
    (hmissing : find? (parent ++ [destination]) start = none) (hfresh : staging ≠ destination)
    (hstaging : ∀ path, ¬ parent ++ [staging] <+: source ++ path)
    (hdestination : ∀ path, ¬ parent ++ [destination] <+: source ++ path) :
    Keeps source (parent ++ [destination]) start result after := by
  obtain ⟨entries, hentries⟩ := hparent
  have hbeside : find? (parent ++ [destination]) before = find? (parent ++ [destination]) start :=
    hstart.beside _ (by simpa using not_prefix_dropLast (ne_nil_of_missing hmissing))
  rcases h with ⟨⟨message, rfl⟩, honly⟩ | ⟨rfl, middle, entry, hmiddle, -, rfl⟩
  · refine ⟨fun path ↦ (honly.leaf hentries (hstaging path)).trans (hstart.leaf _), fun _ ↦ ?_⟩
    rw [← hbeside]
    refine honly.beside _ ?_ (by simpa using not_prefix_dropLast (ne_nil_of_missing hmissing))
    rw [List.prefix_append_right_inj]
    simpa using hfresh
  · refine ⟨fun path ↦ ?_, nofun⟩
    have hdiscarded := hmiddle.discard
    obtain ⟨others, hothers⟩ := hdiscarded.directory
    have hplaced := (@OnlyEntry.refl parent destination _ others hothers).place entry
    rw [hplaced.leaf hothers (hdestination path), hdiscarded.leaf hentries (hstaging path), hstart.leaf]

/-- Nothing stands below a path that is missing. -/
theorem find?_of_missing {path other : Path} {fs : FileSystem} (h : find? path fs = none)
    (hstarts : path <+: other) : find? other fs = none := by
  obtain ⟨rest, rfl⟩ := hstarts
  rw [find?_append, h]
  rfl

/-- A call that stops before it touches the staging directory leaves everything as it was. -/
theorem ensures_attempt_unchanged {staging destination : Path} {body : Action FileSystem PUnit}
    (hbody : Ensures body before fun result middle ↦ (∃ message, result = .error message) ∧ middle = before)
    (hmissing : find? staging before = none) :
    Ensures (cleaningUp (rm faults staging) do
        body
        rename faults staging destination) before
      fun result after ↦ (∃ message, result = .error message) ∧ after = before := by
  rw [ensures_cleaningUp]
  refine hbody.bind (fun message middle hstopped ↦ ?_) fun _ _ hstopped ↦ ?_
  · obtain ⟨-, rfl⟩ := hstopped
    show Ensures (rm faults staging >>= fun _ ↦ throw message) middle _
    have hnothing : Ensures (rm faults staging) middle fun _ removed ↦ removed = middle := by
      unfold rm
      rw [ensures_get_bind, if_pos (by rw [hmissing]; rfl)]
      exact ensures_pure.mpr rfl
    exact hnothing.bind (fun other _ hsame ↦ ⟨⟨other, rfl⟩, hsame⟩) fun _ _ hsame ↦ ⟨⟨message, rfl⟩, hsame⟩
  · obtain ⟨⟨_, hnever⟩, -⟩ := hstopped
    cases hnever

variable {source destination : Path} {start fs : FileSystem} {body : Action FileSystem PUnit}
  {stagingName : String}

/-- Whatever is staged, the source is kept, and so is the destination when the call stops. -/
theorem ensures_transfer (label : String) (hsource : (find? source start).any isDirectory = true)
    (hseparate : assertSeparateDirectories source destination = .ok ())
    (hfresh : joinSibling destination stagingName ≠ destination)
    (hmissing : find? destination start = none)
    (hstart : OnlyDirectories destination.dropLast start fs)
    (hbody : ∀ before, OnlyEntry destination.dropLast stagingName before before →
      Ensures body before fun _ middle ↦ OnlyEntry destination.dropLast stagingName before middle)
    (hroot : source = [] → ∀ before, Ensures body before fun result middle ↦
      (∃ message, result = .error message) ∧ middle = before) :
    Ensures (do
        assertMissing faults (joinSibling destination stagingName) label
        cleaningUp (rm faults (joinSibling destination stagingName)) do
          body
          rename faults (joinSibling destination stagingName) destination) fs
      (Keeps source destination start) := by
  obtain ⟨parent, name, rfl⟩ : ∃ parent name, destination = parent ++ [name] :=
    ⟨_, _, (List.dropLast_append_getLast (ne_nil_of_missing hmissing)).symm⟩
  rw [joinSibling, List.dropLast_concat] at *
  have hdropLast : (parent ++ [stagingName]).dropLast = parent := List.dropLast_concat
  have hfreshName : stagingName ≠ name := fun hsame ↦ hfresh (by rw [hsame])
  have hkeeps {after : FileSystem} {result : Except String PUnit} (h : OnlyDirectories parent start after) :
      Keeps source (parent ++ [name]) start result after :=
    OnlyDirectories.keeps (by rwa [List.dropLast_concat]) hmissing result
  refine (ensures_assertMissing (parent ++ [stagingName]) label fs).bind ?_ ?_
  · rintro message middle (⟨-, rfl⟩ | ⟨-, hmiddle, -⟩)
    · exact hkeeps hstart
    · exact hkeeps (hstart.trans (hdropLast ▸ hmiddle))
  · rintro _ middle (⟨⟨_, hstopped⟩, -⟩ | ⟨hstagingMissing, hmiddle, hmade⟩)
    · cases hstopped
    · rw [hdropLast] at hmiddle hmade
      have hreached := hstart.trans hmiddle
      have hstagingStill : find? (parent ++ [stagingName]) middle = none := by
        rw [hmiddle.beside _ (by simpa using not_prefix_dropLast (ne_nil_of_missing hstagingMissing)),
          hstagingMissing]
      by_cases hnil : source = []
      · refine (ensures_attempt_unchanged (hroot hnil middle) hstagingStill).mono ?_
        rintro result after ⟨-, rfl⟩
        exact hkeeps hreached
      · obtain ⟨entries, hentries⟩ := hmade rfl
        have houtside : ¬ source <+: parent := fun hstarts ↦
          hnil (eq_nil_of_separate hseparate (hstarts.trans (List.prefix_append _ _)))
        have hhere {path : Path} (hpath : find? path middle = none) : ¬ path <+: source := by
          intro hstarts
          rw [← hreached.beside source houtside, find?_of_missing hpath hstarts] at hsource
          cases hsource
        have hbelow {other : String} (hother : find? (parent ++ [other]) middle = none) (path : Path) :
            ¬ parent ++ [other] <+: source ++ path := by
          intro hstarts
          rcases List.prefix_or_prefix_of_prefix hstarts (List.prefix_append source path) with habove | hunder
          · exact hhere hother habove
          · rcases List.prefix_concat_iff.mp hunder with rfl | hparent
            · exact hhere hother (List.prefix_refl _)
            · exact houtside hparent
        have hdestinationStill : find? (parent ++ [name]) middle = none := by
          rw [hreached.beside _ (by simpa using not_prefix_dropLast (ne_nil_of_missing hmissing)), hmissing]
        refine (ensures_attempt (hbody middle (.refl hentries))).mono fun result after h ↦ ?_
        exact h.keeps hreached ⟨entries, hentries⟩ hmissing hfreshName (hbelow hstagingStill)
          (hbelow hdestinationStill)

end PeerHours.Node

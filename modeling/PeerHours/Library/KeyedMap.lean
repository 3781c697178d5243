import PeerHours.Library.Checked

/-!
# Insertion-ordered maps keyed by their values

`upsert key value entries` is `Map.set` on a map whose values carry their own key: an existing
entry is replaced in place and a new one goes to the end. `collect` is the loop that reads a list
into such a map and stops when two entries share a key but differ in content. When the content
determines the value, `collect` returns the distinct values read, and whether it returns depends
only on the set of values read.
-/

namespace KeyedMap

open Checked

variable {α β γ κ : Type} [DecidableEq κ]

/-- Set the entry of the value's own key, in place or at the end. -/
def upsert (key : β → κ) (value : β) : List β → List β
  | [] => [value]
  | entry :: rest => if key entry = key value then value :: rest else entry :: upsert key value rest

/-- The entry stored under a key. -/
def lookup (key : β → κ) (wanted : κ) (entries : List β) : Option β :=
  entries.find? fun entry ↦ decide (key entry = wanted)

variable {key : β → κ}

@[simp] theorem lookup_nil (wanted : κ) : lookup key wanted [] = none := rfl

theorem lookup_cons (wanted : κ) (entry : β) (rest : List β) :
    lookup key wanted (entry :: rest) =
      if key entry = wanted then some entry else lookup key wanted rest := by
  by_cases h : key entry = wanted <;> simp [lookup, h]

theorem lookup_eq_some {wanted : κ} {entries : List β} {entry : β}
    (h : lookup key wanted entries = some entry) : entry ∈ entries ∧ key entry = wanted :=
  ⟨List.mem_of_find?_eq_some h, by simpa using List.find?_some h⟩

theorem lookup_eq_none {wanted : κ} {entries : List β} :
    lookup key wanted entries = none ↔ ∀ entry ∈ entries, key entry ≠ wanted := by
  simp [lookup]

/-- With distinct keys, an entry is found under its own key. -/
theorem lookup_of_mem {entries : List β} (hnodup : (entries.map key).Nodup) {entry : β}
    (hmem : entry ∈ entries) : lookup key (key entry) entries = some entry := by
  induction entries with
  | nil => cases hmem
  | cons head rest ih =>
      rw [List.map_cons, List.nodup_cons] at hnodup
      rw [lookup_cons]
      rcases List.mem_cons.mp hmem with rfl | hmem
      · rw [if_pos rfl]
      · have hne : key head ≠ key entry := fun h ↦ hnodup.1 (h ▸ List.mem_map_of_mem hmem)
        rw [if_neg hne, ih hnodup.2 hmem]

/-- With distinct keys, a key finds exactly the entry that has it. -/
theorem lookup_eq_some_iff {entries : List β} (hnodup : (entries.map key).Nodup) {wanted : κ}
    {entry : β} : lookup key wanted entries = some entry ↔ entry ∈ entries ∧ key entry = wanted := by
  constructor
  · exact lookup_eq_some
  · rintro ⟨hmem, rfl⟩
    exact lookup_of_mem hnodup hmem

/-- Setting an entry is read back under its key and leaves the other keys alone. -/
theorem eq_or_mem_of_mem_upsert {value entry : β} {entries : List β}
    (h : entry ∈ upsert key value entries) : entry = value ∨ entry ∈ entries := by
  induction entries with
  | nil => exact .inl (List.mem_singleton.mp h)
  | cons first rest ih =>
      unfold upsert at h
      split at h
      · rcases List.mem_cons.mp h with rfl | hrest
        · exact .inl rfl
        · exact .inr (List.mem_cons_of_mem _ hrest)
      · rcases List.mem_cons.mp h with rfl | hrest
        · exact .inr List.mem_cons_self
        · exact (ih hrest).imp_right (List.mem_cons_of_mem _)

theorem lookup_upsert (value : β) (entries : List β) (wanted : κ) :
    lookup key wanted (upsert key value entries) =
      if key value = wanted then some value else lookup key wanted entries := by
  induction entries with
  | nil => simp [upsert, lookup_cons]
  | cons entry rest ih =>
      by_cases hsame : key entry = key value
      · by_cases hwanted : key value = wanted <;> simp [upsert, lookup_cons, hsame, hwanted]
      · by_cases hwanted : key value = wanted
        · have hne : key entry ≠ wanted := hwanted ▸ hsame
          simp [upsert, lookup_cons, hne, ih, hwanted]
        · simp [upsert, lookup_cons, hsame, ih, hwanted]

/-- The keys present after setting an entry. -/
theorem map_key_upsert (value : β) (entries : List β) :
    (upsert key value entries).map key =
      if key value ∈ entries.map key then entries.map key else entries.map key ++ [key value] := by
  induction entries with
  | nil => simp [upsert]
  | cons entry rest ih =>
      by_cases hsame : key entry = key value
      · simp [upsert, hsame]
      · have hne : key value ≠ key entry := fun h ↦ hsame h.symm
        by_cases hmem : key value ∈ rest.map key
        · rw [if_pos hmem] at ih
          simp [upsert, hsame, ih, List.mem_map.mp hmem]
        · rw [if_neg hmem] at ih
          have hall : ∀ x ∈ rest, key x ≠ key value := fun x hx h ↦
            hmem (h ▸ List.mem_map_of_mem hx)
          simpa [upsert, hsame, hne, ih] using hall

theorem nodup_upsert {value : β} {entries : List β} (h : (entries.map key).Nodup) :
    ((upsert key value entries).map key).Nodup := by
  rw [map_key_upsert]
  split
  · exact h
  · rename_i hnot
    refine List.nodup_append.mpr ⟨h, by simp, ?_⟩
    rintro a ha b hb rfl
    exact hnot (List.mem_singleton.mp hb ▸ ha)

/-- Setting an entry that is already there, or a fresh one, adds exactly that entry. -/
theorem mem_upsert_of_agrees {value : β} {entries : List β}
    (hagrees : ∀ entry ∈ entries, key entry = key value → entry = value) {entry : β} :
    entry ∈ upsert key value entries ↔ entry = value ∨ entry ∈ entries := by
  induction entries with
  | nil => simp [upsert]
  | cons head rest ih =>
      rw [List.forall_mem_cons] at hagrees
      by_cases hsame : key head = key value
      · rw [upsert, if_pos hsame, hagrees.1 hsame]
        simp
      · rw [upsert, if_neg hsame, List.mem_cons, ih hagrees.2, List.mem_cons]
        tauto

variable [DecidableEq γ]

/-- An entry already under the value's key must have the value's content. -/
def agrees (content : β → γ) (conflict : String) (existing : Option β) (value : β) :
    Except String Unit :=
  match existing with
  | some existing => require (content existing = content value) conflict
  | none => .ok ()

@[simp] theorem agrees_eq_ok {content : β → γ} {conflict : String} {existing : Option β}
    {value : β} {result : Unit} :
    agrees content conflict existing value = .ok result ↔
      ∀ entry, existing = some entry → content entry = content value := by
  cases existing <;> simp [agrees]

/-- One step of `collect`: read the value, compare it with the entry under its key, and set it. -/
def collectStep (key : β → κ) (content : β → γ) (conflict : String) (read : α → Except String β)
    (entries : List β) (source : α) : Except String (List β) := do
  let value ← read source
  agrees content conflict (lookup key (key value) entries) value
  pure (upsert key value entries)

/-- Read a list into a map, stopping when two entries share a key and differ in content. -/
def collect (key : β → κ) (content : β → γ) (conflict : String) (read : α → Except String β)
    (sources : List α) : Except String (List β) :=
  sources.foldlM (collectStep key content conflict read) []

variable {content : β → γ} {conflict : String} {read : α → Except String β}

/-- Content fixes the value among the values that can be read under one key. -/
def Determines (key : β → κ) (content : β → γ) (read : α → Except String β) : Prop :=
  ∀ left right leftValue rightValue, read left = .ok leftValue → read right = .ok rightValue →
    key leftValue = key rightValue → content leftValue = content rightValue → leftValue = rightValue

omit [DecidableEq κ] [DecidableEq γ] in
/-- Content that determines every value determines those that can be read. -/
theorem determines_of_injective (h : ∀ left right : β, content left = content right → left = right) :
    Determines key content read :=
  fun _ _ _ _ _ _ _ hcontent ↦ h _ _ hcontent

/-- A step returns exactly when the value can be read and agrees with the entry of its key. -/
theorem collectStep_eq_ok (hdet : Determines key content read) {entries result : List β}
    (hentries : ∀ entry ∈ entries, ∃ source, read source = .ok entry) {source : α} :
    collectStep key content conflict read entries source = .ok result ↔
      ∃ value, read source = .ok value ∧
        (∀ existing, lookup key (key value) entries = some existing → existing = value) ∧
        upsert key value entries = result := by
  simp only [collectStep, bind_eq_ok, pure_eq_ok, agrees_eq_ok]
  refine exists_congr fun value ↦ and_congr_right fun hread ↦ ?_
  constructor
  · rintro ⟨_, hcontent, hresult⟩
    refine ⟨fun existing hfound ↦ ?_, hresult⟩
    obtain ⟨hmem, hkey⟩ := lookup_eq_some hfound
    obtain ⟨other, hother⟩ := hentries existing hmem
    exact hdet _ _ _ _ hother hread hkey (hcontent existing hfound)
  · rintro ⟨hsame, hresult⟩
    exact ⟨(), fun existing hfound ↦ congrArg content (hsame existing hfound), hresult⟩

/-- The loop from a map with distinct keys: it returns exactly when every value can be read and no
two values with one key differ, the starting entries included; the result holds the starting
entries and the values read. -/
theorem foldlM_collectStep (hdet : Determines key content read) {sources : List α}
    {entries : List β} (hnodup : (entries.map key).Nodup)
    (hentries : ∀ entry ∈ entries, ∃ source, read source = .ok entry) :
    (Succeeds (sources.foldlM (collectStep key content conflict read) entries) ↔
      (∀ source ∈ sources, Succeeds (read source)) ∧
      (∀ source ∈ sources, ∀ value, read source = .ok value →
        (∀ entry ∈ entries, key entry = key value → entry = value) ∧
        ∀ other ∈ sources, ∀ otherValue, read other = .ok otherValue →
          key otherValue = key value → otherValue = value)) ∧
    ∀ result, sources.foldlM (collectStep key content conflict read) entries = .ok result →
      (result.map key).Nodup ∧
      ∀ entry, entry ∈ result ↔ entry ∈ entries ∨ ∃ source ∈ sources, read source = .ok entry := by
  induction sources generalizing entries with
  | nil =>
      refine ⟨by simp [pure, Except.pure], ?_⟩
      intro result h
      cases h
      exact ⟨hnodup, by simp⟩
  | cons source rest ih =>
      have hnext : ∀ {value : β}, read source = .ok value →
          (∀ entry ∈ entries, key entry = key value → entry = value) →
          ∀ entry ∈ upsert key value entries, ∃ source, read source = .ok entry := by
        intro value hread hagrees entry hentry
        rcases (mem_upsert_of_agrees hagrees).mp hentry with rfl | hentry
        · exact ⟨source, hread⟩
        · exact hentries entry hentry
      have agrees_of : ∀ value : β,
          (∀ existing, lookup key (key value) entries = some existing → existing = value) →
          ∀ entry ∈ entries, key entry = key value → entry = value := by
        intro value hlookup entry hentry hkey
        exact hlookup entry (hkey ▸ lookup_of_mem hnodup hentry)
      constructor
      · rw [List.foldlM_cons]
        simp only [Succeeds, bind_eq_ok, collectStep_eq_ok hdet hentries]
        constructor
        · rintro ⟨result, _, ⟨value, hread, hlookup, rfl⟩, hrest⟩
          have hagrees := agrees_of value hlookup
          obtain ⟨hreads, hpairs⟩ :=
            (ih (nodup_upsert hnodup) (hnext hread hagrees)).1.mp ⟨result, hrest⟩
          have hmem := @mem_upsert_of_agrees _ _ _ key value entries hagrees
          refine ⟨List.forall_mem_cons.mpr ⟨⟨value, hread⟩, hreads⟩, ?_⟩
          intro other hother otherValue hotherRead
          rcases List.mem_cons.mp hother with rfl | hother
          · obtain rfl : value = otherValue := by simpa [hread] using hotherRead
            refine ⟨hagrees, ?_⟩
            intro third hthird thirdValue hthirdRead hkey
            rcases List.mem_cons.mp hthird with rfl | hthird
            · simpa [hread] using hthirdRead.symm
            · exact ((hpairs third hthird thirdValue hthirdRead).1 value
                (hmem.mpr (.inl rfl)) hkey.symm).symm
          · obtain ⟨hentries, hothers⟩ := hpairs other hother otherValue hotherRead
            refine ⟨fun entry hentry ↦ hentries entry (hmem.mpr (.inr hentry)), ?_⟩
            intro third hthird thirdValue hthirdRead hkey
            rcases List.mem_cons.mp hthird with rfl | hthird
            · obtain rfl : value = thirdValue := by simpa [hread] using hthirdRead
              exact hentries value (hmem.mpr (.inl rfl)) hkey
            · exact hothers third hthird thirdValue hthirdRead hkey
        · rintro ⟨hreads, hpairs⟩
          rw [List.forall_mem_cons] at hreads
          obtain ⟨⟨value, hread⟩, hreads⟩ := hreads
          have hvalue := hpairs source List.mem_cons_self value hread
          have hmem := @mem_upsert_of_agrees _ _ _ key value entries hvalue.1
          obtain ⟨result, hresult⟩ := (ih (nodup_upsert hnodup) (hnext hread hvalue.1)).1.mpr
            ⟨hreads, by
              intro other hother otherValue hotherRead
              have h := hpairs other (List.mem_cons_of_mem _ hother) otherValue hotherRead
              refine ⟨?_, fun third hthird ↦ h.2 third (List.mem_cons_of_mem _ hthird)⟩
              intro entry hentry hkey
              rcases hmem.mp hentry with rfl | hentry
              · exact h.2 source List.mem_cons_self entry hread hkey
              · exact h.1 entry hentry hkey⟩
          refine ⟨result, _, ⟨value, hread, ?_, rfl⟩, hresult⟩
          intro existing hexisting
          obtain ⟨hin, hkey⟩ := lookup_eq_some hexisting
          exact hvalue.1 existing hin hkey
      · intro result h
        rw [List.foldlM_cons] at h
        simp only [bind_eq_ok, collectStep_eq_ok hdet hentries] at h
        obtain ⟨_, ⟨value, hread, hlookup, rfl⟩, hrest⟩ := h
        have hagrees := agrees_of value hlookup
        obtain ⟨hkeys, hresult⟩ := (ih (nodup_upsert hnodup) (hnext hread hagrees)).2 result hrest
        refine ⟨hkeys, fun entry ↦ ?_⟩
        rw [hresult, mem_upsert_of_agrees hagrees]
        simp only [List.mem_cons, or_and_right, exists_or, exists_eq_left, hread,
          Except.ok.injEq]
        tauto

/-- `collect` returns exactly when every source can be read and no two values read share a key and
differ. -/
theorem succeeds_collect (hdet : Determines key content read) {sources : List α} :
    Succeeds (collect key content conflict read sources) ↔
      (∀ source ∈ sources, Succeeds (read source)) ∧
      ∀ source ∈ sources, ∀ value, read source = .ok value →
        ∀ other ∈ sources, ∀ otherValue, read other = .ok otherValue →
          key otherValue = key value → otherValue = value := by
  rw [collect, (foldlM_collectStep hdet (by simp) (by simp)).1]
  simp

/-- The entries collected are the values read. -/
theorem mem_collect (hdet : Determines key content read) {sources : List α} {result : List β}
    (h : collect key content conflict read sources = .ok result) (entry : β) :
    entry ∈ result ↔ ∃ source ∈ sources, read source = .ok entry := by
  rw [((foldlM_collectStep hdet (by simp) (by simp)).2 result h).2]
  simp

/-- The entries collected have distinct keys. -/
theorem nodup_collect (hdet : Determines key content read) {sources : List α} {result : List β}
    (h : collect key content conflict read sources = .ok result) : (result.map key).Nodup :=
  ((foldlM_collectStep hdet (by simp) (by simp)).2 result h).1

theorem upsert_of_fresh {value : β} {entries : List β} (h : key value ∉ entries.map key) :
    upsert key value entries = entries ++ [value] := by
  induction entries with
  | nil => rfl
  | cons entry rest ih =>
      rw [List.map_cons, List.mem_cons, not_or] at h
      rw [upsert, if_neg (fun hsame ↦ h.1 hsame.symm), ih h.2, List.cons_append]

/-- Assigning entries of new keys appends them. -/
theorem foldl_upsert_of_nodup {object entries : List β} (h : ((object ++ entries).map key).Nodup) :
    entries.foldl (fun object entry ↦ upsert key entry object) object = object ++ entries := by
  induction entries generalizing object with
  | nil => simp
  | cons entry rest ih =>
      have hfresh : key entry ∉ object.map key := by
        rw [List.map_append, List.map_cons] at h
        exact fun hmem ↦ (List.nodup_append.mp h).2.2 _ hmem _ List.mem_cons_self rfl
      rw [List.foldl_cons, upsert_of_fresh hfresh, ih (by simpa using h), List.append_assoc,
        List.singleton_append]

/-- Values with distinct keys, each read back from its own source, are collected in order. -/
theorem collect_map_of_nodup {source : β → α} {values : List β}
    (hread : ∀ value ∈ values, read (source value) = .ok value) (hnodup : (values.map key).Nodup) :
    collect key content conflict read (values.map source) = .ok values := by
  have hloop : ∀ (entries : List β), (∀ value ∈ values, key value ∉ entries.map key) →
      (values.map source).foldlM (collectStep key content conflict read) entries =
        .ok (entries ++ values) := by
    induction values with
    | nil => simp [pure, Except.pure]
    | cons value rest ih =>
        intro entries hfresh
        rw [List.forall_mem_cons] at hread hfresh
        rw [List.map_cons, List.nodup_cons] at hnodup
        have hnone : lookup key (key value) entries = none := by
          rw [lookup_eq_none]
          exact fun entry hentry hkey ↦ hfresh.1 (hkey ▸ List.mem_map_of_mem hentry)
        have hstep : collectStep key content conflict read entries (source value) =
            .ok (entries ++ [value]) := by
          rw [collectStep, hread.1, ok_bind, hnone, upsert_of_fresh hfresh.1]
          rfl
        rw [List.map_cons, List.foldlM_cons, hstep, ok_bind, ih hread.2 hnodup.2]
        · simp
        · intro later hlater hmem
          rw [List.map_append, List.mem_append, List.map_singleton, List.mem_singleton] at hmem
          rcases hmem with hmem | hsame
          · exact hfresh.2 later hlater hmem
          · exact hnodup.1 (hsame ▸ List.mem_map_of_mem hlater)
  have h := hloop [] (by simp)
  rwa [List.nil_append] at h

theorem upsert_of_mem {value : β} {entries : List β} (hnodup : (entries.map key).Nodup)
    (h : value ∈ entries) : upsert key value entries = entries := by
  induction entries with
  | nil => cases h
  | cons entry rest ih =>
      rw [List.map_cons, List.nodup_cons] at hnodup
      cases h with
      | head => rw [upsert, if_pos rfl]
      | tail _ hrest =>
          have hkey : key entry ≠ key value := by
            intro hsame
            exact hnodup.1 (hsame ▸ List.mem_map_of_mem hrest)
          rw [upsert, if_neg hkey, ih hnodup.2 hrest]

/-- Writing an entry that exists replaces it in place. -/
theorem upsert_eq_map {value : β} {entries : List β} (hnodup : (entries.map key).Nodup)
    (h : key value ∈ entries.map key) :
    upsert key value entries =
      entries.map fun entry ↦ if key entry = key value then value else entry := by
  induction entries with
  | nil => cases h
  | cons entry rest ih =>
      rw [List.map_cons, List.nodup_cons] at hnodup
      by_cases hkey : key entry = key value
      · have hrest : ∀ other ∈ rest, key other ≠ key value := by
          intro other hother hsame
          exact hnodup.1 (hkey.trans hsame.symm ▸ List.mem_map_of_mem hother)
        rw [upsert, if_pos hkey, List.map_cons, if_pos hkey,
          List.map_congr_left fun other hother ↦ if_neg (hrest other hother), List.map_id']
      · rw [List.map_cons, List.mem_cons] at h
        rw [upsert, if_neg hkey, List.map_cons, if_neg hkey,
          ih hnodup.2 (h.resolve_left fun hsame ↦ hkey hsame.symm)]

/-- Entries that a loop can reach: their keys are distinct and each was read from a source. -/
structure Collected (key : β → κ) (read : α → Except String β) (entries : List β) : Prop where
  nodup : (entries.map key).Nodup
  readable : ∀ entry ∈ entries, ∃ source, read source = .ok entry

omit [DecidableEq κ] in
theorem Collected.nil : Collected key read [] := ⟨by simp, by simp⟩

omit [DecidableEq κ] in
theorem Collected.concat {entries : List β} (h : Collected key read entries) {source : α}
    {value : β} (hread : read source = .ok value) (hfresh : key value ∉ entries.map key) :
    Collected key read (entries ++ [value]) where
  nodup := by
    rw [List.map_append, List.map_singleton]
    refine List.nodup_append.mpr ⟨h.nodup, by simp, ?_⟩
    intro left hleft right hright hsame
    exact hfresh (List.mem_singleton.mp hright ▸ hsame ▸ hleft)
  readable := by
    intro entry hentry
    rcases List.mem_append.mp hentry with hentry | hentry
    · exact h.readable entry hentry
    · exact ⟨source, List.mem_singleton.mp hentry ▸ hread⟩

omit [DecidableEq κ] in
theorem Collected.filter {entries : List β} (h : Collected key read entries) (keep : β → Bool) :
    Collected key read (entries.filter keep) where
  nodup := h.nodup.sublist (List.filter_sublist.map key)
  readable entry hentry := h.readable entry (List.mem_filter.mp hentry).1

/-- A step keeps the entries when it reads one of them again, and else appends what it reads. -/
theorem collectStep_cases (hdet : Determines key content read) {entries result : List β}
    (hentries : Collected key read entries) {source : α} :
    collectStep key content conflict read entries source = .ok result ↔
      ∃ value, read source = .ok value ∧
        (value ∈ entries ∧ result = entries ∨
          key value ∉ entries.map key ∧ result = entries ++ [value]) := by
  rw [collectStep_eq_ok hdet hentries.readable]
  refine exists_congr fun value ↦ and_congr_right fun hread ↦ ?_
  constructor
  · rintro ⟨hsame, rfl⟩
    by_cases hkey : key value ∈ entries.map key
    · obtain ⟨entry, hentry, hentryKey⟩ := List.mem_map.mp hkey
      have hfound := lookup_of_mem hentries.nodup hentry
      rw [hentryKey] at hfound
      obtain rfl := hsame entry hfound
      exact .inl ⟨hentry, upsert_of_mem hentries.nodup hentry⟩
    · exact .inr ⟨hkey, upsert_of_fresh hkey⟩
  · rintro (⟨hmem, rfl⟩ | ⟨hkey, rfl⟩)
    · refine ⟨fun existing hfound ↦ ?_, upsert_of_mem hentries.nodup hmem⟩
      have hown := lookup_of_mem hentries.nodup hmem
      exact Option.some.inj (hfound.symm.trans hown)
    · refine ⟨fun existing hfound ↦ ?_, upsert_of_fresh hkey⟩
      obtain ⟨hmem, hsame⟩ := lookup_eq_some hfound
      exact absurd (hsame ▸ List.mem_map_of_mem hmem) hkey

theorem Collected.step (hdet : Determines key content read) {entries result : List β}
    (hentries : Collected key read entries) {source : α}
    (h : collectStep key content conflict read entries source = .ok result) :
    Collected key read result := by
  obtain ⟨value, hread, ⟨-, rfl⟩ | ⟨hkey, rfl⟩⟩ := (collectStep_cases hdet hentries).mp h
  · exact hentries
  · exact hentries.concat hread hkey

/-- The loop only appends. -/
theorem exists_fresh_foldlM (hdet : Determines key content read) {sources : List α}
    {entries result : List β} (hentries : Collected key read entries)
    (h : sources.foldlM (collectStep key content conflict read) entries = .ok result) :
    ∃ fresh, result = entries ++ fresh := by
  induction sources generalizing entries with
  | nil => exact ⟨[], by simpa [pure, Except.pure] using h.symm⟩
  | cons source rest ih =>
      rw [List.foldlM_cons] at h
      obtain ⟨next, hnext, hrest⟩ := bind_eq_ok.mp h
      obtain ⟨fresh, hfresh⟩ := ih (hentries.step hdet hnext) hrest
      obtain ⟨value, -, ⟨-, rfl⟩ | ⟨-, rfl⟩⟩ := (collectStep_cases hdet hentries).mp hnext
      · exact ⟨fresh, hfresh⟩
      · exact ⟨value :: fresh, by simp [hfresh]⟩

theorem collected_of_collect (hdet : Determines key content read) {sources : List α}
    {result : List β} (h : collect key content conflict read sources = .ok result) :
    Collected key read result := by
  refine ⟨nodup_collect hdet h, fun entry hentry ↦ ?_⟩
  obtain ⟨source, -, hread⟩ := (mem_collect hdet h entry).mp hentry
  exact ⟨source, hread⟩

/-- Collecting more sources appends the entries that only they hold. -/
theorem collect_append (hdet : Determines key content read) {first second : List α}
    {result : List β} (h : collect key content conflict read (first ++ second) = .ok result) :
    ∃ before fresh, collect key content conflict read first = .ok before ∧
      result = before ++ fresh := by
  rw [collect, List.foldlM_append] at h
  obtain ⟨before, hbefore, h⟩ := bind_eq_ok.mp h
  obtain ⟨fresh, hfresh⟩ := exists_fresh_foldlM hdet (collected_of_collect hdet hbefore) h
  exact ⟨before, fresh, hbefore, hfresh⟩

/-- Collecting one more source of a new key appends its entry. -/
theorem collect_concat (hdet : Determines key content read) {sources : List α} {result : List β}
    (h : collect key content conflict read sources = .ok result) {source : α} {value : β}
    (hread : read source = .ok value) (hfresh : key value ∉ result.map key) :
    collect key content conflict read (sources ++ [source]) = .ok (result ++ [value]) := by
  have hstep : collectStep key content conflict read result source = .ok (result ++ [value]) :=
    (collectStep_cases hdet (collected_of_collect hdet h)).mpr ⟨value, hread, .inr ⟨hfresh, rfl⟩⟩
  rw [collect] at h ⊢
  rw [List.foldlM_append, h, ok_bind, List.foldlM_cons, hstep]
  rfl

/-- Sources that are read as images of the values with the same keys are collected as those images. -/
theorem collect_map {other : α → Except String β} (hdet : Determines key content read)
    (hother : Determines key content other)
    {source : α → α} {image : β → β} (hkey : ∀ value, key (image value) = key value)
    {sources : List α} {result : List β} (h : collect key content conflict read sources = .ok result)
    (hread : ∀ given ∈ sources, ∀ value, read given = .ok value →
      other (source given) = .ok (image value)) :
    collect key content conflict other (sources.map source) = .ok (result.map image) := by
  have hkeys (entries : List β) : (entries.map image).map key = entries.map key := by
    rw [List.map_map]
    exact List.map_congr_left fun entry _ ↦ hkey entry
  have hloop : ∀ (entries : List β), Collected key read entries →
      Collected key other (entries.map image) →
      sources.foldlM (collectStep key content conflict read) entries = .ok result →
      (sources.map source).foldlM (collectStep key content conflict other) (entries.map image) =
        .ok (result.map image) := by
    clear h
    induction sources with
    | nil =>
        intro entries _ _ hresult
        cases hresult
        rfl
    | cons given rest ih =>
        intro entries hentries himages hresult
        rw [List.forall_mem_cons] at hread
        rw [List.foldlM_cons] at hresult
        obtain ⟨next, hnext, hresult⟩ := bind_eq_ok.mp hresult
        obtain ⟨value, hvalue, hcases⟩ := (collectStep_cases hdet hentries).mp hnext
        have himage := hread.1 value hvalue
        have hstep : collectStep key content conflict other (entries.map image) (source given) =
            .ok (next.map image) := by
          refine (collectStep_cases hother himages).mpr ⟨image value, himage, ?_⟩
          rw [hkeys, hkey]
          rcases hcases with ⟨hmem, rfl⟩ | ⟨hfresh, rfl⟩
          · exact .inl ⟨List.mem_map_of_mem hmem, rfl⟩
          · exact .inr ⟨hfresh, by rw [List.map_append]; rfl⟩
        rw [List.map_cons, List.foldlM_cons, hstep, ok_bind]
        exact ih hread.2 next (hentries.step hdet hnext) (himages.step hother hstep) hresult
  exact hloop [] Collected.nil Collected.nil h

section Filter

variable {keepSource : α → Bool} {keep : β → Bool}

/-- A kept source takes the same step on the kept entries; a dropped one changes none of them. -/
theorem filter_collectStep (hdet : Determines key content read) {entries next : List β}
    (hentries : Collected key read entries) {source : α}
    (hkeep : ∀ value, read source = .ok value → keepSource source = keep value)
    (h : collectStep key content conflict read entries source = .ok next) :
    if keepSource source then
      collectStep key content conflict read (entries.filter keep) source = .ok (next.filter keep)
    else next.filter keep = entries.filter keep := by
  obtain ⟨value, hread, hcases⟩ := (collectStep_cases hdet hentries).mp h
  rw [hkeep value hread]
  by_cases hkept : keep value = true
  · rw [if_pos hkept, collectStep_cases hdet (hentries.filter keep)]
    refine ⟨value, hread, ?_⟩
    rcases hcases with ⟨hmem, rfl⟩ | ⟨hfresh, rfl⟩
    · exact .inl ⟨List.mem_filter.mpr ⟨hmem, hkept⟩, rfl⟩
    · refine .inr ⟨fun hmem ↦ hfresh ((List.filter_sublist.map key).subset hmem), ?_⟩
      rw [List.filter_append, List.filter_cons_of_pos hkept, List.filter_nil]
  · rw [if_neg hkept]
    rcases hcases with ⟨-, rfl⟩ | ⟨-, rfl⟩
    · rfl
    · simp [hkept]

/-- Dropping sources drops the entries read from them, and changes nothing else. -/
theorem collect_filter (hdet : Determines key content read) {sources : List α} {result : List β}
    (h : collect key content conflict read sources = .ok result)
    (hkeep : ∀ source ∈ sources, ∀ value, read source = .ok value →
      keepSource source = keep value) :
    collect key content conflict read (sources.filter keepSource) = .ok (result.filter keep) := by
  have hloop : ∀ (entries : List β), Collected key read entries →
      sources.foldlM (collectStep key content conflict read) entries = .ok result →
      (sources.filter keepSource).foldlM (collectStep key content conflict read)
        (entries.filter keep) = .ok (result.filter keep) := by
    clear h
    induction sources with
    | nil =>
        intro entries _ hresult
        cases hresult
        rfl
    | cons source rest ih =>
        intro entries hentries hresult
        rw [List.forall_mem_cons] at hkeep
        rw [List.foldlM_cons] at hresult
        obtain ⟨next, hnext, hresult⟩ := bind_eq_ok.mp hresult
        have hstep := filter_collectStep hdet hentries hkeep.1 hnext
        have hrest := ih hkeep.2 next (hentries.step hdet hnext) hresult
        by_cases hkept : keepSource source = true
        · rw [if_pos hkept] at hstep
          rw [List.filter_cons_of_pos hkept, List.foldlM_cons, hstep, ok_bind, hrest]
        · rw [if_neg hkept] at hstep
          rw [List.filter_cons_of_neg hkept, ← hstep, hrest]
  exact hloop [] Collected.nil h

/-- Collecting more sources appends the entries that collecting them alone gives, without those whose keys are
taken. -/
theorem collect_append_eq (hdet : Determines key content read) {first second : List α}
    {result later : List β}
    (h : collect key content conflict read (first ++ second) = .ok result)
    (hlater : collect key content conflict read second = .ok later) :
    ∃ before, collect key content conflict read first = .ok before ∧
      result = before ++ later.filter fun entry ↦ decide (key entry ∉ before.map key) := by
  obtain ⟨before, fresh, hbefore, rfl⟩ := collect_append hdet h
  refine ⟨before, hbefore, ?_⟩
  let keep : β → Bool := fun entry ↦ decide (key entry ∉ before.map key)
  let keepSource : α → Bool := fun source ↦ ((read source).toOption.map keep).getD true
  have hkeep (source : α) (value : β) (hread : read source = .ok value) :
      keepSource source = keep value := by
    simp only [keepSource, hread, Except.toOption, Option.map_some, Option.getD_some]
  have hnodup := nodup_collect hdet h
  rw [List.map_append, List.nodup_append] at hnodup
  -- of the first sources nothing is kept, and of the entries that the others added everything is
  have hnone : first.filter keepSource = [] := by
    rw [List.filter_eq_nil_iff]
    intro source hsource
    obtain ⟨value, hread⟩ := ((succeeds_collect hdet).mp ⟨before, hbefore⟩).1 source hsource
    have hmem := (mem_collect hdet hbefore value).mpr ⟨source, hsource, hread⟩
    rw [hkeep source value hread]
    simpa [keep] using ⟨value, hmem, rfl⟩
  have hdropped : before.filter keep = [] := by
    rw [List.filter_eq_nil_iff]
    intro entry hentry
    simpa [keep] using ⟨entry, hentry, rfl⟩
  have hall : fresh.filter keep = fresh := by
    rw [List.filter_eq_self]
    intro entry hentry
    refine decide_eq_true fun hmem ↦ ?_
    exact hnodup.2.2 _ hmem _ (List.mem_map_of_mem hentry) rfl
  have hfiltered := @collect_filter _ _ _ _ _ _ _ _ conflict _ _ _ hdet _ _ h
    fun source _ value hread ↦ hkeep source value hread
  have hsecond := @collect_filter _ _ _ _ _ _ _ _ conflict _ _ _ hdet _ _ hlater
    fun source _ value hread ↦ hkeep source value hread
  rw [List.filter_append, hnone, List.nil_append, hsecond, List.filter_append, hdropped,
    List.nil_append, hall, Except.ok.injEq] at hfiltered
  rw [← hfiltered]

end Filter

end KeyedMap

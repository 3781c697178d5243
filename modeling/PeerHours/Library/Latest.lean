import PeerHours.Library.KeyedMap
import Mathlib.Data.List.Induction
import Mathlib.Data.List.Sort

/-!
# The latest value of each key

A fold that keeps, for each key, a value of the highest rank that it has met.
-/

namespace KeyedMap

variable {β κ γ : Type} [DecidableEq κ] [LinearOrder γ] {key : β → κ} {rank : β → γ}

/-- Keeps the value unless one of its key with the same or a higher rank is kept already. -/
def keepLatest (key : β → κ) (rank : β → γ) (entries : List β) (value : β) : List β :=
  match lookup key (key value) entries with
  | none => upsert key value entries
  | some current => if rank current < rank value then upsert key value entries else entries

/-- The entries hold a value of the highest rank for each key of some values. -/
structure Latest (key : β → κ) (rank : β → γ) (values entries : List β) : Prop where
  distinct : (entries.map key).Nodup
  held : ∀ entry ∈ entries, entry ∈ values
  highest : ∀ value ∈ values, ∃ entry ∈ entries, key entry = key value ∧ rank value ≤ rank entry

omit [DecidableEq κ] in
theorem Latest.nil : Latest key rank ([] : List β) [] :=
  ⟨List.nodup_nil, nofun, nofun⟩

/-- Keeping one more value. -/
theorem Latest.keep {values entries : List β} (h : Latest key rank values entries) (value : β) :
    Latest key rank (values ++ [value]) (keepLatest key rank entries value) := by
  have hheld : ∀ entry ∈ entries, entry ∈ values ++ [value] :=
    fun entry hmem ↦ List.mem_append_left _ (h.held entry hmem)
  -- A kept value stays or gives way to one of its key with a higher rank.
  have hreplaced (hhigher : ∀ entry ∈ entries, key entry = key value → rank entry ≤ rank value) :
      Latest key rank (values ++ [value]) (upsert key value entries) := by
    have hfound (wanted : κ) : lookup key wanted (upsert key value entries) =
        if key value = wanted then some value else lookup key wanted entries :=
      lookup_upsert value entries wanted
    refine ⟨nodup_upsert h.distinct, ?_, ?_⟩
    · intro entry hmem
      cases eq_or_mem_of_mem_upsert hmem with
      | inl hnew => exact hnew ▸ List.mem_append_right _ (List.mem_singleton_self _)
      | inr hold => exact hheld entry hold
    · intro other hother
      by_cases hkey : key value = key other
      · have hvalue : value ∈ upsert key value entries :=
          (lookup_eq_some ((hfound (key value)).trans (if_pos rfl))).1
        refine ⟨value, hvalue, hkey, ?_⟩
        cases List.mem_append.mp hother with
        | inl hold =>
            obtain ⟨entry, hmem, hsame, hrank⟩ := h.highest other hold
            exact le_trans hrank (hhigher entry hmem (hsame.trans hkey.symm))
        | inr hnew => rw [List.mem_singleton.mp hnew]
      · cases List.mem_append.mp hother with
        | inl hold =>
            obtain ⟨entry, hmem, hsame, hrank⟩ := h.highest other hold
            have hentry := lookup_of_mem h.distinct hmem
            rw [hsame] at hentry
            exact ⟨entry, (lookup_eq_some ((hfound (key other)).trans
              ((if_neg hkey).trans hentry))).1, hsame, hrank⟩
        | inr hnew => exact absurd (congrArg key (List.mem_singleton.mp hnew)).symm hkey
  unfold keepLatest
  cases hlookup : lookup key (key value) entries with
  | none => exact hreplaced fun entry hmem hsame ↦ absurd hsame (lookup_eq_none.mp hlookup entry hmem)
  | some current =>
      obtain ⟨hcurrent, hkey⟩ := lookup_eq_some hlookup
      dsimp only
      split
      · rename_i hless
        refine hreplaced fun entry hmem hsame ↦ ?_
        have hsameEntry := (lookup_eq_some_iff h.distinct).mpr ⟨hmem, hsame⟩
        rw [hlookup] at hsameEntry
        exact Option.some.inj hsameEntry ▸ le_of_lt hless
      · rename_i hnot
        refine ⟨h.distinct, hheld, fun other hother ↦ ?_⟩
        cases List.mem_append.mp hother with
        | inl hold => exact h.highest other hold
        | inr hnew =>
            rw [List.mem_singleton.mp hnew]
            exact ⟨current, hcurrent, hkey, not_lt.mp hnot⟩

theorem latest_foldl (values : List β) : Latest key rank values (values.foldl (keepLatest key rank) []) := by
  induction values using List.reverseRecOn with
  | nil => exact Latest.nil
  | append_singleton values value ih =>
      rw [List.foldl_append]
      exact ih.keep value

end KeyedMap

import PeerHours.Library.Interleaving
import PeerHours.Library.JsonText

/-!
# Remembered communities

The desktop keeps the communities that it created or joined in one file. `remember` reads the whole list,
replaces the entry of its community and writes the list back; nothing keeps two calls apart.
-/

namespace PeerHours.Desktop

open Json Interleaving

/-! ## The registry -/

/-- A community that this device created or joined, by its verified genesis. -/
structure SavedCommunity where
  genesis : JsonValue
  invitation : JsonValue
  savedAt : String
deriving DecidableEq

/-- The community of a saved entry. -/
def SavedCommunity.communityId (community : SavedCommunity) : Option JsonValue :=
  community.genesis.field "communityId"

/-- What one call of `remember` is given. -/
structure RememberInput where
  genesis : JsonValue
  invitation : JsonValue

/-- The community that a call remembers. -/
def RememberInput.communityId (input : RememberInput) : Option JsonValue :=
  input.genesis.field "communityId"

/-- Where a call of `remember` waits: for the list that it reads, or for its write of the next list. -/
inductive RememberStage where
  | read (input : RememberInput)
  | write (input : RememberInput) (next : List SavedCommunity)

/-- What a waiting call was given. -/
def RememberStage.input : RememberStage → RememberInput
  | .read input => input
  | .write input _ => input

/-- The list with the entry of one community replaced by a new one. -/
def nextCommunities (current : List SavedCommunity) (input : RememberInput) (now : String) :
    List SavedCommunity :=
  current.filter (fun community ↦ decide (community.communityId ≠ input.communityId)) ++
    [{ genesis := input.genesis, invitation := input.invitation, savedAt := now }]

/-- Saves a verified community: a call reads the list, and later writes the list that it made of it. -/
def remember : Resume String RememberStage (List SavedCommunity)
  | now, .read input, stored => (some (.write input (nextCommunities stored input now)), stored)
  | _, .write _ next, _ => (none, next)

/-- The runs of some calls of `remember`, all of them begun, in every order of their reads and writes. -/
abbrev RememberRun (condition : Condition String RememberStage (List SavedCommunity))
    (initial : List SavedCommunity) (inputs : List RememberInput) :
    System RememberStage (List SavedCommunity) → Prop :=
  Run (fun _ ↦ False) remember condition ⟨initial, inputs.map .read⟩

/-- Each community of the initial list and of the calls has one entry, no other community has one, and the
community of a call has the genesis and the invitation of one of its calls. -/
structure Remembers (initial stored : List SavedCommunity) (inputs : List RememberInput) : Prop where
  once : (stored.map (·.communityId)).Nodup
  known : ∀ communityId, communityId ∈ stored.map (·.communityId) ↔
    communityId ∈ initial.map (·.communityId) ∨ communityId ∈ inputs.map (·.communityId)
  given : ∀ entry ∈ stored, entry.communityId ∈ inputs.map (·.communityId) →
    ∃ input ∈ inputs, input.communityId = entry.communityId ∧ entry.genesis = input.genesis ∧
      entry.invitation = input.invitation

/-- A call writes only while the stored list has no entry of another community that its own list lacks: no
other call wrote such an entry since it read. -/
def WritesFresh : Condition String RememberStage (List SavedCommunity)
  | _, .read _, _, _ => True
  | _, .write input next, stored, _ =>
      ∀ entry ∈ stored, entry.communityId ≠ input.communityId → entry ∈ next

/-! ## Reads and writes -/

section Entries

variable {current stored initial : List SavedCommunity} {input : RememberInput} {now : String}

theorem mem_nextCommunities {entry : SavedCommunity} :
    entry ∈ nextCommunities current input now ↔
      entry ∈ current ∧ entry.communityId ≠ input.communityId ∨
        entry = ⟨input.genesis, input.invitation, now⟩ := by
  simp [nextCommunities]

/-- The next list has one entry of the call's community, beside those of the others. -/
theorem nodup_nextCommunities (h : (current.map (·.communityId)).Nodup) :
    ((nextCommunities current input now).map (·.communityId)).Nodup := by
  rw [nextCommunities, List.map_append, List.nodup_append]
  refine ⟨h.sublist (List.filter_sublist.map _), by simp, ?_⟩
  intro left hleft right hright hsame
  obtain ⟨entry, hentry, rfl⟩ := List.mem_map.mp hleft
  have hother := of_decide_eq_true (List.mem_filter.mp hentry).2
  obtain ⟨own, hown, rfl⟩ := List.mem_map.mp hright
  rw [List.mem_singleton.mp hown] at hsame
  exact hother hsame

end Entries

/-- A list that waits to be written has one entry of each community: that of its call, and others of
communities that are known. -/
def WaitsSoundly (initial : List SavedCommunity) (completed : List RememberInput) :
    RememberStage → Prop
  | .read _ => True
  | .write input next => (next.map (·.communityId)).Nodup ∧
      (∃ entry ∈ next, entry.genesis = input.genesis ∧ entry.invitation = input.invitation) ∧
      ∀ entry ∈ next, entry.communityId ≠ input.communityId →
        entry.communityId ∈ initial.map (·.communityId) ∨
          entry.communityId ∈ completed.map (·.communityId)

/-- Some calls have completed and are remembered, and the others wait with sound lists. -/
def CompletesSome (initial : List SavedCommunity) (inputs : List RememberInput)
    (system : System RememberStage (List SavedCommunity)) : Prop :=
  ∃ completed : List RememberInput, inputs.Perm (completed ++ system.pending.map (·.input)) ∧
    Remembers initial system.shared completed ∧
    ∀ stage ∈ system.pending, WaitsSoundly initial completed stage

section Runs

variable {initial stored : List SavedCommunity} {completed inputs : List RememberInput}
  {input : RememberInput} {next : List SavedCommunity} {now : String}

/-- What has completed stays known. -/
theorem WaitsSoundly.mono {stage : RememberStage} (h : WaitsSoundly initial completed stage)
    (later : List RememberInput) : WaitsSoundly initial (completed ++ later) stage := by
  cases stage with
  | read input => trivial
  | write input next =>
      obtain ⟨honce, hown, hothers⟩ := h
      refine ⟨honce, hown, fun entry hentry hne ↦ ?_⟩
      rw [List.map_append, List.mem_append]
      cases hothers entry hentry hne with
      | inl hinitial => exact .inl hinitial
      | inr hcompleted => exact .inr (.inl hcompleted)

/-- A read makes a sound list of what is stored. -/
theorem Remembers.read (h : Remembers initial stored completed) :
    WaitsSoundly initial completed (.write input (nextCommunities stored input now)) := by
  refine ⟨nodup_nextCommunities h.once, ⟨_, mem_nextCommunities.mpr (.inr rfl), rfl, rfl⟩, ?_⟩
  intro entry hentry hne
  cases mem_nextCommunities.mp hentry with
  | inl hstored => exact (h.known _).mp (List.mem_map_of_mem hstored.1)
  | inr hown => exact absurd (by rw [hown]; rfl) hne

/-- The entry of a community is the only one. -/
theorem eq_of_communityId {list : List SavedCommunity} (hnodup : (list.map (·.communityId)).Nodup)
    {left right : SavedCommunity} (hleft : left ∈ list) (hright : right ∈ list)
    (hsame : left.communityId = right.communityId) : left = right :=
  List.inj_on_of_nodup_map hnodup hleft hright hsame

/-- A fresh write completes its call and keeps what other calls wrote. -/
theorem Remembers.write (h : Remembers initial stored completed)
    (hwaits : WaitsSoundly initial completed (.write input next))
    (hfresh : ∀ entry ∈ stored, entry.communityId ≠ input.communityId → entry ∈ next) :
    Remembers initial next (completed ++ [input]) := by
  obtain ⟨honce, ⟨own, hown, hgenesis, hinvitation⟩, hothers⟩ := hwaits
  have hownId : own.communityId = input.communityId := by
    rw [SavedCommunity.communityId, hgenesis, RememberInput.communityId]
  -- what is stored of another community is what the call read of it
  have hkept : ∀ communityId ∈ stored.map (·.communityId), communityId ≠ input.communityId →
      ∃ entry ∈ stored, entry ∈ next ∧ entry.communityId = communityId := by
    intro communityId hstored hne
    obtain ⟨entry, hentry, rfl⟩ := List.mem_map.mp hstored
    exact ⟨entry, hentry, hfresh entry hentry hne, rfl⟩
  refine ⟨honce, fun communityId ↦ ?_, fun entry hentry hknown ↦ ?_⟩
  · rw [List.map_append, List.mem_append, List.map_singleton, List.mem_singleton]
    by_cases hsame : communityId = input.communityId
    · subst hsame
      exact ⟨fun _ ↦ .inr (.inr rfl), fun _ ↦ hownId ▸ List.mem_map_of_mem hown⟩
    · constructor
      · intro hmem
        obtain ⟨entry, hentry, rfl⟩ := List.mem_map.mp hmem
        cases hothers entry hentry hsame with
        | inl hinitial => exact .inl hinitial
        | inr hcompleted => exact .inr (.inl hcompleted)
      · intro hknown
        have hstored : communityId ∈ stored.map (·.communityId) := by
          refine (h.known communityId).mpr ?_
          rcases hknown with hinitial | hcompleted | hown
          · exact .inl hinitial
          · exact .inr hcompleted
          · exact absurd hown hsame
        obtain ⟨entry, -, hentry, rfl⟩ := hkept communityId hstored hsame
        exact List.mem_map_of_mem hentry
  · by_cases hsame : entry.communityId = input.communityId
    · obtain rfl := eq_of_communityId honce hentry hown (hsame.trans hownId.symm)
      exact ⟨input, by simp, hownId.symm, hgenesis, hinvitation⟩
    · rw [List.map_append, List.mem_append, List.map_singleton, List.mem_singleton] at hknown
      have hcompleted := hknown.resolve_right hsame
      obtain ⟨kept, hstored, hnext, hid⟩ :=
        hkept entry.communityId ((h.known _).mpr (.inr hcompleted)) hsame
      obtain rfl := eq_of_communityId honce hnext hentry hid
      obtain ⟨other, hother, hgiven⟩ := h.given kept hstored hcompleted
      exact ⟨other, List.mem_append_left _ hother, hgiven⟩

/-- A step keeps what has completed and completes the call that writes. -/
theorem CompletesSome.step {before after : System RememberStage (List SavedCommunity)}
    (h : CompletesSome initial inputs before)
    (hstep : Step (fun _ ↦ False) remember WritesFresh before after) :
    CompletesSome initial inputs after := by
  obtain ⟨completed, hperm, hremembers, hwaits⟩ := h
  cases hstep with
  | start hentry => exact hentry.elim
  | @resumed now stage stored earlier later hcondition =>
      have hothers : ∀ other ∈ earlier ++ later, WaitsSoundly initial completed other := by
        intro other hother
        refine hwaits other ?_
        simp only [List.mem_append, List.mem_cons] at hother ⊢
        exact hother.elim .inl fun hlater ↦ .inr (.inr hlater)
      cases stage with
      | read input =>
          refine ⟨completed, by simpa [remember, RememberStage.input] using hperm, hremembers,
            fun other hother ↦ ?_⟩
          simp only [remember, Option.toList_some, List.mem_append, List.mem_cons,
            List.not_mem_nil, or_false] at hother
          rcases hother with hearlier | rfl | hlater
          · exact hothers other (List.mem_append_left _ hearlier)
          · exact hremembers.read
          · exact hothers other (List.mem_append_right _ hlater)
      | write input next =>
          have hwaiting : WaitsSoundly initial completed (.write input next) :=
            hwaits (.write input next) (by simp)
          refine ⟨completed ++ [input], ?_, hremembers.write hwaiting hcondition, ?_⟩
          · refine hperm.trans ?_
            simp only [remember, List.map_append, List.map_cons, Option.toList_none, List.nil_append,
              List.append_assoc, RememberStage.input]
            exact List.Perm.append_left completed List.perm_middle
          · intro other hother
            exact (hothers other hother).mono [input]

/-- Runs whose writes are fresh keep every community. -/
theorem completesSome_of_run (hinitial : (initial.map (·.communityId)).Nodup)
    {system : System RememberStage (List SavedCommunity)}
    (hrun : RememberRun WritesFresh initial inputs system) :
    CompletesSome initial inputs system := by
  induction hrun with
  | refl =>
      refine ⟨[], ?_, ⟨hinitial, fun communityId ↦ by simp, fun entry _ hnone ↦ by simp at hnone⟩, ?_⟩
      · simp [Function.comp_def, RememberStage.input]
      · intro stage hstage
        obtain ⟨input, -, rfl⟩ := List.mem_map.mp hstage
        trivial
  | tail _ hstep ih => exact ih.step hstep

end Runs

/-- From a registry without repeated communities, every run whose writes are fresh remembers the communities
of the calls that have completed, in every state that it reaches, and those of all calls once none is
waiting. A write that is not fresh drops or reverts an entry of another community. -/
theorem remember_keeps_communities (initial : List SavedCommunity)
    (hinitial : (initial.map (·.communityId)).Nodup) (inputs : List RememberInput) :
    (∀ system, RememberRun WritesFresh initial inputs system →
      (∃ completed, inputs.Perm (completed ++ system.pending.map (·.input)) ∧
        Remembers initial system.shared completed) ∧
      (system.pending = [] → Remembers initial system.shared inputs)) ∧
    ∀ now input next stored others, ¬ WritesFresh now (.write input next) stored others →
      ∃ entry ∈ stored, entry.communityId ≠ input.communityId ∧
        entry ∉ (remember now (.write input next) stored).2 := by
  constructor
  · intro system hrun
    obtain ⟨completed, hperm, hremembers, -⟩ := completesSome_of_run hinitial hrun
    refine ⟨⟨completed, hperm, hremembers⟩, fun hnone ↦ ?_⟩
    rw [hnone, List.map_nil, List.append_nil] at hperm
    have hids : ∀ communityId, communityId ∈ completed.map (·.communityId) ↔
        communityId ∈ inputs.map (·.communityId) := fun communityId ↦
      (hperm.map (·.communityId)).symm.mem_iff
    refine ⟨hremembers.once, fun communityId ↦ ?_, fun entry hentry hknown ↦ ?_⟩
    · rw [hremembers.known, hids]
    · obtain ⟨input, hinput, hgiven⟩ := hremembers.given entry hentry ((hids _).mpr hknown)
      exact ⟨input, hperm.mem_iff.mpr hinput, hgiven⟩
  · intro now input next stored others hstale
    by_contra hkept
    refine hstale fun entry hentry hother ↦ ?_
    by_contra hlost
    exact hkept ⟨entry, hentry, hother, hlost⟩

/-! ## Two joined communities -/

/-- A call for the community with a repeated digit as its id. -/
def joined (digit : Char) : RememberInput where
  genesis := .obj [("schema", .str "peer-hours/community-genesis/v1"),
    ("communityId", .str (String.ofList (List.replicate 64 digit))),
    ("discoveryKey", .str (String.ofList (List.replicate 64 digit))), ("displayName", .str "Garden"),
    ("location", .null), ("createdAt", .str "2025-06-01T12:00:00.000Z"),
    ("creatorMemberId", .str "phm_ada"), ("creatorRootPublicKeyPem", .str "pem"),
    ("signature", .str "signature")]
  invitation := .obj [("schema", .str "peer-hours/community-invitation/v1"),
    ("communityId", .str (String.ofList (List.replicate 64 digit))),
    ("discoveryKey", .str (String.ofList (List.replicate 64 digit)))]

/-- The saved entry of a call at noon. -/
def joinedAtNoon (digit : Char) : SavedCommunity where
  genesis := (joined digit).genesis
  invitation := (joined digit).invitation
  savedAt := "2025-06-01T12:00:00.000Z"

/-- The first call leaves only its own entry. -/
theorem nextCommunities_nil (digit : Char) :
    nextCommunities [] (joined digit) "2025-06-01T12:00:00.000Z" = [joinedAtNoon digit] := by
  rw [nextCommunities, List.filter_nil, List.nil_append, joinedAtNoon]

/-- The entry of a call is for its community. -/
theorem communityId_joinedAtNoon (digit : Char) :
    (joinedAtNoon digit).communityId = (joined digit).communityId := by
  rw [SavedCommunity.communityId, RememberInput.communityId, joinedAtNoon]

/-- The two calls are for different communities. -/
theorem communityId_joined : (joined 'a').communityId ≠ (joined 'b').communityId := by
  simp [RememberInput.communityId, joined, JsonValue.field]

/-- A call reads the registry and waits with its next list. -/
theorem read_step {condition : Condition String RememberStage (List SavedCommunity)}
    {stored : List SavedCommunity} {digit : Char} (before after : List RememberStage)
    (hcondition : ∀ now others, condition now (.read (joined digit)) stored others) :
    Step (fun _ ↦ False) remember condition ⟨stored, before ++ .read (joined digit) :: after⟩
      ⟨stored, before ++ .write (joined digit)
        (nextCommunities stored (joined digit) "2025-06-01T12:00:00.000Z") :: after⟩ := by
  have hresume : remember "2025-06-01T12:00:00.000Z" (.read (joined digit)) stored =
      (some (.write (joined digit)
        (nextCommunities stored (joined digit) "2025-06-01T12:00:00.000Z")), stored) := by
    rw [remember]
  exact Step.go before after hresume (hcondition _ _)

/-- A call writes its next list. -/
theorem write_step {condition : Condition String RememberStage (List SavedCommunity)}
    {stored next : List SavedCommunity} {digit : Char} (before after : List RememberStage)
    (hcondition : ∀ now others, condition now (.write (joined digit) next) stored others) :
    Step (fun _ ↦ False) remember condition ⟨stored, before ++ .write (joined digit) next :: after⟩
      ⟨next, before ++ after⟩ := by
  have hresume : remember "2025-06-01T12:00:00.000Z" (.write (joined digit) next) stored =
      (none, next) := by rw [remember]
  exact Step.go before after hresume (hcondition _ _)

/-- Both communities are kept when the second call reads what the first wrote. -/
theorem nextCommunities_joinedAtNoon :
    nextCommunities [joinedAtNoon 'a'] (joined 'b') "2025-06-01T12:00:00.000Z" =
      [joinedAtNoon 'a', joinedAtNoon 'b'] := by
  have hkept : [joinedAtNoon 'a'].filter
      (fun community ↦ decide (community.communityId ≠ (joined 'b').communityId)) =
      [joinedAtNoon 'a'] := by
    refine List.filter_eq_self.mpr fun entry hentry ↦ ?_
    rw [List.mem_singleton.mp hentry]
    exact decide_eq_true (communityId_joinedAtNoon 'a' ▸ communityId_joined)
  rw [nextCommunities, hkept]
  rfl

/-- The first call has read the empty registry, and the second has not. -/
theorem remembers_first (condition : Condition String RememberStage (List SavedCommunity))
    (hreads : ∀ now stored others, condition now (.read (joined 'a')) stored others) :
    RememberRun condition [] [joined 'a', joined 'b']
      ⟨[], [.write (joined 'a') [joinedAtNoon 'a'], .read (joined 'b')]⟩ := by
  have hstep := @read_step condition [] 'a' [] [.read (joined 'b')] fun now ↦ hreads now []
  rw [nextCommunities_nil] at hstep
  exact Relation.ReflTransGen.refl.tail hstep

/-- Two communities that are remembered one after the other are both kept. -/
theorem remember_keeps_communities_joined :
    (([] : List SavedCommunity).map (·.communityId)).Nodup ∧
      Remembers [] [joinedAtNoon 'a', joinedAtNoon 'b'] [joined 'a', joined 'b'] := by
  have hfirst := remembers_first WritesFresh fun _ _ _ ↦ trivial
  have hwrite : RememberRun WritesFresh [] [joined 'a', joined 'b']
      ⟨[joinedAtNoon 'a'], [.read (joined 'b')]⟩ :=
    hfirst.tail (write_step [] [.read (joined 'b')] fun _ _ entry hentry ↦
      absurd hentry List.not_mem_nil)
  have hread : RememberRun WritesFresh [] [joined 'a', joined 'b']
      ⟨[joinedAtNoon 'a'], [.write (joined 'b') [joinedAtNoon 'a', joinedAtNoon 'b']]⟩ := by
    have hstep := @read_step WritesFresh [joinedAtNoon 'a'] 'b' [] [] fun _ _ ↦ trivial
    rw [nextCommunities_joinedAtNoon] at hstep
    exact hwrite.tail hstep
  have hlast : RememberRun WritesFresh [] [joined 'a', joined 'b']
      ⟨[joinedAtNoon 'a', joinedAtNoon 'b'], []⟩ :=
    hread.tail (write_step [] [] fun _ _ entry hentry _ ↦ List.mem_cons.mpr
      (.inl (List.mem_singleton.mp hentry)))
  have hruns := remember_keeps_communities [] List.nodup_nil [joined 'a', joined 'b']
  exact ⟨List.nodup_nil, (hruns.1 _ hlast).2 rfl⟩

/-- When both calls read the empty registry before either writes, the first community is lost. -/
theorem remember_loses_community :
    ¬ ∀ (initial : List SavedCommunity), (initial.map (·.communityId)).Nodup →
      ∀ (inputs : List RememberInput) (stored : List SavedCommunity),
        RememberRun (fun _ _ _ _ ↦ True) initial inputs ⟨stored, []⟩ →
        Remembers initial stored inputs := by
  intro h
  have hfirst := remembers_first (fun _ _ _ _ ↦ True) fun _ _ _ ↦ trivial
  have hboth : RememberRun (fun _ _ _ _ ↦ True) [] [joined 'a', joined 'b']
      ⟨[], [.write (joined 'a') [joinedAtNoon 'a'], .write (joined 'b') [joinedAtNoon 'b']]⟩ := by
    have hstep := @read_step (fun _ _ _ _ ↦ True) [] 'b' [.write (joined 'a') [joinedAtNoon 'a']]
      [] fun _ _ ↦ trivial
    rw [nextCommunities_nil] at hstep
    exact hfirst.tail hstep
  have hwritten : RememberRun (fun _ _ _ _ ↦ True) [] [joined 'a', joined 'b']
      ⟨[joinedAtNoon 'a'], [.write (joined 'b') [joinedAtNoon 'b']]⟩ :=
    hboth.tail (write_step [] _ fun _ _ ↦ trivial)
  have hover : RememberRun (fun _ _ _ _ ↦ True) [] [joined 'a', joined 'b']
      ⟨[joinedAtNoon 'b'], []⟩ := hwritten.tail (write_step [] [] fun _ _ ↦ trivial)
  have hremembers := h [] List.nodup_nil _ _ hover
  have hmissing : (joined 'a').communityId ∈ [joinedAtNoon 'b'].map (·.communityId) :=
    (hremembers.known _).mpr (.inr (List.mem_map_of_mem List.mem_cons_self))
  rw [List.map_cons, List.map_nil, List.mem_singleton, communityId_joinedAtNoon] at hmissing
  exact communityId_joined hmissing

end PeerHours.Desktop

import PeerHours.Desktop.FeedGrowth
import PeerHours.Desktop.PendingEffects

/-!
# Runs of interleaved calls

Two calls that may append records of one id hold one slot, and no two pending calls hold the same slot. So
a feed keeps one envelope for each id wherever the calls that no guard stops find what they are about to
append missing from the feed.
-/

namespace PeerHours.Desktop

open Checked Interleaving Json
open TimebankIdentity
open TimebankRecords

variable {crypto : Crypto}

/-! ## The condition -/

/-- What no guard of the service ensures: a closure, an acceptance and an attestation are appended only
where the feed has none, and no two calls that accept one proposal wait for the feed together. -/
structure CoveredCall (context : CallContext crypto) (waiting : Waiting crypto)
    (service : GuardedService crypto) (others : List (Waiting crypto)) : Prop where
  closure : ∀ communityId input, waiting = .readIdentity communityId (.closeListing input) →
    input.listing.id ∉ service.listingClosuresInProgress →
    ∀ record, Contains service.records record → record.id ≠ closedListingRecordId input.listing.id
  acceptance : ∀ communityId input, waiting = .readIdentity communityId (.acceptProposal input) →
    (∀ record, Contains service.records record →
      record.id ≠ proposalRecordId "accepted" input.proposal.id) ∧
    ∀ source, .append source (.accepted input.proposal.id) ∉ others
  attestation : ∀ communityId input, waiting = .readIdentity communityId (.advanceSettlement input) →
    input.proposal.id ∉ service.settlementAdvancementsInProgress →
    ∀ root, service.root? = some root →
    (∃ record, Contains service.records record ∧
      record.id = input.proposal.id ++ "/settlement-attestation/" ++ root.memberId) →
    ∃ container ∈ input.attestations, container.attestation.memberId = root.memberId

/-! ## The invariant -/

/-- An envelope that is named like a settlement transfer carries one. -/
def CarriesSettlement (record : RecordEnvelope) : Prop :=
  ∀ proposalId, record.id = proposalId ++ "/settlement" →
    ∃ transfer, ledgerTransferRecords.Carries record transfer

/-- A feed whose ids name one envelope each, and whose settlement ids name transfers. -/
structure SoundFeed (records : List JsonValue) : Prop where
  consistent : Consistent records
  settlements : ∀ record, Contains records record → CarriesSettlement record

/-- A waiting call whose slot is guarded, and whose record the feed lacks. -/
structure SoundWaiting (service : GuardedService crypto) (waiting : Waiting crypto) : Prop where
  guarded : ∀ slot, waiting.slot? = some slot → service.Guards slot
  advancement : ∀ advancement ∈ waiting.advancement?, advancement.Sound
  appends : ∀ source next, waiting = .append source next →
    ∃ record, createRecordEnvelope source = .ok record ∧ next.slot.Names crypto record.id ∧
      CarriesSettlement record ∧ ∀ other, Contains service.records other → other.id ≠ record.id
  read : ∀ records advancement, waiting = .recordsRead records advancement →
    ∀ other, Contains service.records other →
      other.id = advancement.input.proposal.id ++ "/settlement" →
      hasLedgerTransfer records advancement.terms.id = true

/-- Two waiting calls hold different slots. -/
def DifferentSlots (left right : Waiting crypto) : Prop :=
  ∀ slot, left.slot? = some slot → right.slot? ≠ some slot

variable (crypto) in
/-- What interleaved calls keep. -/
def feedInvariant : Invariant (Waiting crypto) (GuardedService crypto) where
  shared service := SoundFeed service.records
  waiting := SoundWaiting
  apart := DifferentSlots

theorem DifferentSlots.symm {left right : Waiting crypto} (h : DifferentSlots left right) :
    DifferentSlots right left :=
  fun slot hright hleft ↦ h slot hleft hright

theorem DifferentSlots.of_none {left right : Waiting crypto} (h : left.slot? = none) :
    DifferentSlots left right := by
  intro slot hslot
  rw [h] at hslot
  exact absurd hslot (by simp)

/-- A call keeps clear of what another call with the same slot keeps clear of. -/
theorem DifferentSlots.of_slot {left other right : Waiting crypto} (h : DifferentSlots left right)
    (hslot : ∀ slot, other.slot? = some slot → left.slot? = some slot) : DifferentSlots other right :=
  fun slot hother ↦ h slot (hslot slot hother)

/-! ## Guards -/

variable {service after : GuardedService crypto} {waiting other : Waiting crypto} {slot taken : Slot}

theorem GuardedService.guards_take (h : service.Guards slot) : (service.take taken).Guards slot := by
  cases slot with
  | closure listingId =>
      cases taken with
      | closure => exact List.mem_cons_of_mem _ h
      | acceptance => exact h
      | advancement => exact h
  | acceptance => trivial
  | advancement proposalId =>
      cases taken with
      | closure => exact h
      | acceptance => exact h
      | advancement => exact List.mem_cons_of_mem _ h

theorem GuardedService.take_guards : (service.take slot).Guards slot := by
  cases slot with
  | closure => exact List.mem_cons_self
  | acceptance => trivial
  | advancement => exact List.mem_cons_self

theorem GuardedService.guards_release (h : service.Guards slot) (hne : slot ≠ taken) :
    (service.release taken).Guards slot := by
  cases slot with
  | closure listingId =>
      cases taken with
      | closure other =>
          refine List.mem_filter.mpr ⟨h, decide_eq_true fun hsame ↦ hne ?_⟩
          rw [hsame]
      | acceptance => exact h
      | advancement => exact h
  | acceptance => trivial
  | advancement proposalId =>
      cases taken with
      | closure => exact h
      | acceptance => exact h
      | advancement other =>
          refine List.mem_filter.mpr ⟨h, decide_eq_true fun hsame ↦ hne ?_⟩
          rw [hsame]

@[simp] theorem GuardedService.records_take : (service.take taken).records = service.records := by
  cases taken <;> rfl

@[simp] theorem GuardedService.records_release :
    (service.release taken).records = service.records := by
  cases taken <;> rfl

/-- What is admitted is not guarded yet, where there is a guard. -/
theorem GuardedService.not_guards (hadmits : service.Admits slot)
    (hslot : ∀ proposalId, slot ≠ .acceptance proposalId) : ¬ service.Guards slot := by
  cases slot with
  | closure => exact hadmits
  | acceptance proposalId => exact absurd rfl (hslot proposalId)
  | advancement => exact hadmits

/-! ## One step -/

/-- A call stays sound while the records stay and its slot stays guarded. -/
theorem SoundWaiting.of_records (h : SoundWaiting service waiting)
    (hrecords : after.records = service.records)
    (hguards : ∀ slot, waiting.slot? = some slot → after.Guards slot) : SoundWaiting after waiting where
  guarded := hguards
  advancement := h.advancement
  appends source next hwaiting := by
    rw [hrecords]
    exact h.appends source next hwaiting
  read := by
    rw [hrecords]
    exact h.read

theorem SoundWaiting.take (h : SoundWaiting service waiting) :
    SoundWaiting (service.take taken) waiting :=
  h.of_records GuardedService.records_take fun slot hslot ↦
    GuardedService.guards_take (h.guarded slot hslot)

theorem SoundWaiting.release (h : SoundWaiting service waiting) (hne : waiting.slot? ≠ some taken) :
    SoundWaiting (service.release taken) waiting :=
  h.of_records GuardedService.records_release fun slot hslot ↦
    GuardedService.guards_release (h.guarded slot hslot) fun hsame ↦ hne (hsame ▸ hslot)

/-- A call stays sound while a call with another slot appends its record. -/
theorem SoundWaiting.concat (h : SoundWaiting service other) {source : JsonValue}
    {record : RecordEnvelope} (hcreate : createRecordEnvelope source = .ok record)
    (hnames : slot.Names crypto record.id) (hne : other.slot? ≠ some slot) :
    SoundWaiting { service with records := service.records ++ [source] } other where
  guarded := h.guarded
  advancement := h.advancement
  appends otherSource next hwaiting := by
    obtain ⟨otherRecord, hother, hotherNames, hcarries, hfresh⟩ :=
      h.appends otherSource next hwaiting
    refine ⟨otherRecord, hother, hotherNames, hcarries, fun present hpresent ↦ ?_⟩
    cases (contains_concat hcreate).mp hpresent with
    | inl hearlier => exact hfresh present hearlier
    | inr hnew =>
        intro hid
        rw [hnew] at hid
        have hsame := hnames.unique (hid ▸ hotherNames)
        refine hne ?_
        rw [hwaiting, hsame]
        rfl
  read records advancement hwaiting present hpresent hid := by
    cases (contains_concat hcreate).mp hpresent with
    | inl hearlier => exact h.read records advancement hwaiting present hearlier hid
    | inr hnew =>
        -- the new record would be the transfer of this call's proposal
        rw [hnew] at hid
        have hsame := hnames.unique (hid ▸ Slot.Names.settled advancement.input.proposal.id)
        refine absurd ?_ hne
        rw [hwaiting, hsame]
        rfl

theorem Waiting.slot?_appended {succeeded : Bool} {next : AfterAppend crypto}
    (h : (Waiting.appended succeeded next).slot? = some slot) : next.slot = slot := by
  cases next with
  | accepted => exact absurd h (by simp [Waiting.slot?])
  | closed => exact Option.some.inj h
  | attested => exact Option.some.inj h
  | transferred => exact Option.some.inj h

theorem Waiting.advancement?_appended {succeeded : Bool} {next : AfterAppend crypto}
    {source : JsonValue} :
    (Waiting.appended succeeded next).advancement? = (Waiting.append source next).advancement? := by
  cases next <;> rfl

/-- Only a call that waits for the feed holds the slot of an acceptance. -/
theorem Waiting.eq_append_of_acceptance {proposalId : String}
    (h : waiting.slot? = some (.acceptance proposalId)) :
    ∃ source, waiting = .append source (.accepted proposalId) := by
  cases waiting with
  | readIdentity => exact absurd h (by simp [Waiting.slot?])
  | append source next =>
      cases next with
      | accepted other =>
          obtain rfl : other = proposalId := by simpa [Waiting.slot?, AfterAppend.slot] using h
          exact ⟨source, rfl⟩
      | closed => exact absurd h (by simp [Waiting.slot?, AfterAppend.slot])
      | attested => exact absurd h (by simp [Waiting.slot?, AfterAppend.slot])
      | transferred => exact absurd h (by simp [Waiting.slot?, AfterAppend.slot])
  | appended succeeded next =>
      cases next with
      | accepted => exact absurd h (by simp [Waiting.slot?])
      | closed => exact absurd h (by simp [Waiting.slot?, AfterAppend.slot])
      | attested => exact absurd h (by simp [Waiting.slot?, AfterAppend.slot])
      | transferred => exact absurd h (by simp [Waiting.slot?, AfterAppend.slot])
  | readRecords => exact absurd h (by simp [Waiting.slot?])
  | recordsRead => exact absurd h (by simp [Waiting.slot?])

/-- A record that ends in another word than a settlement carries what it likes. -/
theorem carriesSettlement_of_segments {record : RecordEnvelope} {stem last : String}
    (h : Segments record.id stem last) (hne : last ≠ "settlement") : CarriesSettlement record := by
  intro proposalId hid
  have hsegments := segments_settlementId proposalId
  rw [← hid] at hsegments
  exact absurd (h.unique hsegments).2 hne

/-- A transfer that the feed has under its id is found. -/
theorem hasLedgerTransfer_of_contains {records : List JsonValue} {record : RecordEnvelope}
    (hcontains : Contains records record) {transfer : TimebankLedger.Transfer}
    (hcarries : ledgerTransferRecords.Carries record transfer) :
    hasLedgerTransfer records record.id = true := by
  obtain ⟨source, hsource, hcreate⟩ := hcontains
  have hdecode : decodeLedgerTransferRecord source = .ok transfer :=
    (RecordKind.decode_eq_ok hcreate).mpr hcarries
  refine List.any_eq_true.mpr ⟨source, hsource, ?_⟩
  rw [hdecode]
  exact decide_eq_true hcarries.id.symm

/-- A call that takes an admitted slot holds it alone. -/
theorem differentSlots_of_admits (hadmits : service.Admits slot)
    (hslot : ∀ proposalId, slot ≠ .acceptance proposalId) {next : Waiting crypto}
    (hnext : next.slot? = some slot) (hother : SoundWaiting service other) :
    DifferentSlots next other := by
  intro held hheld hotherSlot
  obtain rfl : slot = held := Option.some.inj (hnext.symm.trans hheld)
  exact GuardedService.not_guards hadmits hslot (hother.guarded slot hotherSlot)

variable {localeCompare : String → String → Ordering}

/-- What a covered step leaves behind: a sound feed, and sound calls with slots of their own. -/
structure SoundAfter (others : List (Waiting crypto)) (next : Option (Waiting crypto))
    (after : GuardedService crypto) : Prop where
  feed : SoundFeed after.records
  next : ∀ waiting ∈ next, SoundWaiting after waiting ∧
    ∀ other ∈ others, DifferentSlots waiting other
  others : ∀ other ∈ others, SoundWaiting after other

theorem SoundAfter.ended {others : List (Waiting crypto)} (hfeed : SoundFeed after.records)
    (hothers : ∀ other ∈ others, SoundWaiting after other) : SoundAfter others none after where
  feed := hfeed
  next _ hnext := absurd hnext (by simp)
  others := hothers

theorem SoundAfter.waits {others : List (Waiting crypto)} {next : Waiting crypto}
    (hfeed : SoundFeed after.records) (hnext : SoundWaiting after next)
    (hapart : ∀ other ∈ others, DifferentSlots next other)
    (hothers : ∀ other ∈ others, SoundWaiting after other) :
    SoundAfter others (some next) after where
  feed := hfeed
  next waiting hwaiting := by
    obtain rfl := Option.some.inj hwaiting
    exact ⟨hnext, hapart⟩
  others := hothers

/-- A call that takes its slot with a record that the feed lacks is sound. -/
theorem SoundWaiting.of_append {source : JsonValue} {next : AfterAppend crypto}
    {record : RecordEnvelope} (hguards : service.Guards next.slot)
    (hadvancement : ∀ advancement, next = .attested advancement → advancement.Sound)
    (hcreate : createRecordEnvelope source = .ok record) (hnames : next.slot.Names crypto record.id)
    (hcarries : CarriesSettlement record)
    (hfresh : ∀ other, Contains service.records other → other.id ≠ record.id) :
    SoundWaiting service (.append source next) where
  guarded slot hslot := Option.some.inj hslot ▸ hguards
  advancement advancement hmem := by
    cases next with
    | attested own => exact hadvancement advancement (congrArg _ (Option.some.inj hmem))
    | closed => exact absurd hmem (by simp [Waiting.advancement?])
    | accepted => exact absurd hmem (by simp [Waiting.advancement?])
    | transferred => exact absurd hmem (by simp [Waiting.advancement?])
  appends _ _ hsame := by
    injection hsame with hsource hnext
    subst hsource hnext
    exact ⟨record, hcreate, hnames, hcarries, hfresh⟩
  read _ _ hsame := by injection hsame

/-- A call that begins is sound. -/
theorem SoundWaiting.of_begins {communityId : Option String} {operation : GuardedOperation} :
    SoundWaiting service (.readIdentity communityId operation : Waiting crypto) where
  guarded _ hslot := by injection hslot
  advancement _ hmem := by injection hmem
  appends _ _ hsame := by injection hsame
  read _ _ hsame := by injection hsame

/-- A call that goes on from the feed's answer is sound. -/
theorem SoundWaiting.of_appended {source : JsonValue} {next : AfterAppend crypto} {succeeded : Bool}
    (h : SoundWaiting service (.append source next)) (hguards : ∀ slot, service.Guards slot →
      after.Guards slot) : SoundWaiting after (.appended succeeded next) where
  guarded slot hslot := hguards slot (h.guarded slot (congrArg some (Waiting.slot?_appended hslot)))
  advancement := by
    rw [@Waiting.advancement?_appended _ succeeded next source]
    exact h.advancement
  appends _ _ hsame := by injection hsame
  read _ _ hsame := by injection hsame

/-- A call that is about to read the feed is sound. -/
theorem SoundWaiting.of_readRecords {advancement : Advancement crypto}
    (hguards : service.Guards (.advancement advancement.input.proposal.id))
    (hsound : advancement.Sound) : SoundWaiting service (.readRecords advancement) where
  guarded slot hslot := Option.some.inj hslot ▸ hguards
  advancement _ hmem := Option.some.inj hmem ▸ hsound
  appends _ _ hsame := by injection hsame
  read _ _ hsame := by injection hsame

/-- Every covered effect leaves sound calls behind. -/
theorem CallEffect.soundAfter {context : CallContext crypto} {others : List (Waiting crypto)}
    {next : Option (Waiting crypto)} (heffect : CallEffect waiting service next after)
    (hcovered : CoveredCall context waiting service others) (hfeed : SoundFeed service.records)
    (hwaiting : SoundWaiting service waiting)
    (hothers : ∀ other ∈ others, SoundWaiting service other ∧ DifferentSlots waiting other) :
    SoundAfter others next after := by
  have hrest := fun other hother ↦ (hothers other hother).1
  cases heffect with
  | stopped => exact .ended hfeed hrest
  | closing communityId input source record hread hadmits hcreate hid =>
      refine .waits (GuardedService.records_take.symm ▸ hfeed) ?_
        (fun other hother ↦ differentSlots_of_admits hadmits (by simp) rfl (hrest other hother))
        fun other hother ↦ (hrest other hother).take
      refine .of_append GuardedService.take_guards (fun _ hsame ↦ by injection hsame) hcreate
        (hid ▸ .closed input.listing.id) ?_ ?_
      · exact carriesSettlement_of_segments (hid ▸ segments_closedListingRecordId _) (by decide)
      · rw [GuardedService.records_take, hid]
        exact hcovered.closure communityId input hread hadmits
  | accepting communityId input source record hread hcreate hid =>
      obtain ⟨hfresh, halone⟩ := hcovered.acceptance communityId input hread
      refine .waits hfeed ?_ (fun other hother ↦ ?_) hrest
      · refine .of_append trivial (fun _ hsame ↦ by injection hsame) hcreate
          (hid ▸ .accepted input.proposal.id) ?_ (hid ▸ hfresh)
        exact carriesSettlement_of_segments (hid ▸ segments_acceptedRecordId _) (by decide)
      · intro slot hslot hotherSlot
        obtain rfl := Option.some.inj hslot
        obtain ⟨otherSource, rfl⟩ := Waiting.eq_append_of_acceptance hotherSlot
        exact halone otherSource hother
  | attesting communityId input advancement root source record hread hadmits hroot hnone hinput
      hsound hcreate hid =>
      subst hinput
      refine .waits (GuardedService.records_take.symm ▸ hfeed) ?_
        (fun other hother ↦ differentSlots_of_admits hadmits (by simp) rfl (hrest other hother))
        fun other hother ↦ (hrest other hother).take
      refine .of_append GuardedService.take_guards (fun own hown ↦ ?_) hcreate
        (hid ▸ .attested advancement.input.proposal.id root.rootPublicKey) ?_ ?_
      · injection hown with hown
        exact hown ▸ hsound
      · exact carriesSettlement_of_segments (hid ▸ segments_attestationId _ _)
          (selfOwnedMemberId_ne (by decide) _)
      · intro present hpresent hsame
        rw [GuardedService.records_take] at hpresent
        -- an attestation that the feed has is among those supplied
        obtain ⟨container, hcontainer, hmember⟩ := hcovered.attestation communityId
          advancement.input hread hadmits root hroot ⟨present, hpresent, hsame.trans hid⟩
        exact hnone container hcontainer hmember
  | attested communityId input advancement hread hadmits hinput hsound =>
      subst hinput
      exact .waits (GuardedService.records_take.symm ▸ hfeed)
        (.of_readRecords GuardedService.take_guards hsound)
        (fun other hother ↦ differentSlots_of_admits hadmits (by simp) rfl (hrest other hother))
        fun other hother ↦ (hrest other hother).take
  | refused source next hread =>
      subst hread
      refine .waits hfeed (hwaiting.of_appended fun _ hguards ↦ hguards) (fun other hother ↦ ?_) hrest
      exact (hothers other hother).2.of_slot fun slot hslot ↦
        congrArg some (Waiting.slot?_appended hslot)
  | taken source next hread =>
      subst hread
      obtain ⟨record, hcreate, hnames, hcarries, hfresh⟩ := hwaiting.appends source next rfl
      refine .waits ⟨hfeed.consistent.concat hcreate hfresh, fun present hpresent ↦ ?_⟩
        (hwaiting.of_appended fun _ hguards ↦ hguards) (fun other hother ↦ ?_) fun other hother ↦ ?_
      · cases (contains_concat hcreate).mp hpresent with
        | inl hearlier => exact hfeed.settlements present hearlier
        | inr hnew => exact hnew ▸ hcarries
      · exact (hothers other hother).2.of_slot fun slot hslot ↦
          congrArg some (Waiting.slot?_appended hslot)
      · exact (hrest other hother).concat hcreate hnames ((hothers other hother).2 next.slot rfl)
  | released slot hslot =>
      exact .ended (GuardedService.records_release.symm ▸ hfeed) fun other hother ↦
        (hrest other hother).release ((hothers other hother).2 slot hslot)
  | collected advancement hread =>
      subst hread
      exact .waits hfeed (.of_readRecords (hwaiting.guarded _ rfl) (hwaiting.advancement _ rfl))
        (fun other hother ↦ (hothers other hother).2.of_slot fun _ hslot ↦ hslot) hrest
  | read advancement hread =>
      subst hread
      have hsound := hwaiting.advancement advancement rfl
      refine .waits hfeed ⟨hwaiting.guarded, hwaiting.advancement, ?_, ?_⟩
        (fun other hother ↦ (hothers other hother).2.of_slot fun _ hslot ↦ hslot) hrest
      · intro _ _ hsame
        injection hsame
      · intro records own hsame present hpresent hid
        injection hsame with hrecords hown
        subst hrecords hown
        obtain ⟨transfer, hcarries⟩ := hfeed.settlements present hpresent _ hid
        rw [hsound.terms]
        show hasLedgerTransfer service.records (advancement.input.proposal.id ++ "/settlement") = true
        rw [← hid]
        exact hasLedgerTransfer_of_contains hpresent hcarries
  | settling records advancement source record transfer hread hnone hcreate hcarries hterms =>
      subst hread
      have hid : record.id = advancement.input.proposal.id ++ "/settlement" := by
        have hrecord : record.id = transfer.toTransferTerms.id := hcarries.id
        rw [hrecord, hterms, (hwaiting.advancement advancement rfl).terms]
        rfl
      refine .waits hfeed ?_
        (fun other hother ↦ (hothers other hother).2.of_slot fun _ hslot ↦ hslot) hrest
      refine .of_append (hwaiting.guarded _ rfl) (fun _ hsame ↦ by injection hsame) hcreate
        (hid ▸ .settled _)
        (fun _ _ ↦ ⟨transfer, hcarries⟩) fun present hpresent hsame ↦ ?_
      have hfound := hwaiting.read records advancement rfl present hpresent (hsame.trans hid)
      exact absurd (hnone.symm.trans hfound) (by decide)

/-- Every covered step keeps the invariant. -/
theorem feedInvariant_kept :
    (feedInvariant crypto).Kept Begins (resumeCall localeCompare) CoveredCall where
  symm := DifferentSlots.symm
  start service waiting hentry := by
    cases hentry with
    | intro communityId operation =>
        exact ⟨SoundWaiting.of_begins, fun other ↦ .of_none rfl⟩
  resumed context waiting service others hcovered hfeed hwaiting hothers := by
    have heffect := @resumeCall_effect _ context localeCompare service waiting hwaiting.advancement
    have hafter := heffect.soundAfter hcovered hfeed hwaiting hothers
    exact ⟨hafter.feed, hafter.next, hafter.others⟩

end PeerHours.Desktop

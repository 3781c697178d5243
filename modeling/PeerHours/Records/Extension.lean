import PeerHours.Records.Authorizations
import PeerHours.Records.FeedResolution
import PeerHours.Records.Standing

/-!
# Resolution of an extended history

What a resolution keeps when its records grow. Reduction sorts the new envelopes among the old ones,
so a selection that no new envelope meets is unchanged, and an envelope later than all others stands
last. A later step sees the records of one kind only; when those of every domain kind and the
authorizations are unchanged, so is the resolved state.
-/

namespace PeerHours.TimebankRecords

open Checked Json KeyedMap Sorting
open TimebankIdentity

variable {crypto : Crypto} {communityId : String} {localeCompare : String → String → Ordering}

/-! ## Reduced envelopes -/

theorem reduceRecordEnvelopes_eq_ok {records : List JsonValue} {result : List RecordEnvelope} :
    reduceRecordEnvelopes localeCompare records = .ok result ↔
      ∃ recordsById, collect (·.id) canonicalRecordEnvelope
          "Conflicting record envelopes share the same record id." createRecordEnvelope records =
            .ok recordsById ∧
        sortBy (compareRecords localeCompare) recordsById = result := by
  simp only [reduceRecordEnvelopes, bind_eq_ok, pure_eq_ok]

section Reduction

variable [Std.TransCmp localeCompare]

/-- The community's share of the reduced envelopes. -/
def communityRecordsOf (communityId : String) (normalizedRecords : List RecordEnvelope) :
    List RecordEnvelope :=
  normalizedRecords.filter fun record ↦ decide (record.communityId = communityId)

/-- A selection that no new envelope meets is unchanged. -/
theorem filter_reduceRecordEnvelopes_append {first second : List JsonValue}
    {larger normalized : List RecordEnvelope}
    (hlarger : reduceRecordEnvelopes localeCompare (first ++ second) = .ok larger)
    (hnormalized : reduceRecordEnvelopes localeCompare first = .ok normalized)
    {keep : RecordEnvelope → Bool}
    (hkeep : ∀ record, Contains second record → keep record = true → Contains first record) :
    larger.filter keep = normalized.filter keep := by
  obtain ⟨collected, hcollected, rfl⟩ := reduceRecordEnvelopes_eq_ok.mp hlarger
  obtain ⟨before, hbefore, rfl⟩ := reduceRecordEnvelopes_eq_ok.mp hnormalized
  obtain ⟨_, fresh, hsame, rfl⟩ := collect_append determines_records hcollected
  obtain rfl := Except.ok.inj (hsame.symm.trans hbefore)
  have hnone : fresh.filter keep = [] := by
    rw [List.filter_eq_nil_iff]
    intro record hrecord hkept
    obtain ⟨source, hsource, hcreate⟩ := (mem_collect determines_records hcollected record).mp
      (List.mem_append_right _ hrecord)
    have hcontains : Contains first record := by
      rcases List.mem_append.mp hsource with hfirst | hsecond
      · exact ⟨source, hfirst, hcreate⟩
      · exact hkeep record ⟨source, hsecond, hcreate⟩ hkept
    -- an envelope the first records hold stands among the earlier entries already
    have hold := (mem_collect determines_records hbefore record).mpr hcontains
    have hnodup := nodup_collect determines_records hcollected
    rw [List.map_append] at hnodup
    exact (List.nodup_append.mp hnodup).2.2 _ (List.mem_map_of_mem hold) _
      (List.mem_map_of_mem hrecord) rfl
  rw [filter_sortBy, filter_sortBy, List.filter_append, hnone, List.append_nil]

/-- A selection of the community's envelopes that no new envelope meets is unchanged. -/
theorem filter_communityRecordsOf_append {first second : List JsonValue}
    {larger normalized : List RecordEnvelope}
    (hlarger : reduceRecordEnvelopes localeCompare (first ++ second) = .ok larger)
    (hnormalized : reduceRecordEnvelopes localeCompare first = .ok normalized)
    {keep : RecordEnvelope → Bool}
    (hkeep : ∀ record, Contains second record → record.communityId = communityId →
      keep record = true → Contains first record) :
    (communityRecordsOf communityId larger).filter keep =
      (communityRecordsOf communityId normalized).filter keep := by
  rw [communityRecordsOf, communityRecordsOf, List.filter_filter, List.filter_filter]
  refine filter_reduceRecordEnvelopes_append hlarger hnormalized fun record hcontains hkept ↦ ?_
  rw [Bool.and_eq_true, decide_eq_true_eq] at hkept
  exact hkeep record hcontains hkept.2 hkept.1

/-- An envelope that is new and later than all others is reduced to the last place. -/
theorem reduceRecordEnvelopes_insert {first second : List JsonValue} {source : JsonValue}
    {record : RecordEnvelope} (hcreate : createRecordEnvelope source = .ok record)
    {larger : List RecordEnvelope}
    (hlarger : reduceRecordEnvelopes localeCompare (first ++ source :: second) = .ok larger)
    (hfresh : ∀ other, Contains (first ++ second) other → other.id ≠ record.id)
    (hlast : ∀ other, Contains (first ++ second) other →
      localeCompare other.occurredAt record.occurredAt = .lt) :
    ∃ normalized, reduceRecordEnvelopes localeCompare (first ++ second) = .ok normalized ∧
      larger = normalized ++ [record] := by
  obtain ⟨collected, hcollected, rfl⟩ := reduceRecordEnvelopes_eq_ok.mp hlarger
  let keepSource : JsonValue → Bool := fun other ↦
    match createRecordEnvelope other with
    | .ok envelope => decide (envelope.id ≠ record.id)
    | .error _ => true
  let keep : RecordEnvelope → Bool := fun other ↦ decide (other.id ≠ record.id)
  have hkeepSource : ∀ other envelope, createRecordEnvelope other = .ok envelope →
      keepSource other = keep envelope := by
    intro other envelope hother
    simp only [keepSource, hother, keep]
  have hkept : ∀ list ⊆ first ++ second, list.filter keepSource = list := by
    intro list hlist
    rw [List.filter_eq_self]
    intro other hother
    cases hread : createRecordEnvelope other with
    | error message => simp only [keepSource, hread]
    | ok envelope =>
        rw [hkeepSource other envelope hread]
        exact decide_eq_true (hfresh envelope ⟨other, hlist hother, hread⟩)
  have hrest := collect_filter determines_records hcollected
    fun other _ envelope hother ↦ hkeepSource other envelope hother
  rw [List.filter_append, List.filter_cons_of_neg (by simp [hkeepSource source record hcreate, keep]),
    hkept first (List.subset_append_left _ _), hkept second (List.subset_append_right _ _)] at hrest
  refine ⟨_, reduceRecordEnvelopes_eq_ok.mpr ⟨_, hrest, rfl⟩, sortBy_of_last ?_ ?_⟩
  · intro other hother hdiffers
    obtain ⟨otherSource, hsource, hread⟩ := (mem_collect determines_records hcollected other).mp hother
    have hearlier : localeCompare other.occurredAt record.occurredAt = .lt := by
      refine hlast other ⟨otherSource, ?_, hread⟩
      rcases List.mem_append.mp hsource with hfirst | hrest
      · exact List.mem_append_left _ hfirst
      · rcases List.mem_cons.mp hrest with rfl | hsecond
        · obtain rfl := Except.ok.inj (hcreate.symm.trans hread)
          exact absurd rfl (of_decide_eq_true hdiffers)
        · exact List.mem_append_right _ hsecond
    simp [compareRecords, compareLex, Sorting.on, hearlier]
  · -- ids are distinct, so the new envelope is the only one dropped
    have hnodup := nodup_collect determines_records hcollected
    have hmem : record ∈ collected :=
      (mem_collect determines_records hcollected record).mpr ⟨source, by simp, hcreate⟩
    refine List.perm_singleton.mp ((List.perm_ext_iff_of_nodup (hnodup.of_map.filter _)
      (by simp)).mpr fun other ↦ ?_)
    rw [List.mem_filter, List.mem_singleton]
    constructor
    · intro h
      have hid : other.id = record.id := by simpa [keep] using h.2
      have hfound := lookup_of_mem hnodup h.1
      rw [hid, lookup_of_mem hnodup hmem] at hfound
      exact (Option.some.inj hfound).symm
    · intro h
      rw [h]
      exact ⟨hmem, by simp [keep]⟩

end Reduction

/-! ## Domain records -/

/-- Both lists hold the same domain records of the community. -/
def SameDomainRecords (communityId : String) (left right : List JsonValue) : Prop :=
  ∀ source, IsDomainRecord communityId source → (source ∈ left ↔ source ∈ right)

variable {left right : List JsonValue}

/-- What is held of a domain kind depends on the domain records alone. -/
theorem SameDomainRecords.holds (h : SameDomainRecords communityId left right) {α : Type}
    {kind : RecordKind α} (hkind : kind.kind ∈ memberAuthoredDomainRecordKinds) :
    kind.Holds left communityId = kind.Holds right communityId := by
  have hsource : ∀ {source : JsonValue} {record : RecordEnvelope} {value : α},
      createRecordEnvelope source = .ok record → kind.Carries record value →
      kind.communityId value = communityId → (source ∈ left ↔ source ∈ right) := by
    intro source record value hcreate hcarries hcommunity
    refine h source ((isDomainRecord_iff hcreate).mpr ⟨?_, ?_⟩)
    · rw [hcarries.communityId, hcommunity]
    · rw [hcarries.kindName]
      exact hkind
  funext value
  refine propext (and_congr_right fun hcommunity ↦ exists_congr fun record ↦ ?_)
  refine and_congr_left fun hcarries ↦ exists_congr fun source ↦ and_congr_left fun hcreate ↦ ?_
  exact hsource hcreate hcarries hcommunity

variable {authorizations : List (MemberSigningKeyAuthorization crypto)}

theorem SameDomainRecords.linked (h : SameDomainRecords communityId left right)
    (value : DomainValue) :
    value.Linked left communityId authorizations ↔ value.Linked right communityId authorizations := by
  have hlistings := @SameDomainRecords.holds _ _ _ h _ publishedListingRecords (by decide)
  have hproposed := @SameDomainRecords.holds _ _ _ h _ proposedExchangeProposalRecords (by decide)
  have haccepted := @SameDomainRecords.holds _ _ _ h _ acceptedExchangeProposalRecords (by decide)
  have hacknowledgements := @SameDomainRecords.holds _ _ _ h _ settlementAcknowledgementRecords (by decide)
  have htransfers := @SameDomainRecords.holds _ _ _ h _ ledgerTransferRecords (by decide)
  cases value <;>
    simp only [DomainValue.Linked, DualHeld, hlistings, hproposed, haccepted, hacknowledgements,
      htransfers]

/-- Coherence depends on the domain records alone. -/
theorem SameDomainRecords.coherent (h : SameDomainRecords communityId left right) :
    Coherent left communityId authorizations ↔ Coherent right communityId authorizations := by
  rw [coherent_iff, coherent_iff]
  refine and_congr_right fun _ ↦ and_congr_right fun _ ↦ forall_congr' fun source ↦ ?_
  have hstands : Stands left communityId authorizations source ↔
      Stands right communityId authorizations source :=
    exists_congr fun record ↦ exists_congr fun value ↦ and_congr_right fun _ ↦
      and_congr_right fun _ ↦ h.linked value
  constructor
  · intro hleft hsource hdomain
    exact hstands.mp (hleft ((h source hdomain).mpr hsource) hdomain)
  · intro hright hsource hdomain
    exact hstands.mpr (hright ((h source hdomain).mp hsource) hdomain)

/-! ## Resolved states -/

variable {state : ResolvedTimebankState crypto} {normalized : List RecordEnvelope}

/-- The authorizations of a resolved state are those of its community's envelopes. -/
theorem authorizations_of_resolve
    (h : resolveTimebankRecords crypto localeCompare communityId left = .ok state)
    (hnormalized : reduceRecordEnvelopes localeCompare left = .ok normalized) :
    resolveAuthorizations crypto localeCompare (communityRecordsOf communityId normalized) =
      .ok state.authorizations := by
  have hauthorizations := (resolved_of_eq_ok h).2.2.authorizations
  rwa [authorizationsOf, hnormalized, ok_bind] at hauthorizations

/-- The transfers of a resolved state are those of its community's envelopes. -/
theorem transfers_of_resolve
    (h : resolveTimebankRecords crypto localeCompare communityId left = .ok state)
    (hnormalized : reduceRecordEnvelopes localeCompare left = .ok normalized) :
    reduceLedgerTransferRecords localeCompare
        (recordsOfKind ledgerTransferRecordKind (communityRecordsOf communityId normalized))
        communityId = .ok state.transfers := by
  simp only [resolveTimebankRecords, bind_eq_ok] at h
  obtain ⟨_, hsame, _, -, _, -, _, -, _, -, _, -, _, -, _, -, _, -, transfers, htransfers, _, -, _, -,
    _, -, _, -, _, -, _, -, _, -, _, -, _, -, hstate⟩ := h
  obtain rfl := pure_eq_ok.mp hstate
  obtain rfl := Except.ok.inj (hsame.symm.trans hnormalized)
  exact htransfers

/-- A resolution that reads the same records of every domain kind under the same authorizations, and
accepts every record's signature, gives the same state. -/
theorem resolve_of_same
    (h : resolveTimebankRecords crypto localeCompare communityId left = .ok state)
    (hnormalized : reduceRecordEnvelopes localeCompare left = .ok normalized)
    {larger : List RecordEnvelope} (hlarger : reduceRecordEnvelopes localeCompare right = .ok larger)
    (hkinds : ∀ kind ∈ memberAuthoredDomainRecordKinds,
      recordsOfKind kind (communityRecordsOf communityId larger) =
        recordsOfKind kind (communityRecordsOf communityId normalized))
    (hauthorizations : resolveAuthorizations crypto localeCompare
      (communityRecordsOf communityId larger) = .ok state.authorizations)
    (hsigned : assertMemberSignedDomainRecords right communityId state.authorizations = .ok ()) :
    resolveTimebankRecords crypto localeCompare communityId right = .ok state := by
  have hown := authorizations_of_resolve h hnormalized
  unfold communityRecordsOf at hkinds hauthorizations hown
  unfold resolveTimebankRecords at h ⊢
  rw [hnormalized, ok_bind] at h
  rw [hlarger, ok_bind]
  dsimp only at h ⊢
  rw [hown, ok_bind] at h
  rw [hauthorizations, ok_bind, hsigned, ok_bind, hkinds publishedListingRecordKind (by decide),
    hkinds closedListingRecordKind (by decide), hkinds acceptedExchangeProposalRecordKind (by decide),
    hkinds proposedExchangeProposalRecordKind (by decide),
    hkinds settlementAcknowledgementRecordKind (by decide),
    hkinds ledgerTransferRecordKind (by decide),
    hkinds settlementTransferAttestationRecordKind (by decide)]
  obtain ⟨_, -, h⟩ := bind_eq_ok.mp h
  exact h

end PeerHours.TimebankRecords

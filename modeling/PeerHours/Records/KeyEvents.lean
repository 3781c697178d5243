import PeerHours.Identity.KeyStandings
import PeerHours.Records.Extension

/-!
# The events of unsigned key records

The unsigned key records of a community say what happened to its keys. A history and one that arrives after it are
reduced as the events of the first with the new events of the second.
-/

namespace PeerHours.TimebankRecords

open Checked Json KeyedMap Sorting
open TimebankIdentity

variable {crypto : Crypto} {communityId : String} {localeCompare : String → String → Ordering}

variable (crypto) in
/-- The events of the unsigned key records of a community, in the order in which the records arrive. -/
def keyEvents (communityId : String) (records : List JsonValue) :
    Except String (List (MemberSigningKeyAuthorizationEvent crypto)) := do
  let recordsById ← collect (·.id) canonicalRecordEnvelope
    "Conflicting record envelopes share the same record id." createRecordEnvelope records
  (legacyIdentityRecords (communityRecordsOf communityId recordsById)).mapM fun record ↦
    memberSigningKeyAuthorizationEventFromRecord crypto record.toJson

/-- The record carries the event. -/
def CarriesEvent (record : RecordEnvelope) (event : MemberSigningKeyAuthorizationEvent crypto) : Prop :=
  memberSigningKeyAuthorizationEventFromRecord crypto record.toJson = .ok event

theorem CarriesEvent.stamp {record : RecordEnvelope} {event : MemberSigningKeyAuthorizationEvent crypto}
    (h : CarriesEvent record event) : record.id = event.eventId ∧ record.occurredAt = event.occurredAt := by
  have hroutes := ((memberSigningKeyAuthorizationEventFromRecord_eq_ok
    (createRecordEnvelope_toJson record)).mp h).2
  exact ⟨hroutes.id, hroutes.occurredAt⟩

/-- The unsigned key records of a community among envelopes. -/
def keyRecords (communityId : String) (recordsById : List RecordEnvelope) : List RecordEnvelope :=
  legacyIdentityRecords (communityRecordsOf communityId recordsById)

theorem mem_keyRecords {recordsById : List RecordEnvelope} {record : RecordEnvelope} :
    record ∈ keyRecords communityId recordsById ↔
      record ∈ recordsById ∧ record.communityId = communityId ∧ isIdentityRecord record.kind = true := by
  simp [keyRecords, legacyIdentityRecords, communityRecordsOf, and_comm]

theorem keyEvents_eq_ok {records : List JsonValue}
    {events : List (MemberSigningKeyAuthorizationEvent crypto)} :
    keyEvents crypto communityId records = .ok events ↔ ∃ recordsById,
      collect (·.id) canonicalRecordEnvelope "Conflicting record envelopes share the same record id."
        createRecordEnvelope records = .ok recordsById ∧
      List.Forall₂ CarriesEvent (keyRecords communityId recordsById) events := by
  simp only [keyEvents, bind_eq_ok, mapM_eq_ok]
  rfl

/-- Events have the ids of the records that carry them. -/
theorem ids_of_carries {records : List RecordEnvelope}
    {events : List (MemberSigningKeyAuthorizationEvent crypto)}
    (h : List.Forall₂ CarriesEvent records events) :
    events.map (·.eventId) = records.map (·.id) := by
  induction h with
  | nil => rfl
  | cons hfirst _ ih => rw [List.map_cons, List.map_cons, hfirst.stamp.1, ih]

theorem nodup_keyRecords {recordsById : List RecordEnvelope}
    (h : (recordsById.map (·.id)).Nodup) : ((keyRecords communityId recordsById).map (·.id)).Nodup :=
  h.sublist ((List.filter_sublist.trans List.filter_sublist).map _)

section Reduction

variable [Std.TransCmp localeCompare]

omit [Std.TransCmp localeCompare] in
/-- Sorted records carry the events in chronological order. -/
theorem carries_sortBy {records : List RecordEnvelope}
    {events : List (MemberSigningKeyAuthorizationEvent crypto)}
    (h : List.Forall₂ CarriesEvent records events) :
    List.Forall₂ CarriesEvent (sortBy (compareRecords localeCompare) records)
      (chronological localeCompare events) := by
  refine forall₂_sortBy h fun record event other otherEvent hfirst hsecond ↦ ?_
  simp only [compareRecords, compareAuthorizationEvents, compareLex, Sorting.on, hfirst.stamp,
    hsecond.stamp]

/-- The unsigned key records of a reduced history are reduced as its events. -/
theorem reduceMemberSigningKeyAuthorizationRecords_eq_ok {recordsById : List RecordEnvelope}
    {authorizations : List (MemberSigningKeyAuthorization crypto)} :
    reduceMemberSigningKeyAuthorizationRecords crypto localeCompare
        (keyRecords communityId (sortBy (compareRecords localeCompare) recordsById)) =
          .ok authorizations ↔
      ∃ events, List.Forall₂ CarriesEvent (keyRecords communityId recordsById) events ∧
        reduceMemberSigningKeyAuthorizationEvents localeCompare
          (chronological localeCompare events) = .ok authorizations := by
  have hsorted : keyRecords communityId (sortBy (compareRecords localeCompare) recordsById) =
      sortBy (compareRecords localeCompare) (keyRecords communityId recordsById) := by
    rw [keyRecords, legacyIdentityRecords, communityRecordsOf, filter_sortBy, filter_sortBy]
    rfl
  rw [hsorted, reduceMemberSigningKeyAuthorizationRecords, bind_eq_ok]
  constructor
  · rintro ⟨sorted, hcarries, hreduce⟩
    have hall := succeeds_mapM.mp ⟨sorted, hcarries⟩
    obtain ⟨events, hevents⟩ := succeeds_mapM.mpr
      fun record hrecord ↦ hall record (mem_sortBy.mpr hrecord)
    rw [mapM_eq_ok] at hevents
    have hagain := mapM_eq_ok.mpr (@carries_sortBy _ localeCompare _ _ hevents)
    obtain rfl := Except.ok.inj (hcarries.symm.trans hagain)
    exact ⟨events, hevents, hreduce⟩
  · rintro ⟨events, hevents, hreduce⟩
    exact ⟨_, mapM_eq_ok.mpr (@carries_sortBy _ localeCompare _ _ hevents), hreduce⟩

end Reduction

section Further

variable {records additional : List JsonValue} {earlier later : List RecordEnvelope}

/-- An envelope of a further history whose id is taken is held already. -/
theorem mem_of_id_mem (hconsistent : Consistent (records ++ additional))
    (hearlier : collect (·.id) canonicalRecordEnvelope
      "Conflicting record envelopes share the same record id." createRecordEnvelope records =
        .ok earlier)
    (hlater : collect (·.id) canonicalRecordEnvelope
      "Conflicting record envelopes share the same record id." createRecordEnvelope additional =
        .ok later) {record : RecordEnvelope} (hrecord : record ∈ later)
    (hid : record.id ∈ earlier.map (·.id)) : record ∈ earlier := by
  obtain ⟨other, hother, hsame⟩ := List.mem_map.mp hid
  obtain ⟨source, hsource, hcreate⟩ := (mem_collect determines_records hearlier other).mp hother
  obtain ⟨given, hgiven, hgivenCreate⟩ := (mem_collect determines_records hlater record).mp hrecord
  obtain rfl := hconsistent.unique other record ⟨source, List.mem_append_left _ hsource, hcreate⟩
    ⟨given, List.mem_append_right _ hgiven, hgivenCreate⟩ hsame
  exact hother

/-- The unsigned key records of a history and the new ones of a further history. -/
theorem keyRecords_append
    (hheld : ∀ record ∈ later, record.id ∈ earlier.map (·.id) → record ∈ earlier) :
    keyRecords communityId (earlier ++ later.filter fun record ↦
        decide (record.id ∉ earlier.map (·.id))) =
      keyRecords communityId earlier ++ (keyRecords communityId later).filter fun record ↦
        decide (record.id ∉ (keyRecords communityId earlier).map (·.id)) := by
  have happend (left right : List RecordEnvelope) : keyRecords communityId (left ++ right) =
      keyRecords communityId left ++ keyRecords communityId right := by
    simp [keyRecords, legacyIdentityRecords, communityRecordsOf]
  have hcomm (values : List RecordEnvelope) (keep : RecordEnvelope → Bool) :
      keyRecords communityId (values.filter keep) = (keyRecords communityId values).filter keep := by
    simp only [keyRecords, legacyIdentityRecords, communityRecordsOf, List.filter_filter]
    exact List.filter_congr fun _ _ ↦ by ac_rfl
  rw [happend, hcomm]
  refine congrArg _ (List.filter_congr fun record hrecord ↦ ?_)
  rw [decide_eq_decide, not_iff_not]
  constructor
  · intro hid
    obtain ⟨hmem, hcommunity, hkind⟩ := mem_keyRecords.mp hrecord
    exact List.mem_map_of_mem (mem_keyRecords.mpr ⟨hheld record hmem hid, hcommunity, hkind⟩)
  · intro hid
    obtain ⟨other, hother, hsame⟩ := List.mem_map.mp hid
    exact List.mem_map.mpr ⟨other, (mem_keyRecords.mp hother).1, hsame⟩

/-- Together the records carry the events of the history with the new ones of the further history. -/
theorem carries_append
    (hheld : ∀ record ∈ later, record.id ∈ earlier.map (·.id) → record ∈ earlier)
    {held events : List (MemberSigningKeyAuthorizationEvent crypto)}
    (hearlier : List.Forall₂ CarriesEvent (keyRecords communityId earlier) held) :
    List.Forall₂ CarriesEvent (keyRecords communityId (earlier ++ later.filter fun record ↦
        decide (record.id ∉ earlier.map (·.id)))) events ↔
      ∃ further, List.Forall₂ CarriesEvent (keyRecords communityId later) further ∧
        events = withFurther held further := by
  have htogether {further : List (MemberSigningKeyAuthorizationEvent crypto)}
      (hfurther : List.Forall₂ CarriesEvent (keyRecords communityId later) further) :
      List.Forall₂ CarriesEvent (keyRecords communityId (earlier ++ later.filter fun record ↦
        decide (record.id ∉ earlier.map (·.id)))) (withFurther held further) := by
    rw [keyRecords_append hheld, withFurther]
    refine List.rel_append hearlier (List.rel_filter (fun record event hcarries ↦ ?_) hfurther)
    rw [ids_of_carries hearlier]
    dsimp only
    rw [hcarries.stamp.1]
  constructor
  · intro h
    have hall := succeeds_mapM.mp ⟨events, mapM_eq_ok.mpr h⟩
    have hevery : ∀ record ∈ keyRecords communityId later,
        Succeeds (memberSigningKeyAuthorizationEventFromRecord crypto record.toJson) := by
      intro record hrecord
      obtain ⟨hmem, hmore⟩ := mem_keyRecords.mp hrecord
      refine hall record (mem_keyRecords.mpr ⟨List.mem_append.mpr ?_, hmore⟩)
      by_cases hid : record.id ∈ earlier.map (·.id)
      · exact .inl (hheld record hmem hid)
      · exact .inr (List.mem_filter.mpr ⟨hmem, decide_eq_true hid⟩)
    obtain ⟨further, hfurther⟩ := succeeds_mapM.mpr hevery
    have hcarries := mapM_eq_ok.mp hfurther
    refine ⟨further, hcarries, Except.ok.inj ((mapM_eq_ok.mpr h).symm.trans ?_)⟩
    exact mapM_eq_ok.mpr (htogether hcarries)
  · rintro ⟨further, hfurther, rfl⟩
    exact htogether hfurther

variable [Std.TransCmp localeCompare] {normalized larger : List RecordEnvelope}
  {authorizations : List (MemberSigningKeyAuthorization crypto)}

/-- A further history leaves the keys of a reduced one as they are exactly when its unsigned key records are
events that keep them. -/
theorem reduce_append_iff (hconsistent : Consistent (records ++ additional))
    (hnormalized : reduceRecordEnvelopes localeCompare records = .ok normalized)
    (hlarger : reduceRecordEnvelopes localeCompare (records ++ additional) = .ok larger)
    (h : reduceMemberSigningKeyAuthorizationRecords crypto localeCompare
      (keyRecords communityId normalized) = .ok authorizations) :
    reduceMemberSigningKeyAuthorizationRecords crypto localeCompare
        (keyRecords communityId larger) = .ok authorizations ↔
      ∃ held further, keyEvents crypto communityId records = .ok held ∧
        keyEvents crypto communityId additional = .ok further ∧
        KeepsKeys localeCompare held further := by
  obtain ⟨earlier, hearlier, rfl⟩ := reduceRecordEnvelopes_eq_ok.mp hnormalized
  obtain ⟨together, htogether, rfl⟩ := reduceRecordEnvelopes_eq_ok.mp hlarger
  have hconsistentLater : Consistent additional :=
    ⟨fun source hsource ↦ hconsistent.wellFormed source (List.mem_append_right _ hsource),
      fun left right hleft hright ↦ hconsistent.unique left right
        (contains_append.mpr (.inr hleft)) (contains_append.mpr (.inr hright))⟩
  obtain ⟨_, hreduced⟩ := (reduceRecordEnvelopes_spec localeCompare additional).1.mpr hconsistentLater
  obtain ⟨later, hlater, -⟩ := reduceRecordEnvelopes_eq_ok.mp hreduced
  -- the records by id are those of the history, and after them what is new in the additional ones
  obtain ⟨before, hbefore, rfl⟩ := collect_append_eq determines_records htogether hlater
  obtain rfl := Except.ok.inj (hbefore.symm.trans hearlier)
  obtain ⟨held, hheld, hheldReduce⟩ := reduceMemberSigningKeyAuthorizationRecords_eq_ok.mp h
  have hnodup := nodup_collect determines_records hearlier
  have hnodupLater := nodup_collect determines_records hlater
  have hheldNodup : (held.map (·.eventId)).Nodup :=
    ids_of_carries hheld ▸ nodup_keyRecords hnodup
  have hheldEvents : keyEvents crypto communityId records = .ok held :=
    keyEvents_eq_ok.mpr ⟨_, hearlier, hheld⟩
  rw [reduceMemberSigningKeyAuthorizationRecords_eq_ok]
  constructor
  · rintro ⟨events, hevents, hreduce⟩
    obtain ⟨further, hfurther, rfl⟩ := (carries_append (fun record hrecord ↦
      mem_of_id_mem hconsistent hearlier hlater hrecord) hheld).mp hevents
    exact ⟨held, further, hheldEvents, keyEvents_eq_ok.mpr ⟨later, hlater, hfurther⟩,
      (reduce_withFurther_iff hheldNodup (ids_of_carries hfurther ▸ nodup_keyRecords hnodupLater)
        hheldReduce).mp hreduce⟩
  · rintro ⟨_, further, hheldAgain, hfurtherEvents, hkeeps⟩
    obtain rfl := Except.ok.inj (hheldAgain.symm.trans hheldEvents)
    obtain ⟨_, hlaterAgain, hfurther⟩ := keyEvents_eq_ok.mp hfurtherEvents
    obtain rfl := Except.ok.inj (hlaterAgain.symm.trans hlater)
    refine ⟨_, (carries_append (fun record hrecord ↦
      mem_of_id_mem hconsistent hearlier hlater hrecord) hheld).mpr ⟨further, hfurther, rfl⟩, ?_⟩
    exact (reduce_withFurther_iff hheldNodup
      (ids_of_carries hfurther ▸ nodup_keyRecords hnodupLater) hheldReduce).mpr hkeeps

end Further

end PeerHours.TimebankRecords

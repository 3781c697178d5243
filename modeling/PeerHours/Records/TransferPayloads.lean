import PeerHours.Records.StoredRecords

/-!
# Transfers read back from their payloads

A transfer may carry JSON values of any shape: further properties of its attestations, and the source proposal of a
reversal. The payload of its record lists their properties in order, so the transfer read back agrees with the
encoded one up to that order.
-/

namespace PeerHours.TimebankRecords

open Checked Json KeyedMap Sorting
open JsonValue (field_obj get get_cons get_nil)
open TimebankLedger (Transfer TransferAttestation TransferTerms Describes attestationNames createTransfer
  createTransfer_eq_ok createTransferTerms_eq_ok describes_properties normalizeAttestations_eq_ok
  readAttestation readAttestation_eq_ok)

/-! ## Agreement up to the order of properties -/

/-- Under each name stands the same value, up to the order of its own properties. -/
def SameProperties (left right : List (String × JsonValue)) : Prop :=
  ∀ name, (get name left).map normalizeJson = (get name right).map normalizeJson

/-- The same attestation, up to the order of its further properties. -/
structure SameAttestation (left right : TransferAttestation) : Prop where
  signed : { left with rest := [] } = { right with rest := [] }
  rest : SameProperties left.rest right.rest

/-- The same transfer, up to the order of properties inside its JSON values. -/
structure SameTransfer (left right : Transfer) : Prop where
  terms : { left.toTransferTerms with sourceProposalId := none } =
    { right.toTransferTerms with sourceProposalId := none }
  source : left.sourceProposalId.map normalizeJson = right.sourceProposalId.map normalizeJson
  attestations : List.Forall₂ SameAttestation left.attestations right.attestations

/-- Normalized properties read the normalized values. -/
theorem get_of_normalizeFields {fields normal : List (String × JsonValue)}
    (h : normalizeFields fields = .ok normal) (name : String) :
    (get name normal).map Except.ok = (get name fields).map normalizeJson := by
  induction fields generalizing normal with
  | nil =>
      obtain rfl := Except.ok.inj h
      rfl
  | cons property rest ih =>
      rw [normalizeFields] at h
      obtain ⟨_, -, h⟩ := bind_eq_ok.mp h
      obtain ⟨value, hvalue, h⟩ := bind_eq_ok.mp h
      obtain ⟨others, hothers, h⟩ := bind_eq_ok.mp h
      obtain rfl := pure_eq_ok.mp h
      by_cases hname : property.1 = name
      · rw [get_cons, get_cons, if_pos hname, if_pos hname, Option.map_some, Option.map_some, hvalue]
      · rw [get_cons, get_cons, if_neg hname, if_neg hname, ih hothers]

/-- A property with a normal value keeps it. -/
theorem get_of_normal {fields normal : List (String × JsonValue)}
    (h : normalizeFields fields = .ok normal) {name : String} {value : JsonValue}
    (hget : get name fields = some value) (hvalue : normalizeJson value = .ok value) :
    get name normal = some value := by
  have hnormal := get_of_normalizeFields h name
  rw [hget, Option.map_some, hvalue] at hnormal
  obtain ⟨found, hfound, hok⟩ := Option.map_eq_some_iff.mp hnormal
  rw [hfound, Except.ok.inj hok]

/-- Normalized properties are the same properties, up to order. -/
theorem sameProperties_of_normalizeFields {fields normal : List (String × JsonValue)}
    (h : normalizeFields fields = .ok normal) : SameProperties normal fields := by
  intro name
  rw [← get_of_normalizeFields h name]
  cases hvalue : get name normal with
  | none => rfl
  | some value =>
      obtain ⟨property, hproperty, rfl⟩ := Option.map_eq_some_iff.mp hvalue
      have hnormal := (normalizeFields_idem h property (lookup_eq_some hproperty).1).2
      rw [Option.map_some, Option.map_some, hnormal]

/-! ## Attestations -/

/-- Dropping the properties under some names leaves the others. -/
theorem get_filter_names (names : List String) (fields : List (String × JsonValue)) (name : String) :
    get name (fields.filter fun property ↦ property.1 ∉ names) =
      if name ∈ names then none else get name fields := by
  induction fields with
  | nil => simp
  | cons property rest ih =>
      by_cases hdropped : property.1 ∈ names
      · rw [List.filter_cons_of_neg (by simpa using hdropped), ih, get_cons]
        by_cases hname : property.1 = name
        · rw [if_pos (hname ▸ hdropped), if_pos (hname ▸ hdropped)]
        · rw [if_neg hname]
      · rw [List.filter_cons_of_pos (by simpa using hdropped), get_cons, get_cons, ih]
        by_cases hname : property.1 = name
        · rw [if_pos hname, if_pos hname, if_neg (hname ▸ hdropped)]
        · rw [if_neg hname, if_neg hname]

/-- Names outside a list read nothing from it. -/
theorem get_eq_none_of_forall {fields : List (String × JsonValue)} {name : String}
    (h : ∀ property ∈ fields, property.1 ≠ name) : get name fields = none := by
  rw [JsonValue.get, lookup_eq_none.mpr h]
  rfl

/-- The normalized object of a valid attestation is read back as the attestation. -/
theorem readAttestation_of_normalizeJson {attestation : TransferAttestation} {item : JsonValue}
    (hvalid : attestation.Valid) (h : normalizeJson attestation.toJson = .ok item) :
    ∃ read, readAttestation item = .ok read ∧ SameAttestation read attestation := by
  rw [TransferAttestation.toJson, normalizeJson] at h
  obtain ⟨normal, hfields, h⟩ := bind_eq_ok.mp h
  obtain rfl := pure_eq_ok.mp h
  let read : TransferAttestation :=
    { attestation with
      rest := (sortBy compareProperties normal).filter fun property ↦ property.1 ∉ attestationNames }
  have hrest : ∀ property ∈ read.rest, property.1 ∉ attestationNames := fun property hproperty ↦ by
    simpa using (List.mem_filter.mp hproperty).2
  refine ⟨read, readAttestation_eq_ok.mpr ⟨⟨hvalid.memberId, hvalid.keyId, hvalid.payloadDigest,
    hvalid.signature, hrest⟩, ?_, ?_, ?_, ?_, rfl⟩, rfl, fun name ↦ ?_⟩
  · rw [field_obj, get_sortBy]
    exact get_of_normal hfields (by simp [read]) rfl
  · rw [field_obj, get_sortBy]
    exact get_of_normal hfields (by simp [read]) rfl
  · rw [field_obj, get_sortBy]
    exact get_of_normal hfields (by simp [read]) rfl
  · rw [field_obj, get_sortBy]
    exact get_of_normal hfields (by simp [read]) rfl
  · show (get name ((sortBy compareProperties normal).filter _)).map normalizeJson = _
    rw [get_filter_names, get_sortBy]
    by_cases hname : name ∈ attestationNames
    · have hnone : get name attestation.rest = none := get_eq_none_of_forall fun property hproperty ↦ by
        rintro rfl
        exact hvalid.rest property hproperty hname
      rw [if_pos hname, hnone]
    · have hsame := sameProperties_of_normalizeFields hfields name
      have hskip : get name (("memberId", .str attestation.memberId) ::
          ("keyId", .str attestation.keyId) :: ("payloadDigest", .str attestation.payloadDigest) ::
          ("signature", .str attestation.signature) :: attestation.rest) =
          get name attestation.rest := by
        simp only [attestationNames, List.mem_cons, List.not_mem_nil, or_false, not_or] at hname
        simp only [get_cons, Ne.symm hname.1, Ne.symm hname.2.1, Ne.symm hname.2.2.1,
          Ne.symm hname.2.2.2, if_false]
      rw [if_neg hname, ← hskip, hsame]

/-! ## Transfers -/

/-- One object describes one list of terms. -/
theorem describes_unique {input : JsonValue} {left right : TransferTerms}
    (hleft : Describes input left) (hright : Describes input right) : left = right := by
  have hid := hleft.id.symm.trans hright.id
  have hcommunity := hleft.communityId.symm.trans hright.communityId
  have hsource := hleft.sourceProposalId.symm.trans hright.sourceProposalId
  have hprovider := hleft.providerMemberId.symm.trans hright.providerMemberId
  have hrecipient := hleft.recipientMemberId.symm.trans hright.recipientMemberId
  have hminutes := hleft.minutes.symm.trans hright.minutes
  have hreverses : left.reversesTransferId = right.reversesTransferId :=
    Option.map_injective (fun _ _ ↦ JsonValue.str.inj)
      (hleft.reversesTransferId.symm.trans hright.reversesTransferId)
  obtain ⟨id, community, source, provider, recipient, minutes, reverses⟩ := left
  simp only [Option.some.injEq, JsonValue.str.injEq, JsonValue.int_inj] at *
  subst hid hcommunity hsource hprovider hrecipient hminutes hreverses
  rfl

/-- The object of a transfer is well formed when the JSON values inside it are. -/
theorem wellFormed_transfer_iff {transfer : Transfer} :
    WellFormed transfer.toJson ↔
      (∀ source, transfer.sourceProposalId = some source → WellFormed source) ∧
      ∀ attestation ∈ transfer.attestations, WellFormed attestation.toJson := by
  have hitems : WellFormedItems (transfer.attestations.map TransferAttestation.toJson) ↔
      ∀ attestation ∈ transfer.attestations, WellFormed attestation.toJson := by
    rw [wellFormedItems_iff, List.forall_mem_map]
  have hlisted : Listed (transfer.properties ++
      [("attestations", .arr (transfer.attestations.map TransferAttestation.toJson))]) := by
    obtain ⟨⟨id, community, _ | source, provider, recipient, minutes, _ | reverses⟩, attestations⟩ :=
      transfer <;>
      exact .of_plainNames (by simp [TransferTerms.properties, plainNames, arrayIndex?])
  rw [← hitems]
  obtain ⟨⟨id, community, _ | source, provider, recipient, minutes, _ | reverses⟩, attestations⟩ :=
    transfer
  · exact ⟨fun h ↦ ⟨(fun _ hnone ↦ by cases hnone), h.2.2.2.2.2.2.1⟩,
      fun h ↦ ⟨hlisted, trivial, trivial, trivial, trivial, trivial, h.2, trivial⟩⟩
  · exact ⟨fun h ↦ ⟨(fun _ hnone ↦ by cases hnone), h.2.2.2.2.2.2.2.1⟩,
      fun h ↦ ⟨hlisted, trivial, trivial, trivial, trivial, trivial, trivial, h.2, trivial⟩⟩
  · exact ⟨fun h ↦ ⟨fun _ hsource ↦ Option.some.inj hsource ▸ h.2.2.2.1, h.2.2.2.2.2.2.2.1⟩,
      fun h ↦ ⟨hlisted, trivial, trivial, h.1 source rfl, trivial, trivial, trivial, h.2, trivial⟩⟩
  · exact ⟨fun h ↦ ⟨fun _ hsource ↦ Option.some.inj hsource ▸ h.2.2.2.1, h.2.2.2.2.2.2.2.2.1⟩,
      fun h ↦ ⟨hlisted, trivial, trivial, h.1 source rfl, trivial, trivial, trivial, trivial, h.2,
        trivial⟩⟩

/-- A well formed attestation object is read as the attestation it is the object of. -/
theorem readAttestation_of_wellFormed {attestation read : TransferAttestation}
    (hwell : WellFormed attestation.toJson) (h : readAttestation attestation.toJson = .ok read) :
    read = attestation := by
  obtain ⟨-, hmember, hkey, hdigest, hsignature, hrest⟩ := readAttestation_eq_ok.mp h
  have hnodup := hwell.1.nodup
  have hother : ∀ property ∈ attestation.rest, property.1 ∉ attestationNames := by
    intro property hproperty hname
    have hmem : property.1 ∈ attestation.rest.map Prod.fst := List.mem_map_of_mem hproperty
    simp only [List.map_cons, List.nodup_cons, List.mem_cons, not_or] at hnodup
    simp only [attestationNames, List.mem_cons, List.not_mem_nil, or_false] at hname
    rcases hname with hname | hname | hname | hname <;> rw [hname] at hmem <;> simp [hmem] at hnodup
  have hfilter : attestation.toJson.properties.filter
      (fun property ↦ property.1 ∉ attestationNames) = attestation.rest := by
    have hkept : attestation.rest.filter (fun property ↦ decide (property.1 ∉ attestationNames)) =
        attestation.rest :=
      List.filter_eq_self.mpr fun property hproperty ↦ by simpa using hother property hproperty
    simp only [TransferAttestation.toJson, JsonValue.properties, List.filter_cons]
    simpa [attestationNames] using hkept
  obtain ⟨member, key, digest, signature, rest⟩ := read
  simp only [TransferAttestation.toJson, field_obj, get_cons] at hmember hkey hdigest hsignature
  simp only [Option.some.injEq, JsonValue.str.injEq, String.reduceEq, if_true, if_false] at *
  rw [hfilter] at hrest
  subst hmember hkey hdigest hsignature hrest
  rfl

/-- The encoder's normalization keeps the terms of a transfer and reorders its attestations. -/
theorem created_of_wellFormed {transfer normalized : Transfer} (hwell : WellFormed transfer.toJson)
    (h : createTransfer transfer.toJson = .ok normalized) :
    normalized.toTransferTerms = transfer.toTransferTerms ∧
      normalized.attestations.Perm transfer.attestations := by
  obtain ⟨hterms, hattestations⟩ := createTransfer_eq_ok.mp h
  obtain ⟨hdescribes, hvalid⟩ := createTransferTerms_eq_ok.mp hterms
  obtain ⟨hown, -, hget⟩ := describes_properties transfer.toTransferTerms
    (.arr (transfer.attestations.map TransferAttestation.toJson))
  refine ⟨describes_unique hdescribes hown, ?_⟩
  rw [Transfer.toJson, field_obj, hget, normalizeAttestations_eq_ok hvalid.distinct] at hattestations
  obtain ⟨first, second, p, r, hitems, hpair, -, -, hread⟩ := hattestations
  have hsame := (wellFormed_transfer_iff.mp hwell).2
  have hlisted := JsonValue.arr.inj (Option.some.inj hitems)
  have hlength : transfer.attestations.length = 2 := by simpa using congrArg List.length hlisted
  obtain ⟨a, b, hlist⟩ := List.length_eq_two.mp hlength
  rw [hlist] at hlisted hsame
  simp only [List.map_cons, List.map_nil, List.cons.injEq, and_true] at hlisted
  obtain ⟨rfl, rfl⟩ := hlisted
  have ha := hsame a (by simp)
  have hb := hsame b (by simp)
  rw [hpair, hlist]
  rcases hread with ⟨hp, hr⟩ | ⟨hr, hp⟩
  · rw [readAttestation_of_wellFormed ha hp, readAttestation_of_wellFormed hb hr]
  · rw [readAttestation_of_wellFormed ha hr, readAttestation_of_wellFormed hb hp]
    exact List.Perm.swap a b []

theorem wellFormed_created {transfer normalized : Transfer} (hwell : WellFormed transfer.toJson)
    (h : createTransfer transfer.toJson = .ok normalized) : WellFormed normalized.toJson := by
  obtain ⟨hterms, hperm⟩ := created_of_wellFormed hwell h
  obtain ⟨hsource, hattestations⟩ := wellFormed_transfer_iff.mp hwell
  refine wellFormed_transfer_iff.mpr ⟨fun source h ↦ hsource source ?_,
    fun attestation hmem ↦ hattestations attestation (hperm.mem_iff.mp hmem)⟩
  rw [← h, hterms]

/-- The normalized object of a valid transfer is read back as the transfer. -/
theorem normalizeTransfer_of_normalizeJson {transfer : Transfer} (hvalid : transfer.Valid)
    {payload : JsonValue} (h : normalizeJson transfer.toJson = .ok payload) :
    ∃ read, normalizeTransfer payload = .ok read ∧ SameTransfer read transfer := by
  obtain ⟨provider, recipient, hpair, hprovider, hrecipient, hproviderId, hrecipientId⟩ :=
    hvalid.attested
  obtain ⟨hown, -, hget⟩ := describes_properties transfer.toTransferTerms
    (.arr (transfer.attestations.map TransferAttestation.toJson))
  rw [Transfer.toJson, normalizeJson] at h
  obtain ⟨normal, hfields, h⟩ := bind_eq_ok.mp h
  obtain rfl := pure_eq_ok.mp h
  have hitems := get_of_normalizeFields hfields "attestations"
  rw [hget, hpair, Option.map_some] at hitems
  obtain ⟨items, hitems, hnormal⟩ := Option.map_eq_some_iff.mp hitems
  simp only [List.map_cons, List.map_nil, normalizeJson, normalizeItems] at hnormal
  have hnormal := hnormal.symm
  simp only [bind_eq_ok, pure_eq_ok, Except.ok.injEq] at hnormal
  obtain ⟨_, ⟨first, hfirst, _, ⟨second, hsecond, _, rfl, rfl⟩, rfl⟩, rfl⟩ := hnormal
  obtain ⟨p, hp, hsameProvider⟩ := readAttestation_of_normalizeJson hprovider hfirst
  obtain ⟨r, hr, hsameRecipient⟩ := readAttestation_of_normalizeJson hrecipient hsecond
  let terms : TransferTerms :=
    { transfer.toTransferTerms with sourceProposalId := get "sourceProposalId" normal }
  have hdescribes : Describes (.obj (sortBy compareProperties normal)) terms := by
    refine ⟨?_, ?_, ?_, ?_, ?_, ?_, ?_⟩ <;> rw [field_obj, get_sortBy]
    · exact get_of_normal hfields hown.id rfl
    · exact get_of_normal hfields hown.communityId rfl
    · exact get_of_normal hfields hown.providerMemberId rfl
    · exact get_of_normal hfields hown.recipientMemberId rfl
    · exact get_of_normal hfields hown.minutes rfl
    · cases hreverses : transfer.reversesTransferId with
      | none =>
          have hnormal := get_of_normalizeFields hfields "reversesTransferId"
          have hnone := hown.reversesTransferId
          rw [hreverses, field_obj] at hnone
          rw [hnone] at hnormal
          exact Option.map_eq_none_iff.mp hnormal
      | some reversed =>
          exact get_of_normal hfields (hown.reversesTransferId.trans (by rw [hreverses]; rfl)) rfl
  have hterms : terms.Valid := by
    refine ⟨hvalid.id, hvalid.communityId, hvalid.providerMemberId, hvalid.recipientMemberId,
      hvalid.positive, hvalid.distinct, hvalid.reverses, fun hordinary ↦ ?_⟩
    obtain ⟨proposalId, hproposal, hpresent⟩ := hvalid.settles hordinary
    exact ⟨proposalId, get_of_normal hfields (hown.sourceProposalId.trans hproposal) rfl, hpresent⟩
  refine ⟨{ terms with attestations := [p, r] }, normalizeTransfer_eq_ok.mpr
    (createTransfer_eq_ok.mpr ⟨createTransferTerms_eq_ok.mpr ⟨hdescribes, hterms⟩, ?_⟩), rfl, ?_, ?_⟩
  · rw [field_obj, get_sortBy, hitems, normalizeAttestations_eq_ok hterms.distinct]
    have hpId : p.memberId = provider.memberId := congrArg (·.memberId) hsameProvider.signed
    have hrId : r.memberId = recipient.memberId := congrArg (·.memberId) hsameRecipient.signed
    exact ⟨first, second, p, r, rfl, rfl, hpId.trans hproviderId, hrId.trans hrecipientId,
      .inl ⟨hp, hr⟩⟩
  · exact (sameProperties_of_normalizeFields hfields "sourceProposalId").trans
      (congrArg (Option.map normalizeJson) hown.sourceProposalId)
  · rw [hpair]
    exact .cons hsameProvider (.cons hsameRecipient .nil)

end PeerHours.TimebankRecords

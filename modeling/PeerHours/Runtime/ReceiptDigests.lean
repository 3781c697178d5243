import PeerHours.Library.PlainData
import PeerHours.Records.FeedResolution
import PeerHours.Records.Resolution
import PeerHours.Records.StoredRecords
import PeerHours.Runtime.Receipts

/-!
# What a receipt digest binds

A receipt binds the digest of a transfer's canonical text. Pieces of that text can be split in one way only, at
every level, so the text determines the data up to the order of properties. A node and a desktop that resolved
the transfer on their own therefore agree on its digest exactly when they resolved the same transfer.
-/

namespace PeerHours.PeerRuntime

open Checked Json Json.Plain Sorting
open TimebankLedger (Transfer TransferAttestation TransferTerms attestationNames createTransfer
  createTransfer_eq_ok createTransferTerms_eq_ok describes_properties normalizeAttestations_eq_ok
  readAttestation readAttestation_eq_ok valid_of_createTransfer)
open TimebankRecords

/-! ## Canonical text -/

/-- `join(",")`. -/
def joinCommas : List (List Char) → List Char
  | [] => []
  | piece :: rest => piece ++ rest.flatMap (',' :: ·)

mutual

/-- Canonicalizes plain data so different key insertion orders cannot change a transfer receipt
digest. -/
def canonicalText : Plain → List Char
  | .null => ['n', 'u', 'l', 'l']
  | .bool true => ['t', 'r', 'u', 'e']
  | .bool false => ['f', 'a', 'l', 's', 'e']
  | .num value => numberText value.written
  | .str value => CodeUnits.quote value
  | .arr items => '[' :: (joinCommas (canonicalItems items) ++ [']'])
  | .obj fields =>
      '{' :: (joinCommas ((sortBy compareUnits (canonicalFields fields)).map fun property ↦
        CodeUnits.quote property.1 ++ ':' :: property.2) ++ ['}'])

/-- The canonical texts of the items of an array. -/
def canonicalItems : List Plain → List (List Char)
  | [] => []
  | item :: rest => canonicalText item :: canonicalItems rest

/-- The names of an object with the canonical texts of their values. -/
def canonicalFields : List (CodeUnits × Plain) → List (CodeUnits × List Char)
  | [] => []
  | (name, value) :: rest => (name, canonicalText value) :: canonicalFields rest

end

theorem renderItems_eq_joinCommas (items : List CodeUnits.Value) :
    Tree.renderItems CodeUnits.quoting [] items =
      joinCommas (items.map (Tree.render CodeUnits.quoting)) ++ [']'] := by
  have hrest : ∀ items : List CodeUnits.Value, Tree.renderItems CodeUnits.quoting [','] items =
      (items.map (Tree.render CodeUnits.quoting)).flatMap (',' :: ·) ++ [']'] := by
    intro items
    induction items with
    | nil => rfl
    | cons item rest ih => simp [Tree.renderItems, ih]
  cases items with
  | nil => rfl
  | cons item rest => simp [Tree.renderItems, hrest, joinCommas]

/-- The text of a property. -/
def propertyText (property : CodeUnits × List Char) : List Char :=
  CodeUnits.quote property.1 ++ ':' :: property.2

theorem renderFields_eq_joinCommas (fields : List (CodeUnits × CodeUnits.Value)) :
    Tree.renderFields CodeUnits.quoting [] fields =
      joinCommas (fields.map fun property ↦
        propertyText (property.1, Tree.render CodeUnits.quoting property.2)) ++ ['\x7d'] := by
  have hquote : CodeUnits.quoting.quote = CodeUnits.quote := rfl
  have hrest : ∀ fields : List (CodeUnits × CodeUnits.Value),
      Tree.renderFields CodeUnits.quoting [','] fields = (fields.map fun property ↦
        propertyText (property.1, Tree.render CodeUnits.quoting property.2)).flatMap (',' :: ·) ++
          ['\x7d'] := by
    intro fields
    induction fields with
    | nil => rfl
    | cons property rest ih => simp [Tree.renderFields, ih, propertyText, hquote]
  cases fields with
  | nil => rfl
  | cons property rest => simp [Tree.renderFields, hrest, joinCommas, propertyText, hquote]

mutual

/-- The canonical text is the text of the data with the properties of every object in order. -/
theorem canonicalText_eq_render (value : Plain) :
    canonicalText value = Tree.render CodeUnits.quoting (value.orderedBy compare) := by
  match value with
  | .null | .bool true | .bool false | .num _ | .str _ => rfl
  | .arr items =>
      rw [canonicalText, orderedBy, Tree.render, renderItems_eq_joinCommas, canonicalItems_eq_map]
  | .obj fields =>
      rw [canonicalText, orderedBy, Tree.render, renderFields_eq_joinCommas, canonicalFields_eq_map,
        ← map_sortBy_byName, List.map_map]
      rfl

theorem canonicalItems_eq_map (items : List Plain) :
    canonicalItems items = (orderedItemsBy compare items).map (Tree.render CodeUnits.quoting) := by
  match items with
  | [] => rfl
  | item :: rest =>
      rw [canonicalItems, orderedItemsBy, List.map_cons, canonicalText_eq_render item,
        canonicalItems_eq_map rest]

theorem canonicalFields_eq_map (fields : List (CodeUnits × Plain)) :
    canonicalFields fields = (orderedFieldsBy compare fields).map fun property ↦
      (property.1, Tree.render CodeUnits.quoting property.2) := by
  match fields with
  | [] => rfl
  | (name, value) :: rest =>
      rw [canonicalFields, orderedFieldsBy, List.map_cons, canonicalText_eq_render value,
        canonicalFields_eq_map rest]

end

/-- Canonical texts are equal exactly for the same data. -/
theorem canonicalText_eq_iff {left right : Plain} (hleft : left.OneOfEach)
    (hright : right.OneOfEach) : canonicalText left = canonicalText right ↔ Same left right := by
  rw [canonicalText_eq_render, canonicalText_eq_render, Tree.render_inj, orderedBy_eq_iff hleft hright]

/-! ## Text of JSON values -/

/-- Code units order names as the comparison of receipts does. -/
theorem compareUnits_ofString (left right : String × JsonValue) (x y : CodeUnits.Value) :
    compareUnits (CodeUnits.ofString left.1, x) (CodeUnits.ofString right.1, y) =
      compareNames left right :=
  CodeUnits.compare_ofString left.1 right.1

mutual

theorem ordered_ofJson (value : JsonValue) :
    (ofJson value).orderedBy compare = CodeUnits.ofTree (sortKeys value).tree := by
  match value with
  | .null | .bool _ | .num _ | .str _ => rfl
  | .arr items =>
      rw [ofJson, orderedBy, sortKeys, JsonValue.tree, CodeUnits.ofTree, orderedItems_ofItems]
  | .obj fields =>
      rw [ofJson, orderedBy, sortKeys, JsonValue.tree, CodeUnits.ofTree, orderedFields_ofFields]
      rw [CodeUnits.ofFields_fieldTrees]
      congr 1
      exact (List.map_insertionSort (fun left right ↦ (compareNames left right).isLE = true)
        (fun left right ↦ (compareUnits left right).isLE = true) _ _ fun _ _ _ _ ↦ by
          rw [compareUnits_ofString]).symm

theorem orderedItems_ofItems (items : List JsonValue) :
    orderedItemsBy compare (ofItems items) = CodeUnits.ofTrees (JsonValue.itemTrees (sortItems items)) := by
  match items with
  | [] => rfl
  | item :: rest =>
      rw [ofItems, orderedItemsBy, sortItems, JsonValue.itemTrees, CodeUnits.ofTrees,
        ordered_ofJson item, orderedItems_ofItems rest]

theorem orderedFields_ofFields (fields : List (String × JsonValue)) :
    orderedFieldsBy compare (ofFields fields) = (sortFields fields).map fun property ↦
      (CodeUnits.ofString property.1, CodeUnits.ofTree property.2.tree) := by
  match fields with
  | [] => rfl
  | (name, value) :: rest =>
      rw [ofFields, orderedFieldsBy, sortFields, List.map_cons, ordered_ofJson value,
        orderedFields_ofFields rest]

end

/-- On JSON values the two canonical texts are one. -/
theorem canonicalText_ofJson (value : JsonValue) :
    String.ofList (canonicalText (ofJson value)) = canonicalJson value := by
  rw [canonicalText_eq_render, ordered_ofJson, CodeUnits.render_ofTree, render_tree]
  rfl

variable (crypto : Crypto)

/-- The digest that a receipt binds to, of the data that one program holds
(`replicationReceiptTransferDigest`). -/
def receiptDigest (data : Plain) : String :=
  Hex.encode (crypto.sha256 (utf8 (String.ofList (canonicalText data))))

theorem receiptDigest_ofJson (crypto : ReceiptCrypto) (transfer : JsonValue) :
    receiptDigest crypto.toCrypto (ofJson transfer) =
      replicationReceiptTransferDigest crypto transfer := by
  rw [receiptDigest, canonicalText_ofJson]
  rfl

/-- The digest tells the two texts apart. -/
def CollisionFreeData (left right : Plain) : Prop :=
  crypto.sha256 (utf8 (String.ofList (canonicalText left))) =
      crypto.sha256 (utf8 (String.ofList (canonicalText right))) →
    utf8 (String.ofList (canonicalText left)) = utf8 (String.ofList (canonicalText right))

/-! ## Resolved transfers -/

/-- A transfer that a community node admits: the ledger of the records that it retains has it
(`receiptFor`). -/
def NodeResolves (communityId : String) (transfer : Transfer) : Prop :=
  ∃ localeCompare records state, (∀ record ∈ records, WellFormed record) ∧
    resolveTimebankRecords crypto localeCompare communityId records = .ok state ∧
    transfer ∈ state.ledger.transfers

/-- A transfer that a desktop shows: the ledger of the feeds that it reads has it. -/
def DesktopResolves (communityId : String) (transfer : Transfer) : Prop :=
  ∃ localeCompare histories state,
    (∀ history ∈ histories, ∀ record ∈ history.records, WellFormed record) ∧
    resolveTimebankMemberFeeds crypto localeCompare communityId histories = .ok state ∧
    transfer ∈ state.ledger.transfers

variable {crypto}

/-- What a desktop resolves from feeds, a node resolves from their records. -/
theorem DesktopResolves.node {communityId : String} {transfer : Transfer}
    (h : DesktopResolves crypto communityId transfer) : NodeResolves crypto communityId transfer := by
  obtain ⟨localeCompare, histories, state, hwell, hstate, htransfer⟩ := h
  obtain ⟨-, -, -, hrecords⟩ := resolveTimebankMemberFeeds_eq_ok.mp hstate
  refine ⟨localeCompare, histories.flatMap (·.records), state, fun record hrecord ↦ ?_, hrecords,
    htransfer⟩
  obtain ⟨history, hhistory, hmem⟩ := List.mem_flatMap.mp hrecord
  exact hwell history hhistory record hmem

/-- A resolved transfer was created from a well formed payload. -/
theorem NodeResolves.created {communityId : String} {transfer : Transfer}
    (h : NodeResolves crypto communityId transfer) :
    ∃ payload, WellFormed payload ∧ createTransfer payload = .ok transfer := by
  obtain ⟨localeCompare, records, state, hwell, hstate, htransfer⟩ := h
  obtain ⟨-, -, hresolved⟩ := resolved_of_eq_ok hstate
  obtain ⟨-, record, ⟨source, hsource, hcreated⟩, hcarries⟩ := hresolved.ledger_held htransfer
  obtain ⟨payload, hpayload, hnormal⟩ := (createRecordEnvelope_eq_ok.mp hcreated).payload
  refine ⟨record.payload, wellFormed_normalizeJson ?_ hnormal, ?_⟩
  · exact wellFormed_of_field (hwell source hsource) hpayload
  · exact normalizeTransfer_eq_ok.mp hcarries.payload

/-- An attestation that was read has one property of each name. -/
theorem oneOfEach_readAttestation {item : JsonValue} {attestation : TransferAttestation}
    (hitem : WellFormed item) (h : readAttestation item = .ok attestation) :
    (ofJson attestation.toJson).OneOfEach := by
  obtain ⟨hvalid, -, -, -, -, hrest⟩ := readAttestation_eq_ok.mp h
  have hsublist : attestation.rest.Sublist item.properties := hrest ▸ List.filter_sublist
  have hproperties : (item.properties.map Prod.fst).Nodup ∧
      ∀ property ∈ item.properties, WellFormed property.2 := by
    cases item with
    | obj fields => exact ⟨hitem.1.nodup, wellFormedFields_iff.mp hitem.2⟩
    | _ => exact ⟨List.nodup_nil, nofun⟩
  rw [TransferAttestation.toJson, oneOfEach_obj]
  have hnames : ∀ name ∈ attestation.rest.map Prod.fst, name ∉ attestationNames := by
    intro name hname
    obtain ⟨property, hproperty, rfl⟩ := List.mem_map.mp hname
    exact hvalid.rest property hproperty
  constructor
  · show (attestationNames ++ attestation.rest.map Prod.fst).Nodup
    refine List.Nodup.append (by decide) (hproperties.1.sublist (hsublist.map _)) ?_
    intro name hname hrest
    exact hnames name hrest hname
  · intro property hproperty
    simp only [List.mem_cons] at hproperty
    rcases hproperty with rfl | rfl | rfl | rfl | hother
    · trivial
    · trivial
    · trivial
    · trivial
    · exact oneOfEach_ofJson (hproperties.2 property (hsublist.subset hother))

/-- A resolved transfer has one property of each name, at every level. -/
theorem oneOfEach_createTransfer {payload : JsonValue} {transfer : Transfer}
    (hpayload : WellFormed payload) (h : createTransfer payload = .ok transfer) :
    (ofJson transfer.toJson).OneOfEach := by
  have hvalid := valid_of_createTransfer h
  obtain ⟨hterms, hattestations⟩ := createTransfer_eq_ok.mp h
  have hdescribes := (createTransferTerms_eq_ok.mp hterms).1
  obtain ⟨first, second, p, r, hitems, hpair, -, -, hread⟩ :=
    (normalizeAttestations_eq_ok hvalid.distinct).mp hattestations
  have hlist := wellFormed_of_field hpayload hitems
  rw [WellFormed, wellFormedItems_iff] at hlist
  have hfirst := hlist first (by simp)
  have hsecond := hlist second (by simp)
  have hboth : (ofJson p.toJson).OneOfEach ∧ (ofJson r.toJson).OneOfEach := by
    rcases hread with ⟨hp, hr⟩ | ⟨hr, hp⟩
    · exact ⟨oneOfEach_readAttestation hfirst hp, oneOfEach_readAttestation hsecond hr⟩
    · exact ⟨oneOfEach_readAttestation hsecond hp, oneOfEach_readAttestation hfirst hr⟩
  have hsource : ∀ source, transfer.sourceProposalId = some source → (ofJson source).OneOfEach := by
    intro source hfound
    exact oneOfEach_ofJson (wellFormed_of_field hpayload (hdescribes.sourceProposalId.trans hfound))
  have hattested : (ofJson (.arr (transfer.attestations.map TransferAttestation.toJson))).OneOfEach := by
    rw [oneOfEach_arr, hpair]
    simpa using hboth
  obtain ⟨⟨id, community, source, provider, recipient, minutes, reverses⟩, attestations⟩ := transfer
  rw [Transfer.toJson, oneOfEach_obj]
  constructor
  · cases source <;> cases reverses <;> simp [TransferTerms.properties]
  · intro property hproperty
    simp only [TransferTerms.properties, List.mem_append, List.mem_cons, List.not_mem_nil, or_false,
      Option.mem_toList, Option.map_eq_some_iff] at hproperty
    rcases hproperty with ((((rfl | rfl) | ⟨value, hvalue, rfl⟩) | (rfl | rfl | rfl)) |
      ⟨value, -, rfl⟩) | rfl
    · trivial
    · trivial
    · exact hsource value hvalue
    · trivial
    · trivial
    · trivial
    · trivial
    · exact hattested

/-! ## The same transfer -/

/-- Attestations with the same signed terms, and the same other properties in whatever order. -/
structure EqualAttestations (left right : TransferAttestation) : Prop where
  signed : { left with rest := [] } = { right with rest := [] }
  rest : SameJson (.obj left.rest) (.obj right.rest)

/-- Transfers with the same terms and the same attestations. -/
structure EqualTransfers (left right : Transfer) : Prop where
  terms : { left.toTransferTerms with sourceProposalId := none } =
    { right.toTransferTerms with sourceProposalId := none }
  source : Option.Rel SameJson left.sourceProposalId right.sourceProposalId
  attestations : List.Forall₂ EqualAttestations left.attestations right.attestations

theorem rel_sameJson_str {left right : Option String} :
    Option.Rel SameJson (left.map .str) (right.map .str) ↔ left = right := by
  constructor
  · intro h
    cases left <;> cases right <;> cases h
    · rfl
    · rename_i h
      rw [sameJson_str.mp h]
  · rintro rfl
    cases left with
    | none => exact .none
    | some text => exact .some (sameJson_str.mpr rfl)

/-- Attestation objects are the same data exactly for equal attestations. -/
theorem sameJson_attestation {left right : TransferAttestation} (hleft : left.Valid)
    (hright : right.Valid) : SameJson left.toJson right.toJson ↔ EqualAttestations left right := by
  have hother : ∀ {attestation : TransferAttestation}, attestation.Valid → ∀ {name : String},
      name ∈ attestationNames → JsonValue.get name attestation.rest = none := by
    intro attestation hvalid name hname
    rw [JsonValue.get, Option.map_eq_none_iff, KeyedMap.lookup_eq_none]
    rintro property hproperty rfl
    exact hvalid.rest property hproperty hname
  rw [TransferAttestation.toJson, TransferAttestation.toJson, sameJson_obj]
  constructor
  · intro h
    have hmember := h "memberId"
    have hkey := h "keyId"
    have hdigest := h "payloadDigest"
    have hsignature := h "signature"
    simp [SameProperty] at hmember hkey hdigest hsignature
    refine ⟨?_, sameJson_obj.mpr fun name ↦ ?_⟩
    · simp [hmember, hkey, hdigest, hsignature]
    · by_cases hname : name ∈ attestationNames
      · rw [SameProperty, hother hleft hname, hother hright hname]
        exact .none
      · have hproperty := h name
        simp only [attestationNames, List.mem_cons, List.not_mem_nil, or_false, not_or] at hname
        simpa only [SameProperty, JsonValue.get_cons, Ne.symm hname.1, Ne.symm hname.2.1,
          Ne.symm hname.2.2.1, Ne.symm hname.2.2.2, if_false] using hproperty
  · rintro ⟨hsigned, hrest⟩ name
    have hproperty := sameJson_obj.mp hrest name
    obtain ⟨member, key, digest, signature, rest⟩ := left
    obtain ⟨member', key', digest', signature', rest'⟩ := right
    simp only [TransferAttestation.mk.injEq, and_true] at hsigned
    obtain ⟨rfl, rfl, rfl, rfl⟩ := hsigned
    exact .cons (sameJson_str.mpr rfl) (.cons (sameJson_str.mpr rfl)
      (.cons (sameJson_str.mpr rfl) (.cons (sameJson_str.mpr rfl) hproperty)))

/-- Transfer objects are the same data exactly for equal transfers. -/
theorem sameJson_transfer {left right : Transfer} (hleft : left.Valid) (hright : right.Valid) :
    SameJson left.toJson right.toJson ↔ EqualTransfers left right := by
  obtain ⟨hl, -, hlList⟩ := describes_properties left.toTransferTerms
    (.arr (left.attestations.map TransferAttestation.toJson))
  obtain ⟨hr, -, hrList⟩ := describes_properties right.toTransferTerms
    (.arr (right.attestations.map TransferAttestation.toJson))
  have hattestations : SameJson (.arr (left.attestations.map TransferAttestation.toJson))
      (.arr (right.attestations.map TransferAttestation.toJson)) ↔
        List.Forall₂ EqualAttestations left.attestations right.attestations := by
    obtain ⟨p, r, hp, hpvalid, hrvalid, -⟩ := hleft.attested
    obtain ⟨p', r', hp', hpvalid', hrvalid', -⟩ := hright.attested
    rw [sameJson_arr, hp, hp']
    simp only [List.map_cons, List.map_nil, List.forall₂_cons, List.Forall₂.nil, and_true,
      sameJson_attestation hpvalid hpvalid', sameJson_attestation hrvalid hrvalid']
  rw [Transfer.toJson, Transfer.toJson, sameJson_obj]
  constructor
  · intro h
    have hid := h "id"
    have hcommunity := h "communityId"
    have hprovider := h "providerMemberId"
    have hrecipient := h "recipientMemberId"
    have hminutes := h "minutes"
    have hreverses := h "reversesTransferId"
    have hsource := h "sourceProposalId"
    have hlist := h "attestations"
    unfold SameProperty at hid hcommunity hprovider hrecipient hminutes hreverses hsource hlist
    rw [← JsonValue.field_obj, ← JsonValue.field_obj] at hid hcommunity hprovider hrecipient
    rw [← JsonValue.field_obj, ← JsonValue.field_obj] at hminutes hreverses hsource
    rw [hl.id, hr.id, Option.rel_some_some, sameJson_str] at hid
    rw [hl.communityId, hr.communityId, Option.rel_some_some, sameJson_str] at hcommunity
    rw [hl.providerMemberId, hr.providerMemberId, Option.rel_some_some, sameJson_str] at hprovider
    rw [hl.recipientMemberId, hr.recipientMemberId, Option.rel_some_some, sameJson_str] at hrecipient
    rw [hl.minutes, hr.minutes, Option.rel_some_some, sameJson_int] at hminutes
    rw [hl.reversesTransferId, hr.reversesTransferId, rel_sameJson_str] at hreverses
    rw [hl.sourceProposalId, hr.sourceProposalId] at hsource
    rw [hlList, hrList, Option.rel_some_some, hattestations] at hlist
    refine ⟨?_, hsource, hlist⟩
    simp only [hid, hcommunity, hprovider, hrecipient, hminutes, hreverses]
  · rintro ⟨hterms, hsource, hlist⟩ name
    have hitems := hattestations.mpr hlist
    obtain ⟨⟨id, community, source, provider, recipient, minutes, reverses⟩, attestations⟩ := left
    obtain ⟨⟨id', community', source', provider', recipient', minutes', reverses'⟩, attestations'⟩ :=
      right
    simp only [TransferTerms.mk.injEq, true_and] at hterms
    obtain ⟨rfl, rfl, rfl, rfl, rfl, rfl⟩ := hterms
    have hlast : SameProperty
        ((reverses.map fun id ↦ ("reversesTransferId", JsonValue.str id)).toList ++
          [("attestations", .arr (attestations.map TransferAttestation.toJson))])
        ((reverses.map fun id ↦ ("reversesTransferId", JsonValue.str id)).toList ++
          [("attestations", .arr (attestations'.map TransferAttestation.toJson))]) name := by
      cases reverses with
      | none => exact .cons hitems (.nil name)
      | some reversed => exact .cons (sameJson_str.mpr rfl) (.cons hitems (.nil name))
    have hprovider : SameJson (.str provider) (.str provider) := sameJson_str.mpr rfl
    have hrecipient : SameJson (.str recipient) (.str recipient) := sameJson_str.mpr rfl
    have hminutes : SameJson (.int minutes) (.int minutes) := sameJson_int.mpr rfl
    cases source <;> cases source' <;> cases hsource
    · exact .cons (sameJson_str.mpr rfl) (.cons (sameJson_str.mpr rfl)
        (.cons hprovider (.cons hrecipient (.cons hminutes hlast))))
    · rename_i hsource
      exact .cons (sameJson_str.mpr rfl) (.cons (sameJson_str.mpr rfl)
        (.cons hsource (.cons hprovider (.cons hrecipient (.cons hminutes hlast)))))

/-! ## Agreement -/

/-- Whatever order its properties are in, the data of a resolved transfer has the written form of its
object. -/
theorem NodeResolves.ordered_eq {communityId : String} {transfer : Transfer}
    (h : NodeResolves crypto communityId transfer) {data : Plain} (hdata : data.OneOfEach)
    (hsame : Same data (ofJson transfer.toJson)) :
    data.orderedBy compare = (ofJson transfer.toJson).orderedBy compare := by
  obtain ⟨payload, hpayload, hcreated⟩ := h.created
  exact orderedBy_eq_of_same hsame hdata (oneOfEach_createTransfer hpayload hcreated)

end PeerHours.PeerRuntime

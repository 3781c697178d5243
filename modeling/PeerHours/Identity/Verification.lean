import PeerHours.Identity.Lifecycle
import PeerHours.Ledger.ApplyTransfers
import Mathlib.Data.List.Induction

/-!
# Signature verification

The bytes that participants sign for a transfer, and the verifiers built from a snapshot of the
authorizations: only active keys sign, each community uses a key id once, and one public key belongs
to one member.
-/

namespace PeerHours.TimebankIdentity

open Checked Json KeyedMap
open TimebankLedger (TransferTerms Transfer TransferAttestation SignatureVerifier createTransferTerms
  createTransfer)

variable {crypto : Crypto}

/-! ## Transfer payloads -/

/-- The canonical terms of a transfer, with `null` for an omitted term. -/
def canonicalTerms (terms : TransferTerms) : JsonValue :=
  .obj [("schema", .str "peer-hours/ledger-transfer/v1"), ("id", .str terms.id),
    ("communityId", .str terms.communityId),
    ("sourceProposalId", terms.sourceProposalId.getD .null),
    ("providerMemberId", .str terms.providerMemberId),
    ("recipientMemberId", .str terms.recipientMemberId), ("minutes", .int terms.minutes),
    ("reversesTransferId", (terms.reversesTransferId.map .str).getD .null)]

/-- Encodes the immutable transfer terms that Ed25519 participants sign. -/
def canonicalTransferPayload (terms : TransferTerms) : Except String Buffer := do
  let normalized ← createTransferTerms terms.toJson
  pure (jsonBytes (canonicalTerms normalized))

variable (crypto) in
/-- The canonical base64url SHA-256 digest of the exact bytes participants sign. -/
def transferPayloadDigest (terms : TransferTerms) : Except String String := do
  let payload ← canonicalTransferPayload terms
  pure (Base64Url.encode (crypto.sha256 payload))

@[simp] theorem canonicalTransferPayload_of_valid {terms : TransferTerms} (h : terms.Valid) :
    canonicalTransferPayload terms = .ok (jsonBytes (canonicalTerms terms)) := by
  rw [canonicalTransferPayload, TimebankLedger.createTransferTerms_toJson h]
  rfl

variable (crypto) in
@[simp] theorem transferPayloadDigest_of_valid {terms : TransferTerms} (h : terms.Valid) :
    transferPayloadDigest crypto terms =
      .ok (Base64Url.encode (crypto.sha256 (jsonBytes (canonicalTerms terms)))) := by
  rw [transferPayloadDigest, canonicalTransferPayload_of_valid h]
  rfl

/-- Input used to create one participant-owned attestation over immutable transfer terms. -/
structure CreateParticipantTransferAttestationInput where
  transfer : TransferTerms
  memberId : String
  keyId : String
  signCanonicalPayload : Buffer → Except String String

variable (crypto) in
/-- Creates one participant-owned attestation for deterministic transfer terms. -/
def createParticipantTransferAttestation (input : CreateParticipantTransferAttestationInput) :
    Except String TransferAttestation := do
  let transfer ← createTransferTerms input.transfer.toJson
  let _ ← assertPresent (some (.str input.memberId)) "Attesting member id"
  let _ ← assertPresent (some (.str input.keyId)) "Attestation signing key id"
  require (input.memberId = transfer.providerMemberId ∨ input.memberId = transfer.recipientMemberId)
    "Only a transfer participant may create an attestation."
  let payload ← canonicalTransferPayload transfer
  match input.signCanonicalPayload payload with
  | .error _ => .error "The member key custodian could not sign the transfer terms."
  | .ok signature => do
      require ((decodeBase64UrlSignature signature).isSome = true)
        "A transfer attestation signer must return a canonical Ed25519 signature."
      let payloadDigest ← transferPayloadDigest crypto transfer
      pure
        { memberId := input.memberId
          keyId := input.keyId
          payloadDigest := payloadDigest
          signature := signature
          rest := [] }

/-- A participant whose signer returns a canonical signature can always attest valid terms. -/
theorem createParticipantTransferAttestation_of_valid {terms : TransferTerms} (h : terms.Valid)
    {memberId keyId signature : String} {sign : Buffer → Except String String}
    (hmember : memberId = terms.providerMemberId ∨ memberId = terms.recipientMemberId)
    (hkey : Text.blank keyId = false)
    (hsign : sign (jsonBytes (canonicalTerms terms)) = .ok signature)
    (hsignature : (decodeBase64UrlSignature signature).isSome = true) :
    createParticipantTransferAttestation crypto
        { transfer := terms, memberId := memberId, keyId := keyId, signCanonicalPayload := sign } =
      .ok
        { memberId := memberId
          keyId := keyId
          payloadDigest := Base64Url.encode (crypto.sha256 (jsonBytes (canonicalTerms terms)))
          signature := signature
          rest := [] } := by
  have hblank : Text.blank memberId = false := by
    rcases hmember with rfl | rfl
    · exact h.providerMemberId
    · exact h.recipientMemberId
  have hread : assertPresent (some (.str memberId)) "Attesting member id" = .ok ⟨memberId, hblank⟩ :=
    assertPresent_eq_ok.mpr rfl
  have hreadKey : assertPresent (some (.str keyId)) "Attestation signing key id" = .ok ⟨keyId, hkey⟩ :=
    assertPresent_eq_ok.mpr rfl
  simp [createParticipantTransferAttestation, TimebankLedger.createTransferTerms_toJson h, hread,
    hreadKey, hmember, require, canonicalTransferPayload_of_valid h, hsign, hsignature,
    transferPayloadDigest_of_valid crypto h, pure, Except.pure]

/-! ## Indexing authorizations -/

/-- The index under construction: active keys by scope, used key ids, and owners by fingerprint. -/
structure KeyIndex (crypto : Crypto) where
  keysByCommunityMemberAndId : List (String × Ed25519PublicKey crypto)
  authorizationIds : List String
  keyOwners : List (String × String)

/-- The community-scoped key id of an authorization. -/
def MemberSigningKeyAuthorization.authorizationId
    (authorization : MemberSigningKeyAuthorization crypto) : String :=
  authorization.communityId ++ ("\x00" ++ authorization.keyId)

/-- The community-scoped member of an authorization. -/
def MemberSigningKeyAuthorization.keyOwner (authorization : MemberSigningKeyAuthorization crypto) :
    String :=
  authorization.communityId ++ ("\x00" ++ authorization.memberId)

/-- The fingerprint of an authorization's key. -/
def MemberSigningKeyAuthorization.fingerprint
    (authorization : MemberSigningKeyAuthorization crypto) : String :=
  signingKeyFingerprint authorization.publicKey

/-- Adds one authorization to the index. -/
def indexAuthorizedKey (index : KeyIndex crypto)
    (authorization : MemberSigningKeyAuthorization crypto) : Except String (KeyIndex crypto) := do
  require (authorization.authorizationId ∉ index.authorizationIds)
    "A community signing key id may be authorized only once."
  agrees Prod.snd "A community signing key cannot be authorized for multiple members."
    (lookup Prod.fst authorization.fingerprint index.keyOwners)
    (authorization.fingerprint, authorization.keyOwner)
  pure
    { keysByCommunityMemberAndId :=
        if authorization.active then
          upsert Prod.fst (authorization.indexKey, authorization.publicKey)
            index.keysByCommunityMemberAndId
        else index.keysByCommunityMemberAndId
      authorizationIds := index.authorizationIds ++ [authorization.authorizationId]
      keyOwners := upsert Prod.fst (authorization.fingerprint, authorization.keyOwner)
        index.keyOwners }

/-- Indexes only active, uniquely identified keys by their community and authorized member. -/
def indexAuthorizedKeys (authorizations : List (MemberSigningKeyAuthorization crypto)) :
    Except String (List (String × Ed25519PublicKey crypto)) := do
  let index ← authorizations.foldlM indexAuthorizedKey ⟨[], [], []⟩
  pure index.keysByCommunityMemberAndId

/-! ## Verifiers -/

/-- Immutable inputs used to verify one authorized member's detached Ed25519 signature. -/
structure VerifyMemberSignatureInput where
  communityId : String
  memberId : String
  keyId : String
  payload : Buffer
  signature : String

/-- Verifies a detached payload signature with the key indexed for its member and key id. -/
def verifyMemberSignature (keysByCommunityMemberAndId : List (String × Ed25519PublicKey crypto))
    (input : VerifyMemberSignatureInput) : Bool :=
  match lookup Prod.fst (keyFor input.communityId input.memberId input.keyId)
      keysByCommunityMemberAndId, decodeBase64UrlSignature input.signature with
  | some (_, publicKey), some signature => crypto.verify publicKey.key input.payload signature
  | _, _ => false

/-- Creates a verifier for arbitrary immutable member-authored payloads. -/
def createEd25519MemberSignatureVerifier
    (authorizations : List (MemberSigningKeyAuthorization crypto)) :
    Except String (VerifyMemberSignatureInput → Bool) := do
  let keysByCommunityMemberAndId ← indexAuthorizedKeys authorizations
  pure (verifyMemberSignature keysByCommunityMemberAndId)

/-- Creates a ledger-compatible verifier that accepts only active Ed25519 keys authorized for the
attesting member in the transfer's own community. -/
def createEd25519SignatureVerifier
    (authorizations : List (MemberSigningKeyAuthorization crypto)) :
    Except String SignatureVerifier := do
  let verifyMemberSignature ← createEd25519MemberSignatureVerifier authorizations
  pure fun transfer attestation ↦ do
    let payloadDigest ← transferPayloadDigest crypto transfer.toTransferTerms
    if attestation.payloadDigest ≠ payloadDigest then pure false
    else
      let payload ← canonicalTransferPayload transfer.toTransferTerms
      pure (verifyMemberSignature
        { communityId := transfer.communityId
          memberId := attestation.memberId
          keyId := attestation.keyId
          payload := payload
          signature := attestation.signature })

/-- Admits a transfer only when both canonical participant attestations verify. -/
def assertAuthorizedTransferAttestations (transfer : Transfer)
    (authorizations : List (MemberSigningKeyAuthorization crypto)) : Except String Transfer := do
  let normalized ← createTransfer transfer.toJson
  let verifyAttestation ← createEd25519SignatureVerifier authorizations
  normalized.attestations |> checkAll fun attestation ↦
    require (verifyAttestation normalized attestation = .ok true)
      "Each participant must provide a valid authorized Ed25519 transfer attestation."
  pure normalized

/-! ## What the index holds -/

/-- Two authorizations can stand in one index: their key ids differ, and a shared public key has one
owner. -/
def Compatible (left right : MemberSigningKeyAuthorization crypto) : Prop :=
  left.authorizationId ≠ right.authorizationId ∧
    (left.fingerprint = right.fingerprint → left.keyOwner = right.keyOwner)

/-- The index after one more authorization. -/
def KeyIndex.add (index : KeyIndex crypto) (authorization : MemberSigningKeyAuthorization crypto) :
    KeyIndex crypto :=
  { keysByCommunityMemberAndId :=
      if authorization.active then
        upsert Prod.fst (authorization.indexKey, authorization.publicKey)
          index.keysByCommunityMemberAndId
      else index.keysByCommunityMemberAndId
    authorizationIds := index.authorizationIds ++ [authorization.authorizationId]
    keyOwners := upsert Prod.fst (authorization.fingerprint, authorization.keyOwner)
      index.keyOwners }

/-- The index records the ids and the owners of the authorizations read so far. -/
structure Records (authorizations : List (MemberSigningKeyAuthorization crypto))
    (index : KeyIndex crypto) : Prop where
  ids : index.authorizationIds = authorizations.map (·.authorizationId)
  nodup : (index.keyOwners.map Prod.fst).Nodup
  owners : ∀ owner, owner ∈ index.keyOwners ↔
    ∃ authorization ∈ authorizations, (authorization.fingerprint, authorization.keyOwner) = owner

theorem indexAuthorizedKey_eq_ok {done : List (MemberSigningKeyAuthorization crypto)}
    {index next : KeyIndex crypto} {authorization : MemberSigningKeyAuthorization crypto}
    (h : Records done index) :
    indexAuthorizedKey index authorization = .ok next ↔
      (∀ earlier ∈ done, Compatible earlier authorization) ∧ index.add authorization = next := by
  simp only [indexAuthorizedKey, bind_eq_ok, require_eq_ok, agrees_eq_ok, pure_eq_ok]
  constructor
  · rintro ⟨_, hfresh, _, howner, hnext⟩
    refine ⟨fun earlier hearlier ↦ ⟨?_, ?_⟩, hnext⟩
    · rintro hid
      exact hfresh (h.ids ▸ hid ▸ List.mem_map_of_mem hearlier)
    · intro hfingerprint
      have hmem := (h.owners _).mpr ⟨earlier, hearlier, rfl⟩
      exact howner _ (hfingerprint ▸ lookup_of_mem h.nodup hmem)
  · rintro ⟨hcompatible, hnext⟩
    refine ⟨(), ?_, (), ?_, hnext⟩
    · rw [h.ids, List.mem_map]
      rintro ⟨earlier, hearlier, hid⟩
      exact (hcompatible earlier hearlier).1 hid
    · intro owner howner
      obtain ⟨hmem, hkey⟩ := lookup_eq_some howner
      obtain ⟨earlier, hearlier, rfl⟩ := (h.owners owner).mp hmem
      exact (hcompatible earlier hearlier).2 hkey

theorem Records.add {done : List (MemberSigningKeyAuthorization crypto)} {index : KeyIndex crypto}
    {authorization : MemberSigningKeyAuthorization crypto} (h : Records done index)
    (hcompatible : ∀ earlier ∈ done, Compatible earlier authorization) :
    Records (done ++ [authorization]) (index.add authorization) := by
  refine ⟨by simp [KeyIndex.add, h.ids], nodup_upsert h.nodup, fun owner ↦ ?_⟩
  have hagrees : ∀ entry ∈ index.keyOwners,
      entry.1 = (authorization.fingerprint, authorization.keyOwner).1 →
      entry = (authorization.fingerprint, authorization.keyOwner) := by
    intro entry hentry hkey
    obtain ⟨earlier, hearlier, rfl⟩ := (h.owners entry).mp hentry
    exact Prod.ext hkey ((hcompatible earlier hearlier).2 hkey)
  rw [KeyIndex.add, mem_upsert_of_agrees hagrees, h.owners]
  simp only [List.mem_append, List.mem_singleton, or_and_right, exists_or, exists_eq_left]
  rw [or_comm, eq_comm (a := owner)]

/-- The whole list is indexed exactly when its authorizations are pairwise compatible. -/
theorem foldlM_indexAuthorizedKey (authorizations : List (MemberSigningKeyAuthorization crypto))
    {done : List (MemberSigningKeyAuthorization crypto)} {index result : KeyIndex crypto}
    (h : Records done index) :
    authorizations.foldlM indexAuthorizedKey index = .ok result ↔
      (∀ earlier ∈ done, ∀ later ∈ authorizations, Compatible earlier later) ∧
      authorizations.Pairwise Compatible ∧ authorizations.foldl KeyIndex.add index = result := by
  induction authorizations generalizing done index with
  | nil => simp
  | cons authorization rest ih =>
      rw [List.foldlM_cons, bind_eq_ok, List.foldl_cons, List.pairwise_cons]
      simp only [indexAuthorizedKey_eq_ok h, List.forall_mem_cons]
      constructor
      · rintro ⟨_, ⟨hcompatible, rfl⟩, hrest⟩
        obtain ⟨hdone, hpairs, hresult⟩ := (ih (h.add hcompatible)).mp hrest
        refine ⟨fun earlier hearlier ↦ ⟨hcompatible earlier hearlier, ?_⟩, ⟨?_, hpairs⟩, hresult⟩
        · exact hdone earlier (List.mem_append_left _ hearlier)
        · exact hdone authorization (by simp)
      · rintro ⟨hdone, ⟨hhead, hpairs⟩, hresult⟩
        have hcompatible : ∀ earlier ∈ done, Compatible earlier authorization :=
          fun earlier hearlier ↦ (hdone earlier hearlier).1
        refine ⟨_, ⟨hcompatible, rfl⟩, (ih (h.add hcompatible)).mpr ⟨?_, hpairs, hresult⟩⟩
        intro earlier hearlier
        rcases List.mem_append.mp hearlier with hearlier | hearlier
        · exact (hdone earlier hearlier).2
        · rw [List.mem_singleton.mp hearlier]
          exact hhead

/-- The active keys of a list, each under its index key; a later one replaces an earlier one. -/
def indexedKeys (authorizations : List (MemberSigningKeyAuthorization crypto)) :
    List (String × Ed25519PublicKey crypto) :=
  (authorizations.foldl KeyIndex.add ⟨[], [], []⟩).keysByCommunityMemberAndId

theorem indexAuthorizedKeys_eq_ok {authorizations : List (MemberSigningKeyAuthorization crypto)}
    {keys : List (String × Ed25519PublicKey crypto)} :
    indexAuthorizedKeys authorizations = .ok keys ↔
      authorizations.Pairwise Compatible ∧ indexedKeys authorizations = keys := by
  have hempty : Records ([] : List (MemberSigningKeyAuthorization crypto)) ⟨[], [], []⟩ :=
    ⟨rfl, by simp, by simp⟩
  simp only [indexAuthorizedKeys, bind_eq_ok, pure_eq_ok, foldlM_indexAuthorizedKey _ hempty,
    indexedKeys]
  constructor
  · rintro ⟨_, ⟨-, hpairs, rfl⟩, hkeys⟩
    exact ⟨hpairs, hkeys⟩
  · rintro ⟨hpairs, hkeys⟩
    exact ⟨_, ⟨by simp, hpairs, rfl⟩, hkeys⟩

/-- The key that the active authorizations of a list hold under an index key: that of the last. -/
def activeKey? (authorizations : List (MemberSigningKeyAuthorization crypto)) (indexKey : String) :
    Option (Ed25519PublicKey crypto) :=
  ((authorizations.filter fun authorization ↦
    authorization.active && decide (authorization.indexKey = indexKey)).getLast?).map (·.publicKey)

theorem lookup_indexedKeys (authorizations : List (MemberSigningKeyAuthorization crypto))
    (indexKey : String) :
    (lookup Prod.fst indexKey (indexedKeys authorizations)).map Prod.snd =
      activeKey? authorizations indexKey := by
  induction authorizations using List.reverseRecOn with
  | nil => rfl
  | append_singleton earlier last ih =>
      rw [indexedKeys, List.foldl_append, List.foldl_cons, List.foldl_nil, KeyIndex.add, activeKey?,
        List.filter_append]
      by_cases hactive : last.active = true
      · dsimp only
        rw [if_pos hactive, lookup_upsert]
        by_cases hkey : last.indexKey = indexKey
        · simp [hactive, hkey]
        · rw [if_neg hkey]
          simpa [hkey, activeKey?, indexedKeys] using ih
      · dsimp only
        rw [if_neg hactive]
        simpa [hactive, activeKey?, indexedKeys] using ih

/-- The key under an index key belongs to one of the active authorizations. -/
theorem mem_of_activeKey? {authorizations : List (MemberSigningKeyAuthorization crypto)}
    {indexKey : String} {publicKey : Ed25519PublicKey crypto}
    (h : activeKey? authorizations indexKey = some publicKey) :
    ∃ authorization ∈ authorizations, authorization.active = true ∧
      authorization.indexKey = indexKey ∧ authorization.publicKey = publicKey := by
  obtain ⟨authorization, hlast, rfl⟩ := Option.map_eq_some_iff.mp h
  obtain ⟨hmem, hrules⟩ := List.mem_filter.mp (List.mem_of_getLast? hlast)
  rw [Bool.and_eq_true, decide_eq_true_eq] at hrules
  exact ⟨authorization, hmem, hrules.1, hrules.2, rfl⟩

/-- A key is found under the index key of every active authorization. -/
theorem exists_activeKey? {authorizations : List (MemberSigningKeyAuthorization crypto)}
    {authorization : MemberSigningKeyAuthorization crypto} (hmem : authorization ∈ authorizations)
    (hactive : authorization.active = true) :
    ∃ publicKey, activeKey? authorizations authorization.indexKey = some publicKey := by
  have hne : authorizations.filter (fun other ↦
      other.active && decide (other.indexKey = authorization.indexKey)) ≠ [] :=
    List.ne_nil_of_mem (List.mem_filter.mpr ⟨hmem, by simp [hactive]⟩)
  exact ⟨_, by rw [activeKey?, List.getLast?_eq_getLast_of_ne_nil hne]; rfl⟩

/-- Among compatible authorizations, an active one is found under its index key when the others under
that key would repeat its key id. -/
theorem activeKey?_of_compatible {authorizations : List (MemberSigningKeyAuthorization crypto)}
    (hcompatible : authorizations.Pairwise Compatible)
    {authorization : MemberSigningKeyAuthorization crypto} (hmem : authorization ∈ authorizations)
    (hactive : authorization.active = true)
    (hsame : ∀ other ∈ authorizations, other.indexKey = authorization.indexKey →
      other.authorizationId = authorization.authorizationId) :
    activeKey? authorizations authorization.indexKey = some authorization.publicKey := by
  obtain ⟨publicKey, hfound⟩ := exists_activeKey? hmem hactive
  obtain ⟨other, hother, -, hindex, rfl⟩ := mem_of_activeKey? hfound
  have hnodup : (authorizations.map (·.authorizationId)).Nodup :=
    List.pairwise_map.mpr (hcompatible.imp fun hpair ↦ hpair.1)
  rw [hfound, List.inj_on_of_nodup_map hnodup hother hmem (hsame other hother hindex)]

/-- The signature verifies under the active key of the member and key id. -/
def VerifiesUnder (authorizations : List (MemberSigningKeyAuthorization crypto))
    (input : VerifyMemberSignatureInput) : Prop :=
  ∃ publicKey, activeKey? authorizations
    (keyFor input.communityId input.memberId input.keyId) = some publicKey ∧
    SignedBy publicKey input.payload input.signature

theorem verifyMemberSignature_indexedKeys
    {authorizations : List (MemberSigningKeyAuthorization crypto)}
    {input : VerifyMemberSignatureInput} :
    verifyMemberSignature (indexedKeys authorizations) input = true ↔
      VerifiesUnder authorizations input := by
  rw [VerifiesUnder, ← lookup_indexedKeys, verifyMemberSignature]
  cases lookup Prod.fst (keyFor input.communityId input.memberId input.keyId)
      (indexedKeys authorizations) with
  | none => simp
  | some entry =>
      cases hdecode : decodeBase64UrlSignature input.signature with
      | none => simp [SignedBy, hdecode]
      | some bytes => simp [SignedBy, hdecode]

/-- The member verifier exists exactly for compatible authorizations. -/
theorem createEd25519MemberSignatureVerifier_eq_ok
    {authorizations : List (MemberSigningKeyAuthorization crypto)}
    {verifier : VerifyMemberSignatureInput → Bool} :
    createEd25519MemberSignatureVerifier authorizations = .ok verifier ↔
      authorizations.Pairwise Compatible ∧
        verifyMemberSignature (indexedKeys authorizations) = verifier := by
  simp only [createEd25519MemberSignatureVerifier, bind_eq_ok, pure_eq_ok,
    indexAuthorizedKeys_eq_ok]
  constructor
  · rintro ⟨_, ⟨hpairs, rfl⟩, hverifier⟩
    exact ⟨hpairs, hverifier⟩
  · rintro ⟨hpairs, hverifier⟩
    exact ⟨_, ⟨hpairs, rfl⟩, hverifier⟩

/-! ## Attested transfers -/

/-- What an attesting participant's signature is checked against. -/
def attestationInput (terms : TransferTerms) (attestation : TransferAttestation) :
    VerifyMemberSignatureInput :=
  { communityId := terms.communityId
    memberId := attestation.memberId
    keyId := attestation.keyId
    payload := jsonBytes (canonicalTerms terms)
    signature := attestation.signature }

/-- The attestation names the digest of the terms and its signature over them verifies. -/
def Attests (authorizations : List (MemberSigningKeyAuthorization crypto)) (terms : TransferTerms)
    (attestation : TransferAttestation) : Prop :=
  attestation.payloadDigest = Base64Url.encode (crypto.sha256 (jsonBytes (canonicalTerms terms))) ∧
    VerifiesUnder authorizations (attestationInput terms attestation)

/-- The verifier accepts the attestations that attest a valid transfer, and throws on none. -/
theorem signatureVerifier_eq_ok_true
    {authorizations : List (MemberSigningKeyAuthorization crypto)} {verifier : SignatureVerifier}
    (h : createEd25519SignatureVerifier authorizations = .ok verifier) {transfer : Transfer}
    (hvalid : transfer.Valid) (attestation : TransferAttestation) :
    (verifier transfer attestation = .ok true ↔
      Attests authorizations transfer.toTransferTerms attestation) ∧
    ∃ verified, verifier transfer attestation = .ok verified := by
  obtain ⟨member, hmember, hverifier⟩ := bind_eq_ok.mp h
  obtain rfl := pure_eq_ok.mp hverifier
  obtain ⟨-, rfl⟩ := createEd25519MemberSignatureVerifier_eq_ok.mp hmember
  dsimp only
  rw [transferPayloadDigest_of_valid crypto hvalid.toValid,
    canonicalTransferPayload_of_valid hvalid.toValid]
  simp only [ok_bind]
  by_cases hdigest : attestation.payloadDigest =
      Base64Url.encode (crypto.sha256 (jsonBytes (canonicalTerms transfer.toTransferTerms)))
  · rw [if_neg (not_not.mpr hdigest)]
    refine ⟨?_, _, rfl⟩
    rw [pure_eq_ok, Attests, ← verifyMemberSignature_indexedKeys]
    simp [hdigest, attestationInput]
  · rw [if_pos hdigest]
    refine ⟨?_, _, rfl⟩
    simp [Attests, hdigest]

/-- The ledger verifier exists exactly for compatible authorizations. -/
theorem succeeds_createEd25519SignatureVerifier
    {authorizations : List (MemberSigningKeyAuthorization crypto)} :
    Succeeds (createEd25519SignatureVerifier authorizations) ↔
      authorizations.Pairwise Compatible := by
  simp only [Succeeds, createEd25519SignatureVerifier, bind_eq_ok, pure_eq_ok,
    createEd25519MemberSignatureVerifier_eq_ok]
  constructor
  · rintro ⟨_, _, ⟨hpairs, -⟩, -⟩
    exact hpairs
  · intro hpairs
    exact ⟨_, _, ⟨hpairs, rfl⟩, rfl⟩

/-- A transfer is admitted exactly when it is valid, the authorizations are compatible, and both
attestations attest it. -/
theorem assertAuthorizedTransferAttestations_eq_ok {transfer result : Transfer}
    {authorizations : List (MemberSigningKeyAuthorization crypto)} (hvalid : transfer.Valid) :
    assertAuthorizedTransferAttestations transfer authorizations = .ok result ↔
      authorizations.Pairwise Compatible ∧
      (∀ attestation ∈ transfer.attestations,
        Attests authorizations transfer.toTransferTerms attestation) ∧ transfer = result := by
  rw [assertAuthorizedTransferAttestations, TimebankLedger.createTransfer_toJson hvalid, ok_bind]
  simp only [bind_eq_ok, checkAll_eq_ok, require_eq_ok, pure_eq_ok]
  constructor
  · rintro ⟨verifier, hverifier, _, hall, rfl⟩
    refine ⟨succeeds_createEd25519SignatureVerifier.mp ⟨_, hverifier⟩, ?_, rfl⟩
    intro attestation hattestation
    exact (signatureVerifier_eq_ok_true hverifier hvalid attestation).1.mp
      (hall attestation hattestation)
  · rintro ⟨hpairs, hall, rfl⟩
    obtain ⟨verifier, hverifier⟩ := succeeds_createEd25519SignatureVerifier.mpr hpairs
    refine ⟨verifier, hverifier, (), ?_, rfl⟩
    intro attestation hattestation
    exact (signatureVerifier_eq_ok_true hverifier hvalid attestation).1.mpr
      (hall attestation hattestation)

end PeerHours.TimebankIdentity

import PeerHours.Records.Authorizations

/-!
# One declared feed a member

Every declaration of a member authorizes its root key under one and the same key id, so a history that
resolves declares no second feed of a member.
-/

namespace PeerHours.TimebankRecords

open Checked Json KeyedMap Sorting
open TimebankIdentity

variable {crypto : Crypto} {localeCompare : String → String → Ordering} {communityId : String}

/-- Compatible declared authorizations come from one declaration a member. -/
theorem eq_of_compatible_declared {records : List JsonValue}
    {communityRecords : List RecordEnvelope}
    (hreduced : Reduced records communityId communityRecords)
    {declared : List (MemberSigningKeyAuthorization crypto)}
    (h : memberFeedDeclarationsToAuthorizations crypto localeCompare
      (recordsOfKind memberFeedDeclarationRecordKind communityRecords) = .ok declared)
    (hcompatible : declared.Pairwise Compatible) {left right : MemberFeedDeclaration crypto}
    (hleft : HoldsDeclaration records communityId left)
    (hright : HoldsDeclaration records communityId right)
    (hmember : left.memberId = right.memberId) : left = right := by
  obtain ⟨byKey, hbyKey, h⟩ := bind_eq_ok.mp h
  obtain rfl := pure_eq_ok.mp h
  have hmem : ∀ {declaration : MemberFeedDeclaration crypto},
      HoldsDeclaration records communityId declaration →
        declaration ∈ sortBy (compareLex (on localeCompare (·.memberId))
          (on localeCompare (·.feedPublicKeyText))) byKey := fun hheld ↦
    mem_sortBy.mpr ((mem_collect determines_declarations hbyKey _).mpr
      ((holdsDeclaration_iff hreduced).mp hheld))
  -- two entries of one member would repeat the id of its root key
  have hid : (declaredAuthorization left).authorizationId =
      (declaredAuthorization right).authorizationId := by
    show left.communityId ++ ("\x00" ++ rootKeyIdForMember left.memberId) =
      right.communityId ++ ("\x00" ++ rootKeyIdForMember right.memberId)
    rw [hmember, hleft.1, hright.1]
  have hnodup : ((sortBy (compareLex (on localeCompare (·.memberId))
      (on localeCompare (·.feedPublicKeyText))) byKey).map fun declaration ↦
        (declaredAuthorization declaration).authorizationId).Nodup :=
    List.pairwise_map.mpr ((List.pairwise_map.mp hcompatible).imp fun hpair ↦ hpair.1)
  exact List.inj_on_of_nodup_map hnodup (hmem hleft) (hmem hright) hid

/-- The declaration that declares a feed is held. -/
theorem holdsDeclaration_of_declaresFeed {histories : List MemberFeedHistory}
    {feedPublicKey memberId : String}
    (h : DeclaresFeed crypto communityId histories feedPublicKey memberId) :
    ∃ declaration : MemberFeedDeclaration crypto,
      HoldsDeclaration (histories.flatMap (·.records)) communityId declaration ∧
      declaration.memberId = memberId ∧
      (JsonValue.text? (some declaration.feedPublicKey)).map String.toLower = some feedPublicKey := by
  obtain ⟨source, hsource, hread⟩ := h
  obtain ⟨hmem, hdeclaration⟩ := List.mem_filter.mp hsource
  obtain ⟨declaration, hdecode, hread⟩ := bind_eq_ok.mp hread
  obtain ⟨text, htext, hread⟩ := bind_eq_ok.mp hread
  have hsame := pure_eq_ok.mp hread
  rw [Prod.mk.injEq] at hsame
  obtain ⟨record, hcreate, -⟩ := bind_eq_ok.mp hdecode
  have hroutes := (memberFeedDeclarationFromRecord_eq_ok hcreate).mp hdecode
  have hcommunity := (of_decide_eq_true hdeclaration).1
  rw [(createRecordEnvelope_eq_ok.mp hcreate).communityId, hroutes.2.communityId, Option.some.injEq,
    JsonValue.str.injEq] at hcommunity
  refine ⟨declaration, ⟨hcommunity, record, ⟨source, hmem, hcreate⟩, hroutes⟩, hsame.2, ?_⟩
  rw [present_eq_ok.mp htext, Option.map_some, hsame.1]

/-- Records that others hold too declare the feeds that those declare. -/
theorem declaresFeed_of_subset {histories larger : List MemberFeedHistory}
    (hsubset : histories.flatMap (·.records) ⊆ larger.flatMap (·.records))
    {feedPublicKey memberId : String}
    (h : DeclaresFeed crypto communityId histories feedPublicKey memberId) :
    DeclaresFeed crypto communityId larger feedPublicKey memberId := by
  obtain ⟨source, hsource, hread⟩ := h
  obtain ⟨hmem, hdeclaration⟩ := List.mem_filter.mp hsource
  exact ⟨source, List.mem_filter.mpr ⟨hsubset hmem, hdeclaration⟩, hread⟩

/-- The authorizations of resolved records come from one declaration a member. -/
theorem eq_of_authorizationsOf {records : List JsonValue}
    {authorizations : List (MemberSigningKeyAuthorization crypto)}
    (h : authorizationsOf crypto localeCompare communityId records = .ok authorizations)
    (hcompatible : authorizations.Pairwise Compatible) {left right : MemberFeedDeclaration crypto}
    (hleft : HoldsDeclaration records communityId left)
    (hright : HoldsDeclaration records communityId right)
    (hmember : left.memberId = right.memberId) : left = right := by
  obtain ⟨normalized, hnormalized, h⟩ := bind_eq_ok.mp h
  obtain ⟨_, -, h⟩ := bind_eq_ok.mp h
  obtain ⟨legacy, -, h⟩ := bind_eq_ok.mp h
  obtain ⟨declared, hdeclared, h⟩ := bind_eq_ok.mp h
  obtain ⟨rootSigned, -, h⟩ := bind_eq_ok.mp h
  obtain rfl := pure_eq_ok.mp h
  have hparts := (List.pairwise_append.mp (List.pairwise_append.mp hcompatible).1).2.1
  exact eq_of_compatible_declared (reduced_of_reduceRecordEnvelopes hnormalized) hdeclared hparts
    hleft hright hmember

/-- Histories that resolve declare one feed a member. -/
theorem declaresFeed_unique {histories : List MemberFeedHistory}
    {state : ResolvedTimebankState crypto}
    (h : resolveTimebankMemberFeeds crypto localeCompare communityId histories = .ok state)
    {left right memberId : String} (hleft : DeclaresFeed crypto communityId histories left memberId)
    (hright : DeclaresFeed crypto communityId histories right memberId) : left = right := by
  obtain ⟨-, -, -, hresolve⟩ := resolveTimebankMemberFeeds_eq_ok.mp h
  obtain ⟨-, hcoherent, hresolved⟩ := resolved_of_eq_ok hresolve
  obtain ⟨first, hfirst, hfirstMember, hfirstFeed⟩ := holdsDeclaration_of_declaresFeed hleft
  obtain ⟨second, hsecond, hsecondMember, hsecondFeed⟩ := holdsDeclaration_of_declaresFeed hright
  have hsame := eq_of_authorizationsOf hresolved.authorizations hcoherent.compatible hfirst hsecond
    (hfirstMember.trans hsecondMember.symm)
  rw [hsame, hsecondFeed, Option.some.injEq] at hfirstFeed
  exact hfirstFeed.symm

end PeerHours.TimebankRecords

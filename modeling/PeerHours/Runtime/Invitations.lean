import PeerHours.Library.JsonParse
import PeerHours.Runtime.Genesis

/-!
# Community invitations

An invitation names a genesis feed. A runtime normalizes it before it opens the feed: its keys are written in lower
case, in their place among whatever else it carries.
-/

namespace PeerHours.PeerRuntime

open Checked Json KeyedMap

def communityInvitationSchema : String := "peer-hours/community-invitation/v1"

/-- The object with its property assigned. -/
def withText (properties : List (String × JsonValue)) (name text : String) : List (String × JsonValue) :=
  upsert Prod.fst (name, .str text) properties

/-- Validates an invitation before it causes a runtime to open or join an untrusted core. A key that is no
text passes the pattern as an array of one text, and then has no `toLowerCase`. -/
def createCommunityInvitation (input : JsonValue) : Except String JsonValue := do
  require (input.field "schema" = some (.str communityInvitationSchema))
    "Community invitation must use the supported schema."
  assertKey (input.field "communityId") "Community invitation community id"
  assertKey (input.field "discoveryKey") "Community invitation discovery key"
  let communityId ← present (JsonValue.text? (input.field "communityId"))
    "input.communityId.toLowerCase is not a function"
  let discoveryKey ← present (JsonValue.text? (input.field "discoveryKey"))
    "input.discoveryKey.toLowerCase is not a function"
  pure (.obj (withText (withText input.properties "communityId" communityId.toLower) "discoveryKey"
    discoveryKey.toLower))

/-- What an invitation is normalized to. -/
theorem createCommunityInvitation_eq_ok {input invitation : JsonValue} :
    createCommunityInvitation input = .ok invitation ↔ ∃ communityId discoveryKey,
      input.field "schema" = some (.str communityInvitationSchema) ∧
      input.field "communityId" = some (.str communityId) ∧ Hex.isKey communityId = true ∧
      input.field "discoveryKey" = some (.str discoveryKey) ∧ Hex.isKey discoveryKey = true ∧
      .obj (withText (withText input.properties "communityId" communityId.toLower) "discoveryKey"
        discoveryKey.toLower) = invitation := by
  simp only [createCommunityInvitation, assertKey, bind_eq_ok, require_eq_ok, present_eq_ok, pure_eq_ok,
    exists_const]
  constructor
  · rintro ⟨hschema, hcommunity, hdiscovery, communityId, hcommunityText, discoveryKey, hdiscoveryText,
      hsame⟩
    have hcommunityField := JsonValue.text?_eq_some.mp hcommunityText
    have hdiscoveryField := JsonValue.text?_eq_some.mp hdiscoveryText
    rw [hcommunityField] at hcommunity
    rw [hdiscoveryField] at hdiscovery
    exact ⟨communityId, discoveryKey, hschema, hcommunityField, hcommunity, hdiscoveryField, hdiscovery,
      hsame⟩
  · rintro ⟨communityId, discoveryKey, hschema, hcommunity, hkey, hdiscovery, hdiscoveryKey, hsame⟩
    rw [hcommunity, hdiscovery]
    exact ⟨hschema, hkey, hdiscoveryKey, communityId, rfl, discoveryKey, rfl, hsame⟩

end PeerHours.PeerRuntime

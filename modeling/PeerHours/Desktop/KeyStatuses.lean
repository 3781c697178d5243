import Mathlib.Data.List.Lex
import Mathlib.Data.Prod.Lex
import PeerHours.Desktop.DeviceKeys
import PeerHours.Desktop.MemberIdentity
import PeerHours.Identity.OrderlyLifecycle
import PeerHours.Identity.Revocation
import PeerHours.Identity.Transparent
import PeerHours.Library.CodeUnits
import PeerHours.Library.Latest

/-!
# Displayed device keys

The renderer's list of device keys keeps the latest statement of each key; the reducer replays the statements in
order and never lets a revoked key return. Both agree on which keys are active, whatever else is in the feed.
-/

namespace PeerHours.Desktop

open Checked Json KeyedMap Sorting
open TimebankIdentity
open TimebankRecords

variable {crypto : Crypto}

/-! ## Code units -/

/-- The order in which `<` compares two strings. -/
def codeUnitCompare (left right : String) : Ordering :=
  if codeUnitsLess left right then .lt
  else if codeUnitsLess right left then .gt
  else .eq

theorem codeUnitCompare_eq_lt {left right : String} :
    codeUnitCompare left right = .lt ↔ Text.utf16 left < Text.utf16 right := by
  unfold codeUnitCompare codeUnitsLess
  split
  · rename_i hless
    exact iff_of_true rfl (of_decide_eq_true hless)
  · rename_i hnot
    refine iff_of_false ?_ fun hless ↦ hnot (decide_eq_true hless)
    split <;> nofun

theorem isLE_codeUnitCompare {left right : String} :
    (codeUnitCompare left right).isLE = true ↔ Text.utf16 left ≤ Text.utf16 right := by
  unfold codeUnitCompare codeUnitsLess
  by_cases hless : Text.utf16 left < Text.utf16 right
  · simp [hless, le_of_lt hless]
  · by_cases hgreater : Text.utf16 right < Text.utf16 left
    · simp [hless, hgreater]
    · simp [hless, hgreater, not_lt.mp hgreater]

instance : Std.TransCmp codeUnitCompare where
  eq_swap := by
    intro left right
    unfold codeUnitCompare codeUnitsLess
    by_cases hless : Text.utf16 left < Text.utf16 right
    · simp [hless, not_lt.mpr (le_of_lt hless)]
    · by_cases hgreater : Text.utf16 right < Text.utf16 left
      · simp [hless, hgreater]
      · simp [hless, hgreater]
  isLE_trans := by
    intro first second third
    simp only [isLE_codeUnitCompare]
    exact le_trans

/-! ## Statements -/

variable (crypto) in
/-- The root-signed lifecycle statement of a community that a record carries. -/
def lifecycleStatement? (communityId : String) (record : JsonValue) :
    Option (RootSignedMemberSigningKeyLifecycle crypto) :=
  match rootSignedMemberSigningKeyLifecycleFromRecord crypto record with
  | .ok statement => if statement.event.communityId = communityId then some statement else none
  | .error _ => none

variable (crypto) in
/-- The root-signed lifecycle statements of a community in a feed. -/
def lifecycleStatements (communityId : String) (records : List JsonValue) :
    List (RootSignedMemberSigningKeyLifecycle crypto) :=
  records.filterMap (lifecycleStatement? crypto communityId)

/-- What a later statement is ranked by. -/
def stamp (statement : RootSignedMemberSigningKeyLifecycle crypto) : List Nat ×ₗ List Nat :=
  toLex (Text.utf16 statement.event.occurredAt, Text.utf16 statement.event.eventId)

/-- The rank of a statement decides whether it replaces another one. -/
theorem replacesStatement_iff {current statement : RootSignedMemberSigningKeyLifecycle crypto} :
    replacesStatement current statement = true ↔ stamp current < stamp statement := by
  unfold replacesStatement codeUnitsLess stamp
  rw [Prod.Lex.toLex_lt_toLex, Text.utf16_inj]
  simp

/-- The key id of a statement. -/
def statementKey (statement : RootSignedMemberSigningKeyLifecycle crypto) : String :=
  statement.event.keyId

section Own

variable {communityId : String} {root : Ed25519PublicKey crypto} {records : List JsonValue}

/-- A statement that carries a root key is of the member of that key. -/
theorem memberId_of_root {statement : RootSignedMemberSigningKeyLifecycle crypto}
    (h : statement.rootPublicKey.publicKeyPem = root.publicKeyPem) :
    statement.event.memberId = selfOwnedMemberId root := by
  rw [statement.owned, Ed25519PublicKey.ext h]

/-- The statements of a community are of that community. -/
theorem communityId_of_statement {statement : RootSignedMemberSigningKeyLifecycle crypto}
    (h : statement ∈ lifecycleStatements crypto communityId records) :
    statement.event.communityId = communityId := by
  obtain ⟨record, -, hread⟩ := List.mem_filterMap.mp h
  unfold lifecycleStatement? at hread
  split at hread
  · split at hread
    · rename_i hcommunity
      exact Option.some.inj hread ▸ hcommunity
    · exact absurd hread nofun
  · exact absurd hread nofun

/-- With one root key, the statements of one index key are those of one key id. -/
theorem indexKey_iff_of_root
    (hroot : ∀ statement ∈ lifecycleStatements crypto communityId records,
      statement.rootPublicKey.publicKeyPem = root.publicKeyPem)
    {left right : RootSignedMemberSigningKeyLifecycle crypto}
    (hleft : left ∈ lifecycleStatements crypto communityId records)
    (hright : right ∈ lifecycleStatements crypto communityId records) :
    left.event.indexKey = right.event.indexKey ↔ statementKey left = statementKey right := by
  unfold MemberSigningKeyAuthorizationEvent.indexKey keyFor statementKey
  rw [communityId_of_statement hleft, communityId_of_statement hright,
    memberId_of_root (hroot left hleft), memberId_of_root (hroot right hright)]
  simp only [String.append_right_inj]

/-- A record without a statement of the community is passed over, and one that carries the stored root key is
kept when it is the latest of its key. -/
theorem rememberStatement_eq (latestByKey : List (RootSignedMemberSigningKeyLifecycle crypto))
    (record : JsonValue) :
    (lifecycleStatement? crypto communityId record = none →
      rememberStatement communityId (selfOwnedMemberId root) root.publicKeyPem latestByKey record =
        latestByKey) ∧
    (∀ statement, lifecycleStatement? crypto communityId record = some statement →
      statement.rootPublicKey.publicKeyPem = root.publicKeyPem →
      rememberStatement communityId (selfOwnedMemberId root) root.publicKeyPem latestByKey record =
        keepLatest statementKey stamp latestByKey statement) := by
  unfold lifecycleStatement?
  cases hread : rootSignedMemberSigningKeyLifecycleFromRecord crypto record with
  | error message =>
      exact ⟨fun _ ↦ by simp only [rememberStatement, hread], fun _ hnone ↦ by cases hnone⟩
  | ok statement =>
      by_cases hcommunity : statement.event.communityId = communityId
      · refine ⟨fun hnone ↦ ?_, fun other hother hpem ↦ ?_⟩
        · simp only [if_pos hcommunity, reduceCtorEq] at hnone
        · simp only [if_pos hcommunity, Option.some.injEq] at hother
          subst hother
          have hown : ¬ (statement.event.communityId ≠ communityId ∨
              statement.event.memberId ≠ selfOwnedMemberId root ∨
              statement.rootPublicKey.publicKeyPem ≠ root.publicKeyPem) := by
            simp [hcommunity, hpem, memberId_of_root hpem]
          simp only [rememberStatement, hread, if_neg hown]
          cases hlookup : lookup statementKey (statementKey statement) latestByKey with
          | none =>
              have hnone : lookup (fun other ↦ other.event.keyId) statement.event.keyId latestByKey =
                  none := hlookup
              rw [hnone, keepLatest, hlookup]
              rfl
          | some current =>
              have hsome : lookup (fun other ↦ other.event.keyId) statement.event.keyId latestByKey =
                  some current := hlookup
              rw [hsome, keepLatest, hlookup]
              exact if_congr replacesStatement_iff rfl rfl
      · refine ⟨fun _ ↦ ?_, fun other hother ↦ ?_⟩
        · simp only [rememberStatement, hread, ne_eq, hcommunity, not_false_eq_true, true_or, if_true]
        · simp only [if_neg hcommunity, reduceCtorEq] at hother

/-- The statuses remember the latest of the statements, when all carry the stored root key. -/
theorem foldl_rememberStatement
    (hroot : ∀ statement ∈ lifecycleStatements crypto communityId records,
      statement.rootPublicKey.publicKeyPem = root.publicKeyPem)
    (latestByKey : List (RootSignedMemberSigningKeyLifecycle crypto)) :
    records.foldl (rememberStatement communityId (selfOwnedMemberId root) root.publicKeyPem)
        latestByKey =
      (lifecycleStatements crypto communityId records).foldl (keepLatest statementKey stamp)
        latestByKey := by
  induction records generalizing latestByKey with
  | nil => rfl
  | cons record rest ih =>
      have hstep := @rememberStatement_eq _ communityId root latestByKey record
      unfold lifecycleStatements at hroot ih ⊢
      cases hread : lifecycleStatement? crypto communityId record with
      | none =>
          rw [List.filterMap_cons_none hread] at hroot ⊢
          rw [List.foldl_cons, hstep.1 hread, ih hroot]
      | some statement =>
          rw [List.filterMap_cons_some hread] at hroot ⊢
          rw [List.foldl_cons, List.foldl_cons,
            hstep.2 statement hread (hroot statement List.mem_cons_self),
            ih fun other hmem ↦ hroot other (List.mem_cons_of_mem _ hmem)]

/-- What the statuses are read from. -/
theorem exists_latest
    (hroot : ∀ statement ∈ lifecycleStatements crypto communityId records,
      statement.rootPublicKey.publicKeyPem = root.publicKeyPem)
    (localeCompare : String → String → Ordering) :
    ∃ latest, Latest statementKey stamp (lifecycleStatements crypto communityId records) latest ∧
      (deviceSigningKeyStatuses crypto localeCompare (some communityId) (selfOwnedMemberId root)
        root.publicKeyPem records).Perm (latest.map deviceSigningKeyStatus) := by
  refine ⟨_, latest_foldl _, ?_⟩
  rw [← foldl_rememberStatement hroot]
  exact perm_sortBy _

end Own

/-! ## Agreement -/

/-- The collation compares the timestamps and the event ids of these statements by their code units. -/
def ComparesCodeUnits (localeCompare : String → String → Ordering)
    (statements : List (RootSignedMemberSigningKeyLifecycle crypto)) : Prop :=
  ∀ left ∈ statements, ∀ right ∈ statements,
    localeCompare left.event.occurredAt right.event.occurredAt =
        codeUnitCompare left.event.occurredAt right.event.occurredAt ∧
      localeCompare left.event.eventId right.event.eventId =
        codeUnitCompare left.event.eventId right.event.eventId

section Agreement

variable {localeCompare : String → String → Ordering} {communityId : String}
  {statements : List (RootSignedMemberSigningKeyLifecycle crypto)}
  {authorizations : List (MemberSigningKeyAuthorization crypto)}

/-- A statement of a lower rank comes earlier for the reducer. -/
theorem compareAuthorizationEvents_of_stamp {left right : RootSignedMemberSigningKeyLifecycle crypto}
    (h : stamp left < stamp right) :
    compareAuthorizationEvents codeUnitCompare left.event right.event = .lt := by
  unfold stamp at h
  rw [Prod.Lex.toLex_lt_toLex] at h
  show (codeUnitCompare left.event.occurredAt right.event.occurredAt).then
    (codeUnitCompare left.event.eventId right.event.eventId) = .lt
  rcases h with htime | ⟨htime, hid⟩
  · rw [codeUnitCompare_eq_lt.mpr htime]
    rfl
  · have hsame : codeUnitCompare left.event.occurredAt right.event.occurredAt = .eq := by
      rw [Text.utf16_inj.mp htime]
      exact Std.ReflCmp.compare_self
    rw [hsame, codeUnitCompare_eq_lt.mpr hid]
    rfl

/-- In statements that the reducer accepts, a key's revocation is not followed by an activation. -/
theorem revoked_of_stamp (hcompares : ComparesCodeUnits localeCompare statements)
    (h : reduceRootSignedMemberSigningKeyLifecycles localeCompare statements = .ok authorizations)
    {revocation activation : RootSignedMemberSigningKeyLifecycle crypto}
    (hrevocation : revocation ∈ statements) (hactivation : activation ∈ statements)
    (hrevoke : revocation.event.action = .revoke) (hactivate : activation.event.action ≠ .revoke)
    (hkey : revocation.event.indexKey = activation.event.indexKey)
    (hstamp : stamp revocation ≤ stamp activation) : False := by
  obtain ⟨events, hevents, hnodup, hretires, -⟩ := retires_of_reduceRootSigned h
  have hsorted : sortBy (compareAuthorizationEvents localeCompare) events =
      sortBy (compareAuthorizationEvents codeUnitCompare) events := by
    refine sortBy_congr fun left hleft right hright ↦ ?_
    obtain ⟨first, hfirst, rfl⟩ := (hevents left).mp hleft
    obtain ⟨second, hsecond, rfl⟩ := (hevents right).mp hright
    obtain ⟨htime, hid⟩ := hcompares first hfirst second hsecond
    show (localeCompare first.event.occurredAt second.event.occurredAt).then
        (localeCompare first.event.eventId second.event.eventId) =
      (codeUnitCompare first.event.occurredAt second.event.occurredAt).then
        (codeUnitCompare first.event.eventId second.event.eventId)
    rw [htime, hid]
  rw [hsorted] at hretires
  have hne : revocation.event ≠ activation.event := by
    intro hsame
    rw [← hsame] at hactivate
    exact hactivate hrevoke
  have hrevocationEvent : revocation.event ∈ events := (hevents _).mpr ⟨_, hrevocation, rfl⟩
  have hactivationEvent : activation.event ∈ events := (hevents _).mpr ⟨_, hactivation, rfl⟩
  -- Statements with one rank have one event id, and events of one id are one event.
  have hless : stamp revocation < stamp activation := by
    refine lt_of_le_of_ne hstamp fun hsame ↦ hne ?_
    refine List.inj_on_of_nodup_map hnodup hrevocationEvent hactivationEvent ?_
    exact Text.utf16_inj.mp (congrArg (fun stamp ↦ (ofLex stamp).2) hsame)
  have hlt := compareAuthorizationEvents_of_stamp hless
  exact rel_of_pairwise_sortBy hretires hrevocationEvent hactivationEvent hlt hrevoke hactivate hkey

/-- The statement names the key of the authorization. -/
def NamesKeyOf (statement : RootSignedMemberSigningKeyLifecycle crypto)
    (authorization : MemberSigningKeyAuthorization crypto) : Prop :=
  statement.event.communityId = authorization.communityId ∧
    statement.event.memberId = authorization.memberId ∧
    statement.event.keyId = authorization.keyId

omit statements authorizations in
theorem NamesKeyOf.indexKey_eq {statement : RootSignedMemberSigningKeyLifecycle crypto}
    {authorization : MemberSigningKeyAuthorization crypto} (h : NamesKeyOf statement authorization) :
    statement.event.indexKey = authorization.indexKey := by
  unfold MemberSigningKeyAuthorizationEvent.indexKey MemberSigningKeyAuthorization.indexKey
  rw [h.1, h.2.1, h.2.2]

/-- A reduced authorization was activated by a statement. -/
theorem exists_activation
    (h : reduceRootSignedMemberSigningKeyLifecycles localeCompare statements = .ok authorizations)
    {authorization : MemberSigningKeyAuthorization crypto} (hmem : authorization ∈ authorizations) :
    ∃ statement ∈ statements, statement.event.action ≠ .revoke ∧
      NamesKeyOf statement authorization := by
  obtain ⟨events, hevents, -, -, hreduce⟩ := retires_of_reduceRootSigned h
  obtain ⟨event, hevent, hactivates⟩ := activates_of_reduce hreduce hmem
  obtain ⟨statement, hstatement, rfl⟩ := (hevents event).mp hevent
  refine ⟨statement, hstatement, ?_, hactivates.2⟩
  rw [hactivates.1]
  nofun

end Agreement

/-- A status is active when the statement activates its key. -/
theorem active_deviceSigningKeyStatus (statement : RootSignedMemberSigningKeyLifecycle crypto) :
    (deviceSigningKeyStatus statement).state = .active ↔ statement.event.action ≠ .revoke := by
  unfold deviceSigningKeyStatus
  cases statement.event.action with
  | activate publicKey => exact iff_of_true rfl nofun
  | revoke => exact iff_of_false nofun fun hne ↦ hne rfl

/-- When the statements of the feed for the community carry the stored root key and the reducer accepts them, the
displayed list has one status for each key with a statement, and it is active exactly when the reducer returns an
active authorization. -/
theorem deviceSigningKeyStatuses_agree {localeCompare : String → String → Ordering}
    {communityId : String} {root : Ed25519PublicKey crypto} {records : List JsonValue}
    {authorizations : List (MemberSigningKeyAuthorization crypto)}
    (hcompares : ComparesCodeUnits localeCompare (lifecycleStatements crypto communityId records))
    (hroot : ∀ statement ∈ lifecycleStatements crypto communityId records,
      statement.rootPublicKey.publicKeyPem = root.publicKeyPem)
    (h : reduceRootSignedMemberSigningKeyLifecycles localeCompare
      (lifecycleStatements crypto communityId records) = .ok authorizations) :
    let statuses := deviceSigningKeyStatuses crypto localeCompare (some communityId)
      (selfOwnedMemberId root) root.publicKeyPem records
    (∀ keyId, (∃ key ∈ statuses, key.keyId = keyId ∧ key.state = .active) ↔
      ∃ authorization ∈ authorizations, authorization.keyId = keyId ∧ authorization.active = true) ∧
    (∀ statement ∈ lifecycleStatements crypto communityId records,
      ∃ key ∈ statuses, key.keyId = statement.event.keyId) ∧
    (statuses.map (·.keyId)).Nodup := by
  intro statuses
  obtain ⟨latest, hlatest, hstatuses⟩ := exists_latest hroot localeCompare
  have hstatus (key : DeviceSigningKeyStatus) : key ∈ statuses ↔
      ∃ statement ∈ latest, deviceSigningKeyStatus statement = key :=
    hstatuses.mem_iff.trans List.mem_map
  refine ⟨fun keyId ↦ ⟨?_, ?_⟩, ?_, ?_⟩
  · rintro ⟨key, hkey, rfl, hactive⟩
    obtain ⟨statement, hmem, rfl⟩ := (hstatus key).mp hkey
    have hstatement := hlatest.held statement hmem
    have haction := (active_deviceSigningKeyStatus statement).mp hactive
    -- A revocation of the key would be outranked by the activation that is the latest statement.
    have hnever : ∀ other ∈ lifecycleStatements crypto communityId records,
        other.event.action = .revoke → other.event.indexKey ≠ statement.event.indexKey := by
      intro other hother hrevoke hindex
      obtain ⟨entry, hentry, hkey, hrank⟩ := hlatest.highest other hother
      have hsame : statementKey entry = statementKey statement :=
        hkey.trans ((indexKey_iff_of_root hroot hother hstatement).mp hindex)
      rw [List.inj_on_of_nodup_map hlatest.distinct hentry hmem hsame] at hrank
      exact revoked_of_stamp hcompares h hother hstatement hrevoke haction hindex hrank
    obtain ⟨authorization, hmemAuthorization, hauthorized, hindex⟩ :=
      active_of_not_revoked h hstatement haction hnever
    obtain ⟨activation, hactivation, -, hsame⟩ := exists_activation h hmemAuthorization
    refine ⟨authorization, hmemAuthorization, ?_, hauthorized⟩
    rw [← hsame.indexKey_eq] at hindex
    exact hsame.2.2.symm.trans ((indexKey_iff_of_root hroot hactivation hstatement).mp hindex)
  · rintro ⟨authorization, hmem, rfl, hactive⟩
    obtain ⟨activation, hactivation, -, hsame⟩ := exists_activation h hmem
    obtain ⟨entry, hentry, hkey, -⟩ := hlatest.highest activation hactivation
    have hindex : entry.event.indexKey = authorization.indexKey := by
      rw [(indexKey_iff_of_root hroot (hlatest.held entry hentry) hactivation).mpr hkey,
        hsame.indexKey_eq]
    refine ⟨_, (hstatus _).mpr ⟨entry, hentry, rfl⟩, hkey.trans hsame.2.2, ?_⟩
    rw [active_deviceSigningKeyStatus]
    exact fun hrevoke ↦
      not_revoked_of_active h hmem hactive entry (hlatest.held entry hentry) hrevoke hindex
  · intro statement hmem
    obtain ⟨entry, hentry, hkey, -⟩ := hlatest.highest statement hmem
    exact ⟨_, (hstatus _).mpr ⟨entry, hentry, rfl⟩, hkey⟩
  · refine (hstatuses.map _).nodup_iff.mpr ?_
    rw [List.map_map]
    exact hlatest.distinct

/-- The records of some statements, as a feed. -/
theorem exists_lifecycleFeed {communityId : String}
    (statements : List (RootSignedMemberSigningKeyLifecycle crypto))
    (hcommunity : ∀ statement ∈ statements, statement.event.communityId = communityId) :
    ∃ records, lifecycleStatements crypto communityId records = statements := by
  induction statements with
  | nil => exact ⟨[], rfl⟩
  | cons statement rest ih =>
      obtain ⟨records, hrecords⟩ := ih fun other hmem ↦ hcommunity other (List.mem_cons_of_mem _ hmem)
      obtain ⟨record, -, hdescribes, hroutes⟩ := lifecycleToRecord_spec statement
      have hread : rootSignedMemberSigningKeyLifecycleFromRecord crypto record.toJson =
          .ok statement := (rootSignedMemberSigningKeyLifecycleFromRecord_eq_ok
        (createRecordEnvelope_toJson record)).mpr ⟨hdescribes, hroutes⟩
      have hstatement : lifecycleStatement? crypto communityId record.toJson = some statement := by
        rw [lifecycleStatement?, hread]
        exact if_pos (hcommunity statement List.mem_cons_self)
      refine ⟨record.toJson :: records, ?_⟩
      rw [lifecycleStatements, List.filterMap_cons_some hstatement]
      exact congrArg _ hrecords

/-- No key of a feed with a revocation and the activation that it revokes is displayed as active. -/
theorem deviceSigningKeyStatuses_agree_phone :
    ∃ records, lifecycleStatements transparentCrypto "garden" records =
        [phoneRevocation, phoneActivation] ∧
      ∀ key ∈ deviceSigningKeyStatuses transparentCrypto codeUnitCompare (some "garden")
        (selfOwnedMemberId phoneRevocation.rootPublicKey) "ada" records, key.state ≠ .active := by
  obtain ⟨records, hrecords⟩ := @exists_lifecycleFeed transparentCrypto "garden"
    [phoneRevocation, phoneActivation] (by simp [phoneRevocation, phoneActivation,
      phoneStatement, phoneEvent])
  obtain ⟨_, hreduced⟩ : Succeeds (reduceRootSignedMemberSigningKeyLifecycles codeUnitCompare
      [phoneRevocation, phoneActivation] >>= fun authorizations ↦
        require (∀ authorization ∈ authorizations, authorization.active = false) "active") := by
    decide +kernel
  obtain ⟨authorizations, h, hnone⟩ := bind_eq_ok.mp hreduced
  have hroot : ∀ statement ∈ lifecycleStatements transparentCrypto "garden" records,
      statement.rootPublicKey.publicKeyPem = phoneRevocation.rootPublicKey.publicKeyPem := by
    rw [hrecords]
    simp [phoneRevocation, phoneActivation, phoneStatement]
  rw [← hrecords] at h
  refine ⟨records, hrecords, fun key hmem hactive ↦ ?_⟩
  obtain ⟨authorization, hauthorization, -, hauthorized⟩ :=
    ((@deviceSigningKeyStatuses_agree _ codeUnitCompare "garden" phoneRevocation.rootPublicKey
      records _ (fun _ _ _ _ ↦ ⟨rfl, rfl⟩) hroot h).1 key.keyId).mp ⟨key, hmem, rfl, hactive⟩
  rw [require_eq_ok.mp hnone authorization hauthorization] at hauthorized
  cases hauthorized

end PeerHours.Desktop

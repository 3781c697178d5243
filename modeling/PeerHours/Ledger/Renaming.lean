import PeerHours.Ledger.Reversals
import Mathlib.Logic.Equiv.Basic

/-!
# Renamed members

A renaming gives the participants and the attesting members of every transfer other ids. The ledger that
`applyTransfers` derives follows it, except where the balances object takes an id for a property that every
object inherits. Such a property is read for the recipients of the settlements and for the participants of
the accepted transfers only.
-/

namespace PeerHours.TimebankLedger

open Checked Json KeyedMap Sorting

/-! ## Renamings -/

/-- A renaming of member ids: it keeps different ids apart and gives no id a blank name. -/
structure Renames (renamed : String → String) : Prop where
  present : ∀ memberId, Text.blank memberId = false → Text.blank (renamed memberId) = false
  injective : ∀ left right, Text.blank left = false → Text.blank right = false →
    renamed left = renamed right → left = right

/-- The attestation of the renamed member. -/
def TransferAttestation.rename (renamed : String → String) (attestation : TransferAttestation) :
    TransferAttestation :=
  { attestation with memberId := renamed attestation.memberId }

/-- The transfer between the renamed members. -/
def Transfer.rename (renamed : String → String) (transfer : Transfer) : Transfer :=
  { transfer with
    providerMemberId := renamed transfer.providerMemberId
    recipientMemberId := renamed transfer.recipientMemberId
    attestations := transfer.attestations.map (·.rename renamed) }

/-- The posting of the renamed member. -/
def LedgerPosting.rename (renamed : String → String) (posting : LedgerPosting) : LedgerPosting :=
  { posting with memberId := renamed posting.memberId }

/-- The rejected transfer between the renamed members. -/
def RejectedTransfer.rename (renamed : String → String) (rejected : RejectedTransfer) :
    RejectedTransfer :=
  { rejected with transfer := rejected.transfer.rename renamed }

/-- A value whose text is a member id. -/
def renameText (renamed : String → String) : JsonValue → JsonValue
  | .str memberId => .str (renamed memberId)
  | value => value

/-- An object with its properties renamed by what their names hold. -/
def renameProperties (rename : String → JsonValue → JsonValue) : JsonValue → JsonValue
  | .obj fields => .obj (fields.map fun property ↦ (property.1, rename property.1 property.2))
  | value => value

/-- A supplied attestation, of the renamed member. -/
def renameAttestation (renamed : String → String) : JsonValue → JsonValue :=
  renameProperties fun name value ↦ if name = "memberId" then renameText renamed value else value

/-- The attestations of a supplied transfer, of the renamed members. -/
def renameAttestations (renamed : String → String) : JsonValue → JsonValue
  | .arr items => .arr (items.map (renameAttestation renamed))
  | value => value

/-- A supplied transfer, between the renamed members. -/
def renameTransfer (renamed : String → String) : JsonValue → JsonValue :=
  renameProperties fun name value ↦
    if name = "providerMemberId" ∨ name = "recipientMemberId" then renameText renamed value
    else if name = "attestations" then renameAttestations renamed value
    else value

/-- A verifier that answers for the renamed members as the other does for the members. -/
def VerifiesRenamed (renamed : String → String) (verifyAttestation verifyRenamed : SignatureVerifier) :
    Prop :=
  ∀ transfer : Transfer, transfer.Valid → ∀ attestation ∈ transfer.attestations,
    verifyRenamed (transfer.rename renamed) (attestation.rename renamed) =
      verifyAttestation transfer attestation

/-- A ledger is another one under a renaming: the same transfers are accepted and rejected, the postings are
renamed, and the balances are the same map for the renamed members. -/
structure RenamedLedger (renamed : String → String) (before after : Ledger) : Prop where
  communityId : after.communityId = before.communityId
  transfers : after.transfers = before.transfers.map (·.rename renamed)
  rejectedTransfers : after.rejectedTransfers = before.rejectedTransfers.map (·.rename renamed)
  postings : after.postings = before.postings.map (·.rename renamed)
  balances : ∀ entry, entry ∈ after.balances ↔
    ∃ own ∈ before.balances, (renamed own.1, own.2) = entry

/-- A member whose id and whose name are no property that an object inherits, or who keeps the id. -/
def KeepsInherited (renamed : String → String) (memberId : String) : Prop :=
  (inheritedText memberId).isSome ∨ (inheritedText (renamed memberId)).isSome →
    renamed memberId = memberId

/-- Every member who receives in a settlement of the list, or provides in one that keeps the credit limit at
its turn, keeps an inherited name. -/
def KeepsSettled (renamed : String → String) (transfers : List Transfer) : Prop :=
  ∀ settlement ∈ settlementsOf transfers,
    KeepsInherited renamed settlement.recipientMemberId ∧
      (KeepsLimit transfers settlement → KeepsInherited renamed settlement.providerMemberId)

/-! ## Reading renamed transfers -/

section Inputs

variable {renamed : String → String}

theorem field_renameProperties (rename : String → JsonValue → JsonValue) (value : JsonValue)
    (name : String) :
    (renameProperties rename value).field name = (value.field name).map (rename name) := by
  cases value with
  | obj fields =>
      rw [renameProperties, JsonValue.field_obj, JsonValue.field_obj]
      induction fields with
      | nil => rfl
      | cons property rest ih =>
          obtain ⟨first, value⟩ := property
          rw [List.map_cons, JsonValue.get_cons, JsonValue.get_cons, ih]
          by_cases hname : first = name
          · rw [if_pos hname, if_pos hname, hname, Option.map_some]
          · rw [if_neg hname, if_neg hname]
  | _ => rfl

theorem properties_renameAttestation (item : JsonValue) :
    (renameAttestation renamed item).properties.filter (fun property ↦ property.1 ∉ attestationNames) =
      item.properties.filter (fun property ↦ property.1 ∉ attestationNames) := by
  cases item with
  | obj fields =>
      show (fields.map _).filter _ = fields.filter _
      induction fields with
      | nil => rfl
      | cons property rest ih =>
          obtain ⟨name, value⟩ := property
          by_cases hname : name ∈ attestationNames
          · rw [List.map_cons, List.filter_cons_of_neg (by simpa using hname),
              List.filter_cons_of_neg (by simpa using hname), ih]
          · have hmember : name ≠ "memberId" := fun hsame ↦ hname (by simp [hsame, attestationNames])
            rw [List.map_cons, List.filter_cons_of_pos (by simpa using hname),
              List.filter_cons_of_pos (by simpa using hname), ih]
            show (name, if name = "memberId" then renameText renamed value else value) :: _ = _
            rw [if_neg hmember]
  | _ => rfl

theorem readAttestation_rename (hrenames : Renames renamed) {item : JsonValue}
    {attestation : TransferAttestation} (h : readAttestation item = .ok attestation) :
    readAttestation (renameAttestation renamed item) = .ok (attestation.rename renamed) := by
  obtain ⟨hvalid, hmember, hkey, hdigest, hsignature, hrest⟩ := readAttestation_eq_ok.mp h
  refine readAttestation_eq_ok.mpr ⟨⟨hrenames.present _ hvalid.memberId, hvalid.keyId,
    hvalid.payloadDigest, hvalid.signature, hvalid.rest⟩, ?_, ?_, ?_, ?_, ?_⟩
  · rw [renameAttestation, field_renameProperties, hmember]
    rfl
  · rw [renameAttestation, field_renameProperties, hkey]
    rfl
  · rw [renameAttestation, field_renameProperties, hdigest]
    rfl
  · rw [renameAttestation, field_renameProperties, hsignature]
    rfl
  · exact (properties_renameAttestation item).trans hrest

theorem TransferTerms.Valid.rename (hrenames : Renames renamed) {transfer : Transfer}
    (h : transfer.toTransferTerms.Valid) : (transfer.rename renamed).toTransferTerms.Valid where
  id := h.id
  communityId := h.communityId
  providerMemberId := hrenames.present _ h.providerMemberId
  recipientMemberId := hrenames.present _ h.recipientMemberId
  positive := h.positive
  distinct := fun hsame ↦ h.distinct
    (hrenames.injective _ _ h.providerMemberId h.recipientMemberId hsame)
  reverses := h.reverses
  settles := h.settles

theorem describes_rename {input : JsonValue} {transfer : Transfer}
    (h : Describes input transfer.toTransferTerms) :
    Describes (renameTransfer renamed input) (transfer.rename renamed).toTransferTerms := by
  constructor <;> rw [renameTransfer, field_renameProperties]
  · rw [h.id]; rfl
  · rw [h.communityId]; rfl
  · rw [h.sourceProposalId]
    exact Option.map_id'
  · rw [h.providerMemberId]; rfl
  · rw [h.recipientMemberId]; rfl
  · rw [h.minutes]; rfl
  · rw [h.reversesTransferId]
    exact Option.map_id'

/-- A renamed transfer is read as the transfer between the renamed members. -/
theorem createTransfer_rename (hrenames : Renames renamed) {input : JsonValue} {transfer : Transfer}
    (h : createTransfer input = .ok transfer) :
    createTransfer (renameTransfer renamed input) = .ok (transfer.rename renamed) := by
  obtain ⟨hterms, hattestations⟩ := createTransfer_eq_ok.mp h
  obtain ⟨hdescribes, hvalid⟩ := createTransferTerms_eq_ok.mp hterms
  have hrenamed := hvalid.rename hrenames
  obtain ⟨first, second, p, r, hitems, hpair, hp, hr, hread⟩ :=
    (normalizeAttestations_eq_ok hvalid.distinct).mp hattestations
  refine createTransfer_eq_ok.mpr
    ⟨createTransferTerms_eq_ok.mpr ⟨describes_rename hdescribes, hrenamed⟩, ?_⟩
  rw [normalizeAttestations_eq_ok hrenamed.distinct]
  refine ⟨renameAttestation renamed first, renameAttestation renamed second, p.rename renamed,
    r.rename renamed, ?_, ?_, congrArg renamed hp, congrArg renamed hr, ?_⟩
  · rw [renameTransfer, field_renameProperties, hitems]
    rfl
  · rw [Transfer.rename, hpair]
    rfl
  · exact hread.imp
      (fun hordered ↦ ⟨readAttestation_rename hrenames hordered.1,
        readAttestation_rename hrenames hordered.2⟩)
      fun hswapped ↦ ⟨readAttestation_rename hrenames hswapped.1,
        readAttestation_rename hrenames hswapped.2⟩

variable {communityId : String} {verifyAttestation verifyRenamed : SignatureVerifier}

/-- A renamed transfer is admitted by the renamed verifier. -/
theorem admits_rename (hrenames : Renames renamed)
    (hverify : VerifiesRenamed renamed verifyAttestation verifyRenamed) {input : JsonValue}
    {transfer : Transfer} (h : Admits communityId verifyAttestation input transfer) :
    Admits communityId verifyRenamed (renameTransfer renamed input) (transfer.rename renamed) := by
  obtain ⟨hcreate, hcommunity, hattested⟩ := h
  refine ⟨createTransfer_rename hrenames hcreate, hcommunity, fun attestation hattestation ↦ ?_⟩
  obtain ⟨own, hown, rfl⟩ := List.mem_map.mp hattestation
  rw [hverify transfer (valid_of_createTransfer hcreate) own hown]
  exact hattested own hown

/-- The renamed transfers are collected as the transfers between the renamed members. -/
theorem collectTransfers_rename (hrenames : Renames renamed)
    (hverify : VerifiesRenamed renamed verifyAttestation verifyRenamed) {inputs : List JsonValue}
    {transfersById : List Transfer}
    (h : collectTransfers communityId verifyAttestation inputs = .ok transfersById) :
    collectTransfers communityId verifyRenamed (inputs.map (renameTransfer renamed)) =
      .ok (transfersById.map (·.rename renamed)) := by
  refine collect_map (determines_transfers communityId verifyAttestation)
    (determines_transfers communityId verifyRenamed) ?_ h ?_
  · intro transfer
    rfl
  · intro input _ transfer hread
    exact readTransfer_eq_ok.mpr (admits_rename hrenames hverify (readTransfer_eq_ok.mp hread))

/-- The rules for the transfers of a ledger do not read the members' names. -/
theorem ledgerRules_rename {transfers : List Transfer} (h : LedgerRules (· ∈ transfers)) :
    LedgerRules (· ∈ transfers.map (·.rename renamed)) where
  unique := by
    intro left right hleft hright hids
    obtain ⟨first, hfirst, rfl⟩ := List.mem_map.mp hleft
    obtain ⟨second, hsecond, rfl⟩ := List.mem_map.mp hright
    rw [h.unique first second hfirst hsecond hids]
  settlesOnce := by
    intro left right hleft hright hordinary hother hproposal
    obtain ⟨first, hfirst, rfl⟩ := List.mem_map.mp hleft
    obtain ⟨second, hsecond, rfl⟩ := List.mem_map.mp hright
    rw [h.settlesOnce first second hfirst hsecond hordinary hother hproposal]
  reverses := by
    intro reversal hmem hreverses
    obtain ⟨own, hown, rfl⟩ := List.mem_map.mp hmem
    obtain ⟨original, horiginal, hid, hprovider, hrecipient, hminutes⟩ :=
      h.reverses own hown hreverses
    exact ⟨original.rename renamed, List.mem_map_of_mem horiginal, hid, congrArg renamed hprovider,
      congrArg renamed hrecipient, hminutes⟩

end Inputs

/-! ## Balances of renamed members -/

/-- Only the names of an object's own prototype have an inherited text: that of `__proto__` begins with a
bracket, and the functions' texts begin with a letter. -/
theorem inheritedText_eq_some {name text : String} (h : inheritedText name = some text) :
    name = "__proto__" ∧ text = "[object Object]" ∨
      name ≠ "__proto__" ∧ ∃ shown, text = "function " ++ shown ++ "() \x7b [native code] \x7d" ∧
        (name = "constructor" ∧ shown = "Object" ∨
          shown = name ∧ name ≠ "constructor" ∧ name ≠ "Object") := by
  unfold inheritedText at h
  split at h
  · rename_i hname
    cases h
    exact .inr ⟨by rw [hname]; decide, "Object", by decide, .inl ⟨hname, rfl⟩⟩
  · rename_i hconstructor
    split at h
    · rename_i hname
      cases h
      exact .inl ⟨hname, rfl⟩
    · rename_i hproto
      split at h
      · rename_i hmem
        cases h
        refine .inr ⟨hproto, name, rfl, .inr ⟨rfl, hconstructor, ?_⟩⟩
        rintro rfl
        exact absurd hmem (by decide)
      · cases h

/-- Different inherited names have different texts. -/
theorem inheritedText_inj {left right text : String} (hleft : inheritedText left = some text)
    (hright : inheritedText right = some text) : left = right := by
  rcases inheritedText_eq_some hleft with ⟨hl, htext⟩ | ⟨-, shown, htext, hshown⟩
  · rcases inheritedText_eq_some hright with ⟨hr, -⟩ | ⟨-, other, hother, -⟩
    · rw [hl, hr]
    · rw [htext] at hother
      exact absurd (congrArg (fun text ↦ text.toList.head?) hother) (by simp)
  · rcases inheritedText_eq_some hright with ⟨-, hr⟩ | ⟨-, other, hother, hnames⟩
    · rw [htext] at hr
      exact absurd (congrArg (fun text ↦ text.toList.head?) hr) (by simp)
    · have hsame : shown = other := by
        have hlists := congrArg String.toList (htext.symm.trans hother)
        simpa [String.ext_iff] using hlists
      subst hsame
      rcases hshown with ⟨hl, ho⟩ | ⟨rfl, hc, hobj⟩
      · rcases hnames with ⟨hr, -⟩ | ⟨hr, -, hne⟩
        · rw [hl, hr]
        · exact absurd (hr ▸ ho) hne
      · rcases hnames with ⟨-, hr⟩ | ⟨hr, -, -⟩
        · exact absurd hr hobj
        · exact hr

/-- What is appended to a function's text is not the text of `__proto__`. -/
theorem function_ne_object {name text digits : String} (h : inheritedText name = some text)
    (hname : name ≠ "__proto__") : text ++ digits ≠ "[object Object]" := by
  rcases inheritedText_eq_some h with ⟨hproto, -⟩ | ⟨-, shown, rfl, -⟩
  · exact absurd hproto hname
  · intro hsame
    exact absurd (congrArg (fun text ↦ text.toList.head?) hsame) (by simp)

section Reads

variable {renamed : String → String} {memberId : String} {postings : List LedgerPosting}

/-- What is read for a member whose postings have not been applied. -/
theorem balanceOf_nil (memberId : String) :
    balanceOf [] memberId = match inheritedText memberId with
      | some text => .text text
      | none => .minutes 0 := by
  unfold balanceOf
  rw [lookup_nil]
  split <;> simp_all

/-- What is read for a member: under `__proto__` no posting is kept. -/
theorem balanceOf_posted (postings : List LedgerPosting) (memberId : String) :
    balanceOf (applyPostings [] postings) memberId =
      if memberId = "__proto__" then .text "[object Object]" else accumulated postings memberId := by
  by_cases hname : memberId = "__proto__"
  · have hinherited : inheritedText "__proto__" = some "[object Object]" := by decide
    have hnone := lookup_applyPostings postings "__proto__"
    rw [if_neg fun h ↦ h.1 rfl] at hnone
    rw [if_pos hname, hname, balanceOf, hnone, hinherited]
  · rw [if_neg hname, balanceOf_applyPostings postings hname]

/-- A balance with the minutes of some postings added. -/
def Balance.addAll (balance : Balance) (own : List LedgerPosting) : Balance :=
  own.foldl (fun balance posting ↦ balance.add posting.minutes) balance

/-- Adding postings appends their digits to a text and their minutes to a number. -/
theorem exists_addAll (own : List LedgerPosting) : ∃ digits total,
    (∀ text, (Balance.text text).addAll own = .text (text ++ digits)) ∧
    ∀ value, (Balance.minutes value).addAll own = .minutes (value + total) := by
  induction own with
  | nil => exact ⟨"", 0, fun text ↦ by rw [String.append_empty]; rfl, fun value ↦ by
      rw [Int.add_zero]; rfl⟩
  | cons posting rest ih =>
      obtain ⟨digits, total, htexts, hminutes⟩ := ih
      refine ⟨toString posting.minutes ++ digits, posting.minutes + total, fun text ↦ ?_,
        fun value ↦ ?_⟩
      · have hrest := htexts (text ++ toString posting.minutes)
        rw [String.append_assoc] at hrest
        exact hrest
      · have hrest := hminutes (value + posting.minutes)
        rw [Int.add_assoc] at hrest
        exact hrest

/-- The postings of a renamed member are those of the member. -/
theorem memberPostings_rename (hrenames : Renames renamed)
    (hpostings : ∀ posting ∈ postings, Text.blank posting.memberId = false)
    (hmember : Text.blank memberId = false) :
    memberPostings (postings.map (·.rename renamed)) (renamed memberId) =
      (memberPostings postings memberId).map (·.rename renamed) := by
  rw [memberPostings, memberPostings, List.filter_map]
  congr 1
  refine List.filter_congr fun posting hposting ↦ decide_eq_decide.mpr ⟨?_, ?_⟩
  · exact hrenames.injective _ _ (hpostings posting hposting) hmember
  · exact congrArg renamed

/-- A renamed member's postings are added to what is read under the name. -/
theorem accumulated_rename (hrenames : Renames renamed)
    (hpostings : ∀ posting ∈ postings, Text.blank posting.memberId = false)
    (hmember : Text.blank memberId = false) :
    accumulated (postings.map (·.rename renamed)) (renamed memberId) =
      (balanceOf [] (renamed memberId)).addAll (memberPostings postings memberId) := by
  rw [accumulated, memberPostings_rename hrenames hpostings hmember, List.foldl_map]
  rfl

/-- A member who keeps an inherited name is `__proto__` under the renaming when it is before. -/
theorem KeepsInherited.proto_iff (h : KeepsInherited renamed memberId) :
    renamed memberId = "__proto__" ↔ memberId = "__proto__" := by
  have hproto : (inheritedText "__proto__").isSome := by decide
  constructor
  · intro hname
    exact (h (.inr (hname ▸ hproto))).symm.trans hname
  · intro hname
    exact (h (.inl (hname ▸ hproto))).trans hname

/-- The postings of a member who keeps an inherited name add up to the same under the renaming. -/
theorem accumulated_of_keeps (hrenames : Renames renamed)
    (hpostings : ∀ posting ∈ postings, Text.blank posting.memberId = false)
    (hmember : Text.blank memberId = false) (hkeeps : KeepsInherited renamed memberId) :
    accumulated (postings.map (·.rename renamed)) (renamed memberId) = accumulated postings memberId := by
  have hstart : balanceOf [] (renamed memberId) = balanceOf [] memberId := by
    by_cases hinherited : (inheritedText memberId).isSome ∨ (inheritedText (renamed memberId)).isSome
    · rw [hkeeps hinherited]
    · obtain ⟨hplain, hrenamed⟩ := not_or.mp hinherited
      rw [balanceOf_nil, balanceOf_nil, Option.not_isSome_iff_eq_none.mp hplain,
        Option.not_isSome_iff_eq_none.mp hrenamed]
  rw [accumulated_rename hrenames hpostings hmember, hstart]
  rfl

/-- A member who keeps an inherited name has the same balance under the renaming. -/
theorem balanceOf_rename (hrenames : Renames renamed)
    (hpostings : ∀ posting ∈ postings, Text.blank posting.memberId = false)
    (hmember : Text.blank memberId = false) (hkeeps : KeepsInherited renamed memberId) :
    balanceOf (applyPostings [] (postings.map (·.rename renamed))) (renamed memberId) =
      balanceOf (applyPostings [] postings) memberId := by
  rw [balanceOf_posted, balanceOf_posted, accumulated_of_keeps hrenames hpostings hmember hkeeps]
  simp only [hkeeps.proto_iff]

/-- The balances hold what the postings of each posted member add up to, except under `__proto__`. -/
theorem mem_applyPostings {entry : String × Balance} :
    entry ∈ applyPostings [] postings ↔ entry.1 ≠ "__proto__" ∧
      (∃ posting ∈ postings, posting.memberId = entry.1) ∧
      entry.2 = accumulated postings entry.1 := by
  have hposted : memberPostings postings entry.1 ≠ [] ↔
      ∃ posting ∈ postings, posting.memberId = entry.1 := by
    rw [memberPostings, ne_eq, List.filter_eq_nil_iff]
    simp
  have hlookup := @lookup_eq_some_iff _ _ _ Prod.fst _ (nodup_applyPostings postings) entry.1 entry
  rw [← hposted]
  refine Iff.trans (by simpa using hlookup.symm) ?_
  rw [lookup_applyPostings]
  by_cases hheld : entry.1 ≠ "__proto__" ∧ memberPostings postings entry.1 ≠ []
  · rw [if_pos hheld]
    obtain ⟨memberId, balance⟩ := entry
    simp only [Option.some.injEq, Prod.mk.injEq, true_and]
    exact ⟨fun hsame ↦ ⟨hheld.1, hheld.2, hsame.symm⟩, fun h ↦ h.2.2.symm⟩
  · rw [if_neg hheld]
    exact ⟨fun hnone ↦ (by cases hnone), fun h ↦ absurd ⟨h.1, h.2.1⟩ hheld⟩

/-- The balances hold the same entries under the renaming. -/
theorem mem_applyPostings_rename (hrenames : Renames renamed)
    (hpostings : ∀ posting ∈ postings, Text.blank posting.memberId = false)
    (hkeeps : ∀ posting ∈ postings, KeepsInherited renamed posting.memberId)
    (entry : String × Balance) :
    entry ∈ applyPostings [] (postings.map (·.rename renamed)) ↔
      ∃ own ∈ applyPostings [] postings, (renamed own.1, own.2) = entry := by
  constructor
  · intro hentry
    obtain ⟨hname, ⟨posting, hposting, hmember⟩, hbalance⟩ := mem_applyPostings.mp hentry
    obtain ⟨own, hown, rfl⟩ := List.mem_map.mp hposting
    have hkept := hkeeps own hown
    refine ⟨(own.memberId, accumulated postings own.memberId), mem_applyPostings.mpr
      ⟨fun hproto ↦ hname (hmember ▸ hkept.proto_iff.mpr hproto), ⟨own, hown, rfl⟩, rfl⟩, ?_⟩
    refine Prod.ext hmember ?_
    rw [hbalance, ← hmember]
    exact (accumulated_of_keeps hrenames hpostings (hpostings own hown) hkept).symm
  · rintro ⟨own, hown, rfl⟩
    obtain ⟨hname, ⟨posting, hposting, hmember⟩, hbalance⟩ := mem_applyPostings.mp hown
    have hkept := hmember ▸ hkeeps posting hposting
    refine mem_applyPostings.mpr ⟨fun hproto ↦ hname (hkept.proto_iff.mp hproto),
      ⟨posting.rename renamed, List.mem_map_of_mem hposting, congrArg renamed hmember⟩, ?_⟩
    rw [hbalance]
    exact (accumulated_of_keeps hrenames hpostings (hmember ▸ hpostings posting hposting) hkept).symm

/-- A member whose balance reads the same under the renaming keeps an inherited name. -/
theorem keepsInherited_of_read (hrenames : Renames renamed)
    (hpostings : ∀ posting ∈ postings, Text.blank posting.memberId = false)
    (hmember : Text.blank memberId = false)
    (hread : balanceOf (applyPostings [] (postings.map (·.rename renamed))) (renamed memberId) =
      balanceOf (applyPostings [] postings) memberId) : KeepsInherited renamed memberId := by
  intro hinherited
  obtain ⟨digits, total, htexts, hminutes⟩ := exists_addAll (memberPostings postings memberId)
  have hshown : ∀ name, (if name = "__proto__" then Balance.text "[object Object]" else
      (balanceOf [] name).addAll (memberPostings postings memberId)) =
      match inheritedText name with
      | some text => .text (if name = "__proto__" then "[object Object]" else text ++ digits)
      | none => .minutes total := by
    intro name
    by_cases hname : name = "__proto__"
    · have hproto : inheritedText "__proto__" = some "[object Object]" := by decide
      rw [hname, hproto]
      rfl
    · rw [if_neg hname, balanceOf_nil]
      cases hstart : inheritedText name with
      | some text => simp only [htexts, if_neg hname]
      | none => simp only [hminutes, Int.zero_add]
  have hown : accumulated postings memberId =
      (balanceOf [] memberId).addAll (memberPostings postings memberId) := rfl
  rw [balanceOf_posted, balanceOf_posted, accumulated_rename hrenames hpostings hmember, hown,
    hshown, hshown] at hread
  cases hleft : inheritedText (renamed memberId) with
  | none =>
      cases hright : inheritedText memberId with
      | none => simp [hleft, hright] at hinherited
      | some text => simp [hleft, hright] at hread
  | some text =>
      cases hright : inheritedText memberId with
      | none => simp [hleft, hright] at hread
      | some other =>
          simp only [hleft, hright, Balance.text.injEq] at hread
          by_cases hproto : renamed memberId = "__proto__"
          · by_cases hsame : memberId = "__proto__"
            · exact hproto.trans hsame.symm
            · rw [if_pos hproto, if_neg hsame] at hread
              exact absurd hread.symm (function_ne_object hright hsame)
          · by_cases hsame : memberId = "__proto__"
            · rw [if_neg hproto, if_pos hsame] at hread
              exact absurd hread (function_ne_object hleft hproto)
            · rw [if_neg hproto, if_neg hsame] at hread
              have htexts : text = other := (String.append_left_inj digits).mp hread
              exact inheritedText_inj hleft (htexts ▸ hright)

/-- A posted member whose entry is renamed keeps an inherited name: under `__proto__` there is no entry. -/
theorem keepsInherited_of_entries (hrenames : Renames renamed)
    (hpostings : ∀ posting ∈ postings, Text.blank posting.memberId = false)
    (hentries : ∀ entry, entry ∈ applyPostings [] (postings.map (·.rename renamed)) ↔
      ∃ own ∈ applyPostings [] postings, (renamed own.1, own.2) = entry)
    {posting : LedgerPosting} (hposting : posting ∈ postings) :
    KeepsInherited renamed posting.memberId := by
  have hblank := hpostings posting hposting
  by_cases hname : posting.memberId = "__proto__"
  · intro _
    by_contra hmoved
    -- The new name has an entry, and only the member's own entry could be there under it.
    have hrenamed : renamed posting.memberId ≠ "__proto__" := fun h ↦ hmoved (h.trans hname.symm)
    obtain ⟨own, hown, hsame⟩ := (hentries (renamed posting.memberId,
      accumulated (postings.map (·.rename renamed)) (renamed posting.memberId))).mp
      (mem_applyPostings.mpr
        ⟨hrenamed, ⟨posting.rename renamed, List.mem_map_of_mem hposting, rfl⟩, rfl⟩)
    obtain ⟨hplain, ⟨other, hother, hmember⟩, -⟩ := mem_applyPostings.mp hown
    have hid := hrenames.injective _ _ (hmember ▸ hpostings other hother) hblank
      (congrArg Prod.fst hsame)
    exact hplain (hid.trans hname)
  · have hown : (posting.memberId, accumulated postings posting.memberId) ∈ applyPostings [] postings :=
      mem_applyPostings.mpr ⟨hname, ⟨posting, hposting, rfl⟩, rfl⟩
    have hentry := (hentries _).mpr ⟨_, hown, rfl⟩
    obtain ⟨hrenamed, -, hbalance⟩ := mem_applyPostings.mp hentry
    refine keepsInherited_of_read hrenames hpostings hblank ?_
    rw [balanceOf_posted, balanceOf_posted, if_neg hname, if_neg hrenamed]
    exact hbalance.symm

/-- Only a number crosses the limit: no inherited text is read for the recipient of a settlement that does. -/
theorem plain_of_crosses {policy : LedgerPolicy} {transfer : Transfer}
    (h : wouldCrossMinimumBalance transfer (applyPostings [] postings) policy = true) :
    inheritedText transfer.recipientMemberId = none := by
  obtain ⟨digits, -, htexts, -⟩ := exists_addAll (memberPostings postings transfer.recipientMemberId)
  cases hinherited : inheritedText transfer.recipientMemberId with
  | none => rfl
  | some text =>
      have hown : accumulated postings transfer.recipientMemberId = .text (text ++ digits) := by
        rw [← htexts text, accumulated, balanceOf_nil, hinherited]
        rfl
      unfold wouldCrossMinimumBalance at h
      rw [balanceOf_posted, hown] at h
      by_cases hname : transfer.recipientMemberId = "__proto__"
      · simp [hname] at h
      · simp [hname] at h

end Reads

/-! ## Settling renamed transfers -/

section Settling

variable {renamed : String → String} {policy : LedgerPolicy}

/-- The participants of a transfer have ids, and keep those that objects inherit. -/
def KeepsParticipants (renamed : String → String) (transfer : Transfer) : Prop :=
  ∀ memberId, memberId = transfer.providerMemberId ∨ memberId = transfer.recipientMemberId →
    Text.blank memberId = false ∧ KeepsInherited renamed memberId

/-- Two ledgers under construction, the second under the renaming. -/
structure RenamedState (renamed : String → String) (before after : LedgerState) : Prop where
  acceptedTransfers : after.acceptedTransfers = before.acceptedTransfers.map (·.rename renamed)
  rejectedTransfers : after.rejectedTransfers = before.rejectedTransfers.map (·.rename renamed)
  postings : after.postings = before.postings.map (·.rename renamed)
  posted : Posted before
  postedAfter : Posted after
  members : ∀ posting ∈ before.postings, Text.blank posting.memberId = false
  kept : ∀ posting ∈ before.postings, KeepsInherited renamed posting.memberId

variable {before after : LedgerState} {transfer : Transfer}

/-- Accepting a transfer on both sides. -/
theorem RenamedState.accept (h : RenamedState renamed before after)
    (hkeeps : KeepsParticipants renamed transfer) :
    RenamedState renamed (acceptTransfer before transfer)
      (acceptTransfer after (transfer.rename renamed)) where
  acceptedTransfers := by
    show after.acceptedTransfers ++ [_] = (before.acceptedTransfers ++ [_]).map _
    rw [h.acceptedTransfers, List.map_append]
    rfl
  rejectedTransfers := h.rejectedTransfers
  postings := by
    show after.postings ++ derivePostings _ = (before.postings ++ derivePostings _).map _
    rw [h.postings, List.map_append]
    rfl
  posted := h.posted.accept transfer
  postedAfter := h.postedAfter.accept (transfer.rename renamed)
  members := by
    intro posting hposting
    rcases List.mem_append.mp hposting with hbefore | hown
    · exact h.members posting hbefore
    · simp only [derivePostings, List.mem_cons, List.not_mem_nil, or_false] at hown
      rcases hown with rfl | rfl
      · exact (hkeeps _ (.inl rfl)).1
      · exact (hkeeps _ (.inr rfl)).1
  kept := by
    intro posting hposting
    rcases List.mem_append.mp hposting with hbefore | hown
    · exact h.kept posting hbefore
    · simp only [derivePostings, List.mem_cons, List.not_mem_nil, or_false] at hown
      rcases hown with rfl | rfl
      · exact (hkeeps _ (.inl rfl)).2
      · exact (hkeeps _ (.inr rfl)).2

/-- Rejecting a transfer on both sides. -/
theorem RenamedState.reject (h : RenamedState renamed before after) (reason : RejectionReason)
    (transfer : Transfer) : RenamedState renamed (rejectTransfer reason before transfer)
      (rejectTransfer reason after (transfer.rename renamed)) where
  acceptedTransfers := h.acceptedTransfers
  rejectedTransfers := by
    show after.rejectedTransfers ++ [_] = (before.rejectedTransfers ++ [_]).map _
    rw [h.rejectedTransfers, List.map_append]
    rfl
  postings := h.postings
  posted := h.posted.reject reason transfer
  postedAfter := h.postedAfter.reject reason (transfer.rename renamed)
  members := h.members
  kept := h.kept

/-- A renamed member's balance reads as the member's does. -/
theorem RenamedState.read (h : RenamedState renamed before after) (hrenames : Renames renamed)
    {memberId : String} (hmember : Text.blank memberId = false)
    (hkeeps : KeepsInherited renamed memberId) :
    balanceOf after.balances (renamed memberId) = balanceOf before.balances memberId := by
  rw [h.postedAfter.balances, h.posted.balances, h.postings]
  exact balanceOf_rename hrenames h.members hmember hkeeps

/-- A settlement is accepted on both sides or on neither when its recipient keeps an inherited name. -/
theorem RenamedState.settle (h : RenamedState renamed before after) (hrenames : Renames renamed)
    (hvalid : transfer.Valid) (hrecipient : KeepsInherited renamed transfer.recipientMemberId)
    (hprovider : wouldCrossMinimumBalance transfer before.balances policy = false →
      KeepsInherited renamed transfer.providerMemberId) :
    RenamedState renamed (settleTransfer policy before transfer)
      (settleTransfer policy after (transfer.rename renamed)) := by
  have hcrosses : wouldCrossMinimumBalance (transfer.rename renamed) after.balances policy =
      wouldCrossMinimumBalance transfer before.balances policy := by
    have hread := h.read hrenames hvalid.recipientMemberId hrecipient
    have hbalance : balanceOf after.balances (transfer.rename renamed).recipientMemberId =
        balanceOf before.balances transfer.recipientMemberId := hread
    have hminutes : (transfer.rename renamed).minutes = transfer.minutes := rfl
    unfold wouldCrossMinimumBalance
    rw [hbalance, hminutes]
  have hreverses : (transfer.rename renamed).reversesTransferId = transfer.reversesTransferId := rfl
  unfold settleTransfer
  rw [hcrosses, hreverses]
  by_cases hreversal : transfer.reversesTransferId.isSome = true
  · rw [if_pos hreversal, if_pos hreversal]
    exact h
  · rw [if_neg hreversal, if_neg hreversal]
    by_cases hrejected : wouldCrossMinimumBalance transfer before.balances policy = true
    · rw [if_pos hrejected, if_pos hrejected]
      exact h.reject .minimumBalance transfer
    · rw [if_neg hrejected, if_neg hrejected]
      refine h.accept fun memberId hmember ↦ ?_
      rcases hmember with rfl | rfl
      · exact ⟨hvalid.providerMemberId, hprovider (by simpa using hrejected)⟩
      · exact ⟨hvalid.recipientMemberId, hrecipient⟩

theorem renamedState_empty : RenamedState renamed .empty .empty :=
  ⟨rfl, rfl, rfl, ⟨rfl, rfl⟩, ⟨rfl, rfl⟩, fun _ hmem ↦ absurd hmem List.not_mem_nil,
    fun _ hmem ↦ absurd hmem List.not_mem_nil⟩

variable {transfers : List Transfer}

/-- The settlements are accepted and rejected alike when every recipient keeps an inherited name, and every
provider of a settlement that is accepted at its turn. -/
theorem renamedState_settled (hrenames : Renames renamed) {settlements : List Transfer}
    (hvalid : ∀ settlement ∈ settlements, settlement.Valid)
    (hkeeps : ∀ earlier settlement later, settlements = earlier ++ settlement :: later →
      KeepsInherited renamed settlement.recipientMemberId ∧
        (crosses policy earlier settlement = false →
          KeepsInherited renamed settlement.providerMemberId)) :
    RenamedState renamed (settled policy settlements)
      (settled policy (settlements.map (·.rename renamed))) := by
  induction settlements using List.reverseRecOn with
  | nil => exact renamedState_empty
  | append_singleton earlier settlement ih =>
      have hearlier := ih (fun other hother ↦ hvalid other (List.mem_append_left _ hother))
        fun first other rest hsplit ↦ hkeeps first other (rest ++ [settlement]) (by simp [hsplit])
      obtain ⟨hrecipient, hprovider⟩ := hkeeps earlier settlement [] rfl
      have hstep (list : List Transfer) (last : Transfer) : settled policy (list ++ [last]) =
          settleTransfer policy (settled policy list) last := by
        simp [settled]
      rw [List.map_append, List.map_singleton, hstep, hstep]
      exact hearlier.settle hrenames (hvalid settlement (by simp)) hrecipient hprovider

theorem RenamedState.acceptAll (h : RenamedState renamed before after)
    (hkeeps : ∀ transfer ∈ transfers, KeepsParticipants renamed transfer) :
    RenamedState renamed (transfers.foldl acceptTransfer before)
      ((transfers.map (·.rename renamed)).foldl acceptTransfer after) := by
  induction transfers generalizing before after with
  | nil => exact h
  | cons transfer rest ih =>
      obtain ⟨hown, hrest⟩ := List.forall_mem_cons.mp hkeeps
      exact ih (h.accept hown) hrest

theorem RenamedState.rejectAll (h : RenamedState renamed before after) :
    RenamedState renamed (transfers.foldl (rejectTransfer .unacceptedReversal) before)
      ((transfers.map (·.rename renamed)).foldl (rejectTransfer .unacceptedReversal) after) := by
  induction transfers generalizing before after with
  | nil => exact h
  | cons transfer rest ih => exact ih (h.reject .unacceptedReversal transfer)

/-- The same reversals reverse accepted transfers. -/
theorem acceptedReversals_rename (ids : List String) (pending : List Transfer) :
    acceptedReversals ids (pending.map (·.rename renamed)) =
      (acceptedReversals ids pending).map (·.rename renamed) := by
  rw [acceptedReversals, acceptedReversals, List.filter_map]
  rfl

theorem nextPendingReversals_rename (ids : List String) (pending : List Transfer) :
    nextPendingReversals ids (pending.map (·.rename renamed)) =
      (nextPendingReversals ids pending).map (·.rename renamed) := by
  rw [nextPendingReversals, nextPendingReversals, List.filter_map]
  rfl

/-- The participants of an accepted transfer, whom its reversal is between, keep inherited names. -/
theorem RenamedState.keepsReversal (h : RenamedState renamed before after)
    {reversal original : Transfer} (horiginal : original ∈ before.acceptedTransfers)
    (hreverses : Reverses reversal original) : KeepsParticipants renamed reversal := by
  obtain ⟨-, hprovider, hrecipient, -⟩ := hreverses
  have hposted : ∀ posting ∈ derivePostings original,
      Text.blank posting.memberId = false ∧ KeepsInherited renamed posting.memberId := by
    intro posting hposting
    have hmem : posting ∈ before.postings :=
      h.posted.postings ▸ List.mem_flatMap.mpr ⟨original, horiginal, hposting⟩
    exact ⟨h.members posting hmem, h.kept posting hmem⟩
  simp only [derivePostings, List.forall_mem_cons] at hposted
  intro memberId hmember
  rcases hmember with rfl | rfl
  · exact hprovider ▸ hposted.2.1
  · exact hrecipient ▸ hposted.1

/-- The rounds accept and reject the same reversals. -/
theorem RenamedState.reverse (hrules : LedgerRules (· ∈ transfers)) (pending : List Transfer)
    (before : LedgerState) :
    ∀ after, RenamedState renamed before after →
      (∀ transfer ∈ before.acceptedTransfers, transfer ∈ transfers) →
      (∀ transfer ∈ pending, transfer ∈ transfers) →
      RenamedState renamed (applyReversals pending before)
        (applyReversals (pending.map (·.rename renamed)) after) := by
  have hids (before after : LedgerState) (h : RenamedState renamed before after) :
      after.acceptedTransferIds = before.acceptedTransferIds := by
    rw [LedgerState.acceptedTransferIds, h.acceptedTransfers, List.map_map]
    rfl
  induction pending, before using rounds_induction with
  | stop pending before hstop =>
      intro after h _ _
      have hafter : acceptedReversals after.acceptedTransferIds (pending.map (·.rename renamed)) = [] := by
        rw [hids before after h, acceptedReversals_rename, hstop, List.map_nil]
      rw [applyReversals_stop hstop, applyReversals_stop hafter]
      exact h.rejectAll
  | round pending before hround ih =>
      intro after h haccepted hpending
      have hafter : acceptedReversals after.acceptedTransferIds (pending.map (·.rename renamed)) ≠ [] := by
        rw [hids before after h, acceptedReversals_rename]
        exact fun hnone ↦ hround (List.map_eq_nil_iff.mp hnone)
      have hheld : ∀ transfer ∈ acceptedReversals before.acceptedTransferIds pending,
          transfer ∈ transfers := fun transfer hmem ↦ hpending transfer (List.mem_of_mem_filter hmem)
      -- a reversal of the round has the participants of a transfer that was accepted before
      have hkeeps : ∀ transfer ∈ acceptedReversals before.acceptedTransferIds pending,
          KeepsParticipants renamed transfer := by
        intro reversal hmem
        obtain ⟨reversed, hreversed, hid⟩ :=
          reversesAccepted_eq_true.mp (List.mem_filter.mp hmem).2
        obtain ⟨original, horiginal, rfl⟩ := List.mem_map.mp hid
        obtain ⟨other, hother, hreverses⟩ :=
          hrules.reverses reversal (hheld reversal hmem) (by simp [hreversed])
        have hsame : other = original := hrules.unique other original hother
          (haccepted original horiginal) (Option.some.inj (hreverses.1.symm.trans hreversed))
        exact h.keepsReversal horiginal (hsame ▸ hreverses)
      rw [applyReversals_round hround, applyReversals_round hafter, hids before after h,
        acceptedReversals_rename, nextPendingReversals_rename]
      refine ih _ (h.acceptAll hkeeps) ?_ fun transfer hmem ↦
        hpending transfer (List.mem_of_mem_filter hmem)
      intro transfer hmem
      rw [foldl_acceptTransfer, List.mem_append] at hmem
      exact hmem.elim (haccepted transfer) (hheld transfer)

theorem settlementsOf_rename (transfers : List Transfer) :
    settlementsOf (transfers.map (·.rename renamed)) =
      (settlementsOf transfers).map (·.rename renamed) := by
  rw [settlementsOf, settlementsOf, List.filter_map]
  rfl

/-- Renamed transfers are settled and reversed as the transfers are. -/
theorem renamedState_resolveTransfers (hrenames : Renames renamed)
    (hvalid : ∀ transfer ∈ transfers, transfer.Valid) (hrules : LedgerRules (· ∈ transfers))
    (hkeeps : KeepsSettled renamed transfers) :
    RenamedState renamed (resolveTransfers defaultPeerHoursLedgerPolicy transfers)
      (resolveTransfers defaultPeerHoursLedgerPolicy (transfers.map (·.rename renamed))) := by
  have hreversals : (transfers.map (·.rename renamed)).filter (·.reversesTransferId.isSome) =
      (transfers.filter (·.reversesTransferId.isSome)).map (·.rename renamed) := by
    rw [List.filter_map]
    rfl
  have hsettled : RenamedState renamed
      (settled defaultPeerHoursLedgerPolicy (settlementsOf transfers))
      (settled defaultPeerHoursLedgerPolicy ((settlementsOf transfers).map (·.rename renamed))) := by
    refine renamedState_settled hrenames
      (fun settlement hmem ↦ hvalid settlement (List.mem_of_mem_filter hmem)) ?_
    intro earlier settlement later hsplit
    obtain ⟨hrecipient, hprovider⟩ := hkeeps settlement (hsplit ▸ by simp)
    exact ⟨hrecipient, fun hlimit ↦ hprovider ⟨earlier, later, hsplit, hlimit⟩⟩
  rw [resolveTransfers, resolveTransfers, hreversals, foldl_settleTransfer transfers,
    foldl_settleTransfer (transfers.map _), settlementsOf_rename]
  refine RenamedState.reverse hrules _ _ _ hsettled (fun transfer hmem ↦ ?_) fun transfer hmem ↦
    List.mem_of_mem_filter hmem
  exact List.mem_of_mem_filter (mem_settled hmem)

end Settling

/-! ## The ledger under a renaming -/

section Ledgers

variable {renamed : String → String} {localeCompare : String → String → Ordering} {communityId : String}
  {inputs : List JsonValue} {verifyAttestation verifyRenamed : SignatureVerifier} {before after : Ledger}

/-- Sorting by the transfers' ids does not read the members' names. -/
theorem sortBy_rename (transfers : List Transfer) :
    sortBy (on localeCompare (·.id)) (transfers.map (·.rename renamed)) =
      (sortBy (on localeCompare (·.id)) transfers).map (·.rename renamed) := by
  let ordered (left right : Transfer) : Prop := (on localeCompare (·.id) left right).isLE = true
  exact (List.map_insertionSort (r := ordered) (s := ordered) (·.rename renamed) transfers
    fun _ _ _ _ ↦ Iff.rfl).symm

/-- The transfers of an accepted list are valid. -/
theorem valid_of_collect {transfersById : List Transfer}
    (h : collectTransfers communityId verifyAttestation inputs = .ok transfersById) :
    ∀ transfer ∈ transfersById, transfer.Valid := by
  intro transfer htransfer
  obtain ⟨_, -, hread⟩ :=
    (mem_collect (determines_transfers communityId verifyAttestation) h transfer).mp htransfer
  exact valid_of_createTransfer (readTransfer_eq_ok.mp hread).1

/-- The balances of a ledger are those of its postings, and these are its transfers' postings. -/
theorem posted_ledgerOf (transfers : List Transfer) :
    (ledgerOf localeCompare communityId transfers).balances =
        applyPostings [] (ledgerOf localeCompare communityId transfers).postings ∧
      ∀ posting, posting ∈ (ledgerOf localeCompare communityId transfers).postings ↔
        ∃ transfer ∈ (ledgerOf localeCompare communityId transfers).transfers,
          posting ∈ derivePostings transfer := by
  obtain ⟨hpostings, hbalances⟩ := posted_resolveTransfers defaultPeerHoursLedgerPolicy transfers
  refine ⟨hbalances, fun posting ↦ ?_⟩
  show posting ∈ (resolveTransfers _ transfers).postings ↔
    ∃ transfer ∈ sortBy _ (resolveTransfers _ transfers).acceptedTransfers, _
  rw [hpostings, List.mem_flatMap]
  simp only [mem_sortBy]

/-- The ledger accepts transfers of the list only. -/
theorem mem_of_ledgerOf {transfers : List Transfer} {transfer : Transfer}
    (h : transfer ∈ (ledgerOf localeCompare communityId transfers).transfers) : transfer ∈ transfers :=
  (accounts_ledgerOf localeCompare communityId transfers).1.subset (List.mem_append_left _ h)

/-- A settlement keeps the limit at its turn exactly when the ledger accepts it. -/
theorem keepsLimit_iff_mem {transfers : List Transfer} (hnodup : transfers.Nodup) {transfer : Transfer}
    (hordinary : transfer.reversesTransferId = none) :
    KeepsLimit transfers transfer ↔
      transfer ∈ (ledgerOf localeCompare communityId transfers).transfers :=
  (keepsLimit_iff hnodup).trans (mem_ledgerOf_iff hordinary).symm

/-- No inherited text is read for the recipient of a settlement that the ledger does not accept. -/
theorem plain_of_not_mem {transfers : List Transfer} (hnodup : transfers.Nodup) {transfer : Transfer}
    (hmem : transfer ∈ settlementsOf transfers)
    (hrejected : transfer ∉ (ledgerOf localeCompare communityId transfers).transfers) :
    inheritedText transfer.recipientMemberId = none := by
  obtain ⟨earlier, later, hsplit⟩ := List.append_of_mem hmem
  have hordinary := Option.isNone_iff_eq_none.mp (List.mem_filter.mp hmem).2
  have hcrosses : crosses defaultPeerHoursLedgerPolicy earlier transfer = true := by
    by_contra hkeeps
    exact hrejected ((keepsLimit_iff_mem hnodup hordinary).mp
      ⟨earlier, later, hsplit, Bool.eq_false_iff.mpr hkeeps⟩)
  rw [crosses, (posted_settled _ earlier).balances] at hcrosses
  exact plain_of_crosses hcrosses

variable {transfers : List Transfer}

/-- The renamed transfers have the ledger renamed when the settlements keep inherited names. -/
theorem renamedLedger_of_keepsSettled (hrenames : Renames renamed)
    (hvalid : ∀ transfer ∈ transfers, transfer.Valid) (hrules : LedgerRules (· ∈ transfers))
    (hkeeps : KeepsSettled renamed transfers) :
    RenamedLedger renamed (ledgerOf localeCompare communityId transfers)
      (ledgerOf localeCompare communityId (transfers.map (·.rename renamed))) := by
  have hstate := renamedState_resolveTransfers hrenames hvalid hrules hkeeps
  refine ⟨rfl, ?_, hstate.rejectedTransfers, hstate.postings, fun entry ↦ ?_⟩
  · show sortBy _ (resolveTransfers _ _).acceptedTransfers = _
    rw [hstate.acceptedTransfers, sortBy_rename]
    rfl
  · show entry ∈ (resolveTransfers _ _).balances ↔ ∃ own ∈ (resolveTransfers _ _).balances, _
    rw [hstate.postedAfter.balances, hstate.posted.balances, hstate.postings]
    exact mem_applyPostings_rename hrenames hstate.members hstate.kept entry

/-- When the renamed transfers have the ledger renamed, the settlements keep inherited names. -/
theorem keepsSettled_of_renamedLedger (hrenames : Renames renamed)
    (hids : (transfers.map (·.id)).Nodup) (hvalid : ∀ transfer ∈ transfers, transfer.Valid)
    (hledger : RenamedLedger renamed (ledgerOf localeCompare communityId transfers)
      (ledgerOf localeCompare communityId (transfers.map (·.rename renamed)))) :
    KeepsSettled renamed transfers := by
  obtain ⟨hbalances, hposted⟩ := @posted_ledgerOf localeCompare communityId transfers
  obtain ⟨hafter, -⟩ := @posted_ledgerOf localeCompare communityId (transfers.map (·.rename renamed))
  have hentries := hledger.balances
  rw [hafter, hledger.postings, hbalances] at hentries
  have hblank : ∀ posting ∈ (ledgerOf localeCompare communityId transfers).postings,
      Text.blank posting.memberId = false := by
    intro posting hposting
    obtain ⟨transfer, haccepted, hown⟩ := (hposted posting).mp hposting
    have hown' := hvalid transfer (mem_of_ledgerOf haccepted)
    simp only [derivePostings, List.mem_cons, List.not_mem_nil, or_false] at hown
    rcases hown with rfl | rfl
    · exact hown'.providerMemberId
    · exact hown'.recipientMemberId
  -- whoever was posted to has the renamed entry in the renamed balances
  have hkept : ∀ transfer ∈ (ledgerOf localeCompare communityId transfers).transfers,
      ∀ posting ∈ derivePostings transfer, KeepsInherited renamed posting.memberId :=
    fun transfer haccepted posting hown ↦ keepsInherited_of_entries hrenames hblank hentries
      ((hposted posting).mpr ⟨transfer, haccepted, hown⟩)
  intro settlement hmem
  have hordinary := Option.isNone_iff_eq_none.mp (List.mem_filter.mp hmem).2
  by_cases haccepted : settlement ∈ (ledgerOf localeCompare communityId transfers).transfers
  · have hown := hkept settlement haccepted
    simp only [derivePostings, List.forall_mem_cons] at hown
    exact ⟨hown.2.1, fun _ ↦ hown.1⟩
  · refine ⟨fun hinherited ↦ absurd hinherited (not_or.mpr ?_), fun hlimit ↦
      absurd ((keepsLimit_iff_mem hids.of_map hordinary).mp hlimit) haccepted⟩
    have hrenamedIds : ((transfers.map (·.rename renamed)).map (·.id)).Nodup := by
      rw [List.map_map]
      exact hids
    have hrejected : settlement.rename renamed ∉
        (ledgerOf localeCompare communityId (transfers.map (·.rename renamed))).transfers := by
      rw [hledger.transfers]
      intro hin
      obtain ⟨other, hother, hsame⟩ := List.mem_map.mp hin
      have hid : other.id = settlement.id := congrArg (·.id) hsame
      have heq := List.inj_on_of_nodup_map hids (mem_of_ledgerOf hother)
        (List.mem_of_mem_filter hmem) hid
      exact haccepted (heq ▸ hother)
    have hrenamedMem : settlement.rename renamed ∈
        settlementsOf (transfers.map (·.rename renamed)) := by
      rw [settlementsOf_rename]
      exact List.mem_map_of_mem hmem
    -- a balance that is no number never crosses the limit, so both recipients have plain names
    have hplain := plain_of_not_mem hids.of_map hmem haccepted
    have hother := plain_of_not_mem hrenamedIds.of_map hrenamedMem hrejected
    rw [Transfer.rename] at hother
    exact ⟨by simp [hplain], by simp [hother]⟩

/-- The renamed list is accepted, with the ledger of the renamed transfers. -/
theorem applyTransfers_rename (hrenames : Renames renamed)
    (hverify : VerifiesRenamed renamed verifyAttestation verifyRenamed)
    (h : applyTransfers localeCompare communityId inputs verifyAttestation = .ok before)
    {transfersById : List Transfer}
    (hcollect : collectTransfers communityId verifyAttestation inputs = .ok transfersById) :
    LedgerRules (· ∈ transfersById) ∧
    before = ledgerOf localeCompare communityId (sortBy (on localeCompare (·.id)) transfersById) ∧
    applyTransfers localeCompare communityId (inputs.map (renameTransfer renamed)) verifyRenamed =
      .ok (ledgerOf localeCompare communityId
        ((sortBy (on localeCompare (·.id)) transfersById).map (·.rename renamed))) := by
  obtain ⟨hcommunity, others, hothers, hunique, hreversals, hledger⟩ := applyTransfers_eq_ok.mp h
  obtain rfl : others = transfersById := Except.ok.inj (hothers.symm.trans hcollect)
  have hrenamedCollect := collectTransfers_rename hrenames hverify hcollect
  have hids := nodup_collect (determines_transfers communityId verifyAttestation) hcollect
  have hrenamedIds := nodup_collect (determines_transfers communityId verifyRenamed) hrenamedCollect
  have hrules := (ledgerRules_iff hids (perm_sortBy others) (valid_of_collect hcollect)).mp
    ⟨hunique, hreversals⟩
  obtain ⟨hrenamedUnique, hrenamedReversals⟩ := (ledgerRules_iff hrenamedIds
    (@perm_sortBy _ (on localeCompare (·.id)) (others.map (·.rename renamed)))
    (valid_of_collect hrenamedCollect)).mpr (ledgerRules_rename hrules)
  refine ⟨hrules, hledger.symm, ?_⟩
  rw [← sortBy_rename]
  exact applyTransfers_eq_ok.mpr
    ⟨hcommunity, _, hrenamedCollect, hrenamedUnique, hrenamedReversals, rfl⟩

end Ledgers

/-- A renamed list of accepted transfers is accepted with the ledger renamed exactly when its settlements
keep the inherited names of their recipients and, where they keep the credit limit at their turn, of their
providers. -/
theorem applyTransfers_renamed_iff {renamed : String → String} (hrenames : Renames renamed)
    {localeCompare : String → String → Ordering} {communityId : String} {inputs : List JsonValue}
    {verifyAttestation verifyRenamed : SignatureVerifier} {before : Ledger}
    (h : applyTransfers localeCompare communityId inputs verifyAttestation = .ok before)
    (hverify : VerifiesRenamed renamed verifyAttestation verifyRenamed) :
    ∃ transfersById, collectTransfers communityId verifyAttestation inputs = .ok transfersById ∧
      ((∃ after, applyTransfers localeCompare communityId (inputs.map (renameTransfer renamed))
          verifyRenamed = .ok after ∧ RenamedLedger renamed before after) ↔
        KeepsSettled renamed (sortBy (on localeCompare (·.id)) transfersById)) := by
  obtain ⟨-, transfersById, hcollect, -⟩ := applyTransfers_eq_ok.mp h
  obtain ⟨hrules, rfl, hrenamed⟩ := applyTransfers_rename hrenames hverify h hcollect
  have hids : ((sortBy (on localeCompare (·.id)) transfersById).map (·.id)).Nodup :=
    (nodup_map_sortBy _).mpr
      (nodup_collect (determines_transfers communityId verifyAttestation) hcollect)
  have hvalid : ∀ transfer ∈ sortBy (on localeCompare (·.id)) transfersById, transfer.Valid :=
    fun transfer hmem ↦ valid_of_collect hcollect transfer (mem_sortBy.mp hmem)
  have hsorted : (· ∈ sortBy (on localeCompare (·.id)) transfersById) = (· ∈ transfersById) :=
    funext fun transfer ↦ propext mem_sortBy
  refine ⟨transfersById, hcollect, ?_, ?_⟩
  · rintro ⟨after, hafter, hledger⟩
    obtain rfl := Except.ok.inj (hrenamed.symm.trans hafter)
    exact keepsSettled_of_renamedLedger hrenames hids hvalid hledger
  · intro hkeeps
    exact ⟨_, hrenamed, renamedLedger_of_keepsSettled hrenames hvalid (hsorted ▸ hrules) hkeeps⟩

/-- Two ids that are not blank may change places. -/
theorem renames_swap {left right : String} (hleft : Text.blank left = false)
    (hright : Text.blank right = false) : Renames (Equiv.swap left right) where
  present := by
    intro memberId hmember
    rw [Equiv.swap_apply_def]
    split
    · exact hright
    · split
      · exact hleft
      · exact hmember
  injective := fun _ _ _ _ hsame ↦ (Equiv.swap left right).injective hsame

/-- The rejected settlement does not keep its provider from an inherited name. -/
theorem keepsSettled_returnedHour : KeepsSettled (Equiv.swap "cy" "constructor") returnedHour := by
  have hben : Equiv.swap "cy" "constructor" "ben" = "ben" :=
    Equiv.swap_apply_of_ne_of_ne (by decide) (by decide)
  have hada : Equiv.swap "cy" "constructor" "ada" = "ada" :=
    Equiv.swap_apply_of_ne_of_ne (by decide) (by decide)
  have hrejected : ¬ KeepsLimit returnedHour
      { hourTransfer "q/settlement" "cy" "ben" "q" with minutes := 3000 } := by
    rw [keepsLimit_iff (by decide +kernel)]
    decide +kernel
  have hsettlements : settlementsOf returnedHour = [hourTransfer "p/settlement" "ada" "ben" "p",
      { hourTransfer "q/settlement" "cy" "ben" "q" with minutes := 3000 }] := by decide
  intro settlement hmem
  rw [hsettlements, List.mem_pair] at hmem
  rcases hmem with rfl | rfl
  · exact ⟨fun _ ↦ hben, fun _ _ ↦ hada⟩
  · exact ⟨fun _ ↦ hben, fun hlimit ↦ absurd hlimit hrejected⟩

/-- The returned hour is renamed with the provider of the rejected settlement, who takes an inherited name. -/
theorem applyTransfers_renamed_iff_returnedHour :
    ∃ before, applyTransfers compare "garden" (returnedHour.map Transfer.toJson)
        (fun _ _ ↦ .ok true) = .ok before ∧
      ∃ transfersById, collectTransfers "garden" (fun _ _ ↦ .ok true)
          (returnedHour.map Transfer.toJson) = .ok transfersById ∧
        KeepsSettled (Equiv.swap "cy" "constructor") (sortBy (on compare (·.id)) transfersById) ∧
        ∃ after, applyTransfers compare "garden" ((returnedHour.map Transfer.toJson).map
            (renameTransfer (Equiv.swap "cy" "constructor"))) (fun _ _ ↦ .ok true) = .ok after ∧
          RenamedLedger (Equiv.swap "cy" "constructor") before after := by
  have hsucceeds : Succeeds (applyTransfers compare "garden" (returnedHour.map Transfer.toJson)
      (fun _ _ ↦ .ok true)) := by decide +kernel
  have hlist : collectTransfers "garden" (fun _ _ ↦ .ok true) (returnedHour.map Transfer.toJson) =
      .ok returnedHour := by decide +kernel
  have hsorted : sortBy (on compare (·.id)) returnedHour = returnedHour := by decide +kernel
  obtain ⟨before, hbefore⟩ := hsucceeds
  have hrenames : Renames (Equiv.swap "cy" "constructor") := renames_swap (by decide) (by decide)
  obtain ⟨transfersById, hcollect, hiff⟩ := @applyTransfers_renamed_iff _ hrenames _ _ _ _
    (fun _ _ ↦ .ok true) _ hbefore fun _ _ _ _ ↦ rfl
  obtain rfl : returnedHour = transfersById := Except.ok.inj (hlist.symm.trans hcollect)
  have hkeeps := hsorted.symm ▸ keepsSettled_returnedHour
  exact ⟨before, hbefore, _, hcollect, hkeeps, hiff.mpr hkeeps⟩

/-- Renaming the recipient of an hour to a name that objects inherit changes the ledger. -/
theorem applyTransfers_reads_names :
    ¬ ∀ (renamed : String → String), Renames renamed →
      ∀ (localeCompare : String → String → Ordering) (communityId : String) (inputs : List JsonValue)
        (verifyAttestation verifyRenamed : SignatureVerifier) (before : Ledger),
        applyTransfers localeCompare communityId inputs verifyAttestation = .ok before →
        VerifiesRenamed renamed verifyAttestation verifyRenamed →
        ∃ after, applyTransfers localeCompare communityId (inputs.map (renameTransfer renamed))
          verifyRenamed = .ok after ∧ RenamedLedger renamed before after := by
  intro h
  have hsucceeds : Succeeds (applyTransfers compare "garden"
      ([hourTransfer "p/settlement" "ada" "ben" "p"].map Transfer.toJson)
      (fun _ _ ↦ .ok true)) := by decide +kernel
  have hlist : collectTransfers "garden" (fun _ _ ↦ .ok true)
      ([hourTransfer "p/settlement" "ada" "ben" "p"].map Transfer.toJson) =
      .ok [hourTransfer "p/settlement" "ada" "ben" "p"] := by decide +kernel
  obtain ⟨before, hbefore⟩ := hsucceeds
  have hrenames : Renames (Equiv.swap "ben" "constructor") := renames_swap (by decide) (by decide)
  obtain ⟨after, hafter, hledger⟩ := h _ hrenames compare "garden" _ _ (fun _ _ ↦ .ok true) before
    hbefore fun _ _ _ _ ↦ rfl
  obtain ⟨-, rfl, hrenamed⟩ := @applyTransfers_rename _ _ _ _ _ (fun _ _ ↦ .ok true) _ hrenames
    (fun _ _ _ _ ↦ rfl) hbefore _ hlist
  obtain rfl := Except.ok.inj (hrenamed.symm.trans hafter)
  have hids : ([hourTransfer "p/settlement" "ada" "ben" "p"].map (·.id)).Nodup := by decide
  have hkeeps := keepsSettled_of_renamedLedger hrenames hids
    (fun transfer hmem ↦ valid_of_collect hlist transfer hmem) hledger
  -- The accepted hour makes its recipient keep the name, which the renaming does not.
  have hname : Equiv.swap "ben" "constructor" "ben" = "constructor" := Equiv.swap_apply_left _ _
  have hben : KeepsInherited (Equiv.swap "ben" "constructor") "ben" :=
    (hkeeps (hourTransfer "p/settlement" "ada" "ben" "p") (by decide)).1
  have hsame := hben (.inr (by rw [hname]; decide))
  rw [hname] at hsame
  exact absurd hsame (by decide)

end PeerHours.TimebankLedger

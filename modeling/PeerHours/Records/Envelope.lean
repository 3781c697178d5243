import PeerHours.Identity.Keys
import PeerHours.Library.KeyedMap
import PeerHours.Library.Sorting

/-!
# Record envelopes

The immutable record that runtimes replicate. `createRecordEnvelope` reads any JSON value; a
`RecordEnvelope` carries the checks it made, so an envelope is created again from its own object.
`reduceRecordEnvelopes` removes repeated delivery and rejects two records that share an id.
-/

namespace PeerHours.TimebankRecords

open Checked Json KeyedMap Sorting
open TimebankIdentity (assertPresent assertTimestamp assertPresent_eq_ok assertTimestamp_eq_ok)

/-! ## Payload normalization -/

mutual

/-- Recursively validates, copies and key-sorts a payload value. -/
def normalizeJson : JsonValue → Except String JsonValue
  | .null => .ok .null
  | .bool value => .ok (.bool value)
  | .num value => .ok (.num value)
  | .str value => .ok (.str value)
  | .arr items => do
      let items ← normalizeItems items
      pure (.arr items)
  | .obj fields => do
      let fields ← normalizeFields fields
      pure (.obj (sortBy compareProperties fields))

/-- Normalizes the items of an array. -/
def normalizeItems : List JsonValue → Except String (List JsonValue)
  | [] => .ok []
  | item :: rest => do
      let item ← normalizeJson item
      let rest ← normalizeItems rest
      pure (item :: rest)

/-- Normalizes the properties of an object; `__proto__` would change the copy's prototype. -/
def normalizeFields : List (String × JsonValue) → Except String (List (String × JsonValue))
  | [] => .ok []
  | (name, value) :: rest => do
      require (name ≠ "__proto__") "Record payload objects cannot contain a __proto__ property."
      let value ← normalizeJson value
      let rest ← normalizeFields rest
      pure ((name, value) :: rest)

end

/-- Properties that are already normal, one by one. -/
def NormalFields (fields : List (String × JsonValue)) : Prop :=
  ∀ property ∈ fields, property.1 ≠ "__proto__" ∧ normalizeJson property.2 = .ok property.2

theorem normalizeItems_eq_self {items : List JsonValue} :
    normalizeItems items = .ok items ↔ ∀ item ∈ items, normalizeJson item = .ok item := by
  induction items with
  | nil => simp [normalizeItems]
  | cons item rest ih =>
      simp only [normalizeItems, bind_eq_ok, pure_eq_ok, List.cons.injEq, List.forall_mem_cons, ← ih]
      constructor
      · rintro ⟨_, hitem, _, hrest, rfl, rfl⟩
        exact ⟨hitem, hrest⟩
      · rintro ⟨hitem, hrest⟩
        exact ⟨_, hitem, _, hrest, rfl, rfl⟩

theorem normalizeFields_eq_self {fields : List (String × JsonValue)} :
    normalizeFields fields = .ok fields ↔ NormalFields fields := by
  induction fields with
  | nil => simp [normalizeFields, NormalFields]
  | cons property rest ih =>
      obtain ⟨name, value⟩ := property
      simp only [normalizeFields, bind_eq_ok, require_eq_ok, exists_const, pure_eq_ok,
        List.cons.injEq, Prod.mk.injEq, true_and]
      rw [NormalFields, List.forall_mem_cons]
      constructor
      · rintro ⟨hname, _, hvalue, _, hrest, rfl, rfl⟩
        exact ⟨⟨hname, hvalue⟩, ih.mp hrest⟩
      · rintro ⟨⟨hname, hvalue⟩, hrest⟩
        exact ⟨hname, _, hvalue, _, ih.mpr hrest, rfl, rfl⟩

theorem normalizeJson_obj_eq_self {fields : List (String × JsonValue)}
    (h : NormalFields fields) :
    normalizeJson (.obj (sortBy compareProperties fields)) =
      .ok (.obj (sortBy compareProperties fields)) := by
  have hsorted : normalizeFields (sortBy compareProperties fields) =
      .ok (sortBy compareProperties fields) :=
    normalizeFields_eq_self.mpr fun property hproperty ↦ h property (mem_sortBy.mp hproperty)
  simp [normalizeJson, hsorted, pure, Except.pure]

mutual

/-- A normalized value is normal. -/
theorem normalizeJson_idem {value normal : JsonValue} (h : normalizeJson value = .ok normal) :
    normalizeJson normal = .ok normal := by
  match value with
  | .null | .bool _ | .num _ | .str _ =>
      obtain rfl := Except.ok.inj h
      rfl
  | .arr items =>
      rw [normalizeJson] at h
      obtain ⟨normalItems, hitems, h⟩ := bind_eq_ok.mp h
      obtain rfl := pure_eq_ok.mp h
      simp [normalizeJson, normalizeItems_eq_self.mpr (normalizeItems_idem hitems), pure, Except.pure]
  | .obj fields =>
      rw [normalizeJson] at h
      obtain ⟨normalFields, hfields, h⟩ := bind_eq_ok.mp h
      obtain rfl := pure_eq_ok.mp h
      exact normalizeJson_obj_eq_self (normalizeFields_idem hfields)

theorem normalizeItems_idem {items normal : List JsonValue}
    (h : normalizeItems items = .ok normal) : ∀ item ∈ normal, normalizeJson item = .ok item := by
  match items with
  | [] =>
      obtain rfl := Except.ok.inj h
      simp
  | item :: rest =>
      rw [normalizeItems] at h
      obtain ⟨normalItem, hitem, h⟩ := bind_eq_ok.mp h
      obtain ⟨normalRest, hrest, h⟩ := bind_eq_ok.mp h
      obtain rfl := pure_eq_ok.mp h
      exact List.forall_mem_cons.mpr ⟨normalizeJson_idem hitem, normalizeItems_idem hrest⟩

theorem normalizeFields_idem {fields normal : List (String × JsonValue)}
    (h : normalizeFields fields = .ok normal) : NormalFields normal := by
  match fields with
  | [] =>
      obtain rfl := Except.ok.inj h
      simp [NormalFields]
  | (name, value) :: rest =>
      rw [normalizeFields] at h
      obtain ⟨_, hname, h⟩ := bind_eq_ok.mp h
      obtain ⟨normalValue, hvalue, h⟩ := bind_eq_ok.mp h
      obtain ⟨normalRest, hrest, h⟩ := bind_eq_ok.mp h
      obtain rfl := pure_eq_ok.mp h
      exact List.forall_mem_cons.mpr
        ⟨⟨require_eq_ok.mp hname, normalizeJson_idem hvalue⟩, normalizeFields_idem hrest⟩

end

/-- An object of normal properties is normalized by sorting them, which changes none. -/
theorem normalizeJson_obj_of_normal {fields : List (String × JsonValue)} (h : NormalFields fields) :
    normalizeJson (.obj fields) = .ok (.obj (sortBy compareProperties fields)) := by
  simp [normalizeJson, normalizeFields_eq_self.mpr h, pure, Except.pure]

/-! ## Envelopes -/

/-- The immutable, generic record shape replicated between Peer Hours runtimes. -/
structure RecordEnvelope where
  id : String
  schema : String
  version : Int
  kind : String
  communityId : String
  occurredAt : String
  authorId : String
  payload : JsonValue
  present : ∀ text ∈ [id, schema, kind, communityId, authorId], Text.blank text = false
  positive : 1 ≤ version
  timestamp : Timestamp.isCanonical occurredAt = true
  normal : normalizeJson payload = .ok payload

/-- Ensures a schema version is a positive integer. -/
def assertPositiveInteger (value : Option JsonValue) (label : String) :
    Except String {version : Int // 1 ≤ version} :=
  match JsonValue.int? value with
  | some version =>
      if h : 1 ≤ version then .ok ⟨version, h⟩
      else .error (label ++ " must be a positive integer.")
  | none => .error (label ++ " must be a positive integer.")

/-- Normalizes the payload property of a record. -/
def normalizePayload (value : Option JsonValue) :
    Except String {payload : JsonValue // normalizeJson payload = .ok payload} :=
  match value with
  | some value =>
      match h : normalizeJson value with
      | .ok payload => .ok ⟨payload, normalizeJson_idem h⟩
      | .error message => .error message
  | none => .error "Record payload must contain only JSON-compatible values."

/-- Normalizes an immutable, community-scoped record suitable for unordered replicated delivery. -/
def createRecordEnvelope (input : JsonValue) : Except String RecordEnvelope := do
  require (input ≠ .null) "Cannot read properties of null (reading 'id')"
  let id ← assertPresent (input.field "id") "Record id"
  let schema ← assertPresent (input.field "schema") "Record schema"
  let version ← assertPositiveInteger (input.field "version") "Record version"
  let kind ← assertPresent (input.field "kind") "Record kind"
  let communityId ← assertPresent (input.field "communityId") "Community id"
  let occurredAt ← assertTimestamp "Record occurredAt timestamp" (input.field "occurredAt")
  let authorId ← assertPresent (input.field "authorId") "Author id"
  let payload ← normalizePayload (input.field "payload")
  pure
    { id := id
      schema := schema
      version := version
      kind := kind
      communityId := communityId
      occurredAt := occurredAt
      authorId := authorId
      payload := payload
      present := by simp [id.2, schema.2, kind.2, communityId.2, authorId.2]
      positive := version.2
      timestamp := TimebankIdentity.CanonicalTimestamp.canonical occurredAt
      normal := payload.2 }

/-- The properties of an envelope in the order that `createRecordEnvelope` assigns them. -/
def RecordEnvelope.properties (record : RecordEnvelope) : List (String × JsonValue) :=
  [("id", .str record.id), ("schema", .str record.schema), ("version", .int record.version),
    ("kind", .str record.kind), ("communityId", .str record.communityId),
    ("occurredAt", .str record.occurredAt), ("authorId", .str record.authorId),
    ("payload", record.payload)]

/-- The object of an envelope. -/
def RecordEnvelope.toJson (record : RecordEnvelope) : JsonValue :=
  .obj record.properties

/-- Produces stable JSON for comparing one envelope's complete immutable terms. Creating the envelope
again returns it unchanged (`createRecordEnvelope_toJson`). -/
def canonicalRecordEnvelope (record : RecordEnvelope) : String :=
  stringify record.toJson

/-- The object has the terms of the envelope. -/
structure DescribesRecord (input : JsonValue) (record : RecordEnvelope) : Prop where
  id : input.field "id" = some (.str record.id)
  schema : input.field "schema" = some (.str record.schema)
  version : input.field "version" = some (.int record.version)
  kind : input.field "kind" = some (.str record.kind)
  communityId : input.field "communityId" = some (.str record.communityId)
  occurredAt : input.field "occurredAt" = some (.str record.occurredAt)
  authorId : input.field "authorId" = some (.str record.authorId)
  payload : ∃ payload, input.field "payload" = some payload ∧
    normalizeJson payload = .ok record.payload

theorem assertPositiveInteger_eq_ok {value : Option JsonValue} {label : String}
    {version : {version : Int // 1 ≤ version}} :
    assertPositiveInteger value label = .ok version ↔ value = some (.int version) := by
  obtain ⟨version, hversion⟩ := version
  rw [← JsonValue.int?_eq_some]
  unfold assertPositiveInteger
  split
  · rename_i found hfound
    rw [hfound, Option.some.injEq]
    split
    · simp
    · rename_i hnot
      simp only [reduceCtorEq, false_iff]
      rintro rfl
      exact hnot hversion
  · rename_i hnone
    simp [hnone]

theorem normalizePayload_eq_ok {value : Option JsonValue}
    {payload : {payload : JsonValue // normalizeJson payload = .ok payload}} :
    normalizePayload value = .ok payload ↔
      ∃ source, value = some source ∧ normalizeJson source = .ok payload := by
  obtain ⟨payload, hpayload⟩ := payload
  cases value with
  | none => simp [normalizePayload]
  | some source =>
      simp only [normalizePayload, Option.some.injEq, exists_eq_left']
      split
      · rename_i found hfound
        simp [hfound]
      · rename_i message hmessage
        simp [hmessage]

/-- Envelopes are created exactly from the objects that describe them. -/
theorem createRecordEnvelope_eq_ok {input : JsonValue} {record : RecordEnvelope} :
    createRecordEnvelope input = .ok record ↔ DescribesRecord input record := by
  simp only [createRecordEnvelope, bind_eq_ok, require_eq_ok, exists_const, assertPresent_eq_ok,
    assertPositiveInteger_eq_ok, assertTimestamp_eq_ok, normalizePayload_eq_ok, pure_eq_ok]
  constructor
  · rintro ⟨-, id, hid, schema, hschema, version, hversion, kind, hkind, community, hcommunity,
      occurredAt, hoccurredAt, author, hauthor, payload, hpayload, rfl⟩
    exact ⟨hid, hschema, hversion, hkind, hcommunity, hoccurredAt, hauthor, hpayload⟩
  · intro h
    have hpresent := record.present
    simp only [List.forall_mem_cons] at hpresent
    obtain ⟨hid, hschema, hkind, hcommunity, hauthor, -⟩ := hpresent
    refine ⟨?_, ⟨record.id, hid⟩, h.id, ⟨record.schema, hschema⟩, h.schema,
      ⟨record.version, record.positive⟩, h.version, ⟨record.kind, hkind⟩, h.kind,
      ⟨record.communityId, hcommunity⟩, h.communityId, ⟨record.occurredAt, record.timestamp⟩,
      h.occurredAt, ⟨record.authorId, hauthor⟩, h.authorId, ⟨record.payload, record.normal⟩,
      h.payload, rfl⟩
    rintro rfl
    have hid := h.id
    cases hid

theorem describesRecord_properties (record : RecordEnvelope) (rest : List (String × JsonValue)) :
    DescribesRecord (.obj (record.properties ++ rest)) record :=
  ⟨rfl, rfl, rfl, rfl, rfl, rfl, rfl, record.payload, rfl, record.normal⟩

/-- An envelope is created again from its own object. -/
@[simp] theorem createRecordEnvelope_toJson (record : RecordEnvelope) :
    createRecordEnvelope record.toJson = .ok record := by
  have h := describesRecord_properties record []
  rw [List.append_nil] at h
  exact createRecordEnvelope_eq_ok.mpr h

/-- The canonical text of an envelope determines it. -/
theorem canonicalRecordEnvelope_inj {left right : RecordEnvelope}
    (h : canonicalRecordEnvelope left = canonicalRecordEnvelope right) : left = right := by
  have hjson := stringify_inj.mp h
  have hleft := createRecordEnvelope_toJson left
  rw [hjson, createRecordEnvelope_toJson right] at hleft
  exact (Except.ok.inj hleft).symm

/-- The order of records in a reduced history. -/
def compareRecords (localeCompare : String → String → Ordering) :
    RecordEnvelope → RecordEnvelope → Ordering :=
  compareLex (on localeCompare (·.occurredAt)) (on localeCompare (·.id))

instance (localeCompare : String → String → Ordering) [Std.TransCmp localeCompare] :
    Std.TransCmp (compareRecords localeCompare) :=
  inferInstanceAs (Std.TransCmp (compareLex _ _))

/-- Deduplicates and orders unordered record delivery for deterministic replica-local processing. -/
def reduceRecordEnvelopes (localeCompare : String → String → Ordering)
    (records : List JsonValue) : Except String (List RecordEnvelope) := do
  let recordsById ← collect (·.id) canonicalRecordEnvelope
    "Conflicting record envelopes share the same record id." createRecordEnvelope records
  pure (sortBy (compareRecords localeCompare) recordsById)

theorem determines_records :
    Determines RecordEnvelope.id canonicalRecordEnvelope createRecordEnvelope :=
  determines_of_injective fun _ _ ↦ canonicalRecordEnvelope_inj

/-- The history contains the envelope. -/
def Contains (records : List JsonValue) (record : RecordEnvelope) : Prop :=
  ∃ source ∈ records, createRecordEnvelope source = .ok record

@[simp] theorem contains_nil {record : RecordEnvelope} : ¬ Contains [] record := by
  simp [Contains]

theorem contains_cons {source : JsonValue} {records : List JsonValue} {record : RecordEnvelope} :
    Contains (source :: records) record ↔
      createRecordEnvelope source = .ok record ∨ Contains records record := by
  simp [Contains]

theorem contains_append {first second : List JsonValue} {record : RecordEnvelope} :
    Contains (first ++ second) record ↔ Contains first record ∨ Contains second record := by
  simp only [Contains, List.mem_append, or_and_right, exists_or]

/-- Every record is well formed and an id names one envelope. -/
structure Consistent (records : List JsonValue) : Prop where
  wellFormed : ∀ source ∈ records, Succeeds (createRecordEnvelope source)
  unique : ∀ left right, Contains records left → Contains records right → left.id = right.id →
    left = right

/-- A history stays consistent with one more envelope under a new id. -/
theorem Consistent.insert {first second : List JsonValue} (h : Consistent (first ++ second))
    {source : JsonValue} {record : RecordEnvelope}
    (hcreate : createRecordEnvelope source = .ok record)
    (hfresh : ∀ other, Contains (first ++ second) other → other.id ≠ record.id) :
    Consistent (first ++ source :: second) := by
  have hcontains : ∀ {other : RecordEnvelope}, Contains (first ++ source :: second) other →
      Contains (first ++ second) other ∨ other = record := by
    intro other hother
    rw [contains_append, contains_cons, hcreate, Except.ok.injEq] at hother
    rw [contains_append]
    tauto
  constructor
  · intro other hother
    cases List.mem_append.mp hother with
    | inl hfirst => exact h.wellFormed other (List.mem_append_left _ hfirst)
    | inr hrest =>
        cases List.mem_cons.mp hrest with
        | inl hsame => exact ⟨record, hsame ▸ hcreate⟩
        | inr hsecond => exact h.wellFormed other (List.mem_append_right _ hsecond)
  · intro left right hleft hright hid
    rcases hcontains hleft with hleft | rfl <;> rcases hcontains hright with hright | rfl
    · exact h.unique left right hleft hright hid
    · exact absurd hid (hfresh left hleft)
    · exact absurd hid.symm (hfresh right hright)
    · rfl

theorem Consistent.concat {records : List JsonValue} (h : Consistent records) {source : JsonValue}
    {record : RecordEnvelope} (hcreate : createRecordEnvelope source = .ok record)
    (hfresh : ∀ other, Contains records other → other.id ≠ record.id) :
    Consistent (records ++ [source]) := by
  have hrecords : records ++ [] = records := List.append_nil _
  exact Consistent.insert (hrecords.symm ▸ h) hcreate (hrecords.symm ▸ hfresh)

/-- Reduction succeeds exactly for consistent histories, and keeps their envelopes. -/
theorem reduceRecordEnvelopes_spec (localeCompare : String → String → Ordering)
    (records : List JsonValue) :
    (Succeeds (reduceRecordEnvelopes localeCompare records) ↔ Consistent records) ∧
    ∀ result, reduceRecordEnvelopes localeCompare records = .ok result →
      (result.map (·.id)).Nodup ∧ ∀ record, record ∈ result ↔ Contains records record := by
  constructor
  · have hcollect := @succeeds_collect _ _ _ _ _ _ _ _
      "Conflicting record envelopes share the same record id." _ determines_records records
    have hmap : Succeeds (reduceRecordEnvelopes localeCompare records) ↔
        Succeeds (collect (·.id) canonicalRecordEnvelope
          "Conflicting record envelopes share the same record id." createRecordEnvelope records) := by
      simp only [Succeeds, reduceRecordEnvelopes, bind_eq_ok, pure_eq_ok]
      constructor
      · rintro ⟨_, byId, hbyId, -⟩
        exact ⟨byId, hbyId⟩
      · rintro ⟨byId, hbyId⟩
        exact ⟨_, byId, hbyId, rfl⟩
    rw [hmap, hcollect]
    constructor
    · rintro ⟨hread, hpairs⟩
      refine ⟨hread, ?_⟩
      rintro left right ⟨source, hsource, hleft⟩ ⟨other, hother, hright⟩ hid
      exact hpairs other hother right hright source hsource left hleft hid
    · rintro ⟨hread, hunique⟩
      refine ⟨hread, ?_⟩
      intro source hsource value hvalue other hother otherValue hotherValue hid
      exact hunique _ _ ⟨other, hother, hotherValue⟩ ⟨source, hsource, hvalue⟩ hid
  · intro result hresult
    obtain ⟨byId, hbyId, hresult⟩ := bind_eq_ok.mp hresult
    obtain rfl := pure_eq_ok.mp hresult
    refine ⟨(nodup_map_sortBy _).mpr (nodup_collect determines_records hbyId), fun record ↦ ?_⟩
    rw [mem_sortBy, mem_collect determines_records hbyId]
    rfl

end PeerHours.TimebankRecords

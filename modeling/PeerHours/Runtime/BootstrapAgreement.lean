import PeerHours.Runtime.Manifest
import PeerHours.Runtime.SampleHost

/-!
# Agreement of bootstrap service and peers

Every manifest that the service builds has each of its fields in normal form. The peer accepts such a
manifest as it is, except for two limits that it checks on the normal form and the service does not.
-/

namespace PeerHours.PeerRuntime

open Checked Json

variable {crypto : ReceiptCrypto} {urls : UrlParser}

/-! ## Manifests in normal form -/

variable (crypto urls) in
/-- A manifest whose fields are all in normal form. -/
structure CommunityManifest.Normal (manifest : CommunityManifest) : Prop where
  communityId : Text.blank manifest.communityId = false
  displayName : Text.blank manifest.displayName = false
  protocolVersion : manifest.protocolVersion = 1
  role : manifest.role = "bootstrap"
  capabilities : manifest.capabilities = ["discovery-metadata"]
  coreKey : Hex.isKey manifest.coreKey = true
  coreKey_lower : manifest.coreKey.toLower = manifest.coreKey
  bootstrapNodes : ∀ href ∈ manifest.bootstrapNodes, urls.Normalizes href href
  bootstrapNodes_nodup : manifest.bootstrapNodes.Nodup
  bootstrapNodes_length : manifest.bootstrapNodes.length ≤ maxBootstrapNodes
  communityNodeUrl : ∀ href ∈ manifest.communityNodeUrl, urls.Normalizes href href
  receiptNodes : ∀ node ∈ manifest.receiptNodes, PinnedNode crypto urls node
  nodeIds_nodup : (manifest.receiptNodes.map (·.nodeId)).Nodup
  receiptUrls_nodup : (manifest.receiptNodes.map (·.receiptUrl)).Nodup

/-- The limits that a peer checks on the normal form. -/
structure CommunityManifest.Bounded (manifest : CommunityManifest) : Prop where
  bootstrapNodes : ∀ href ∈ manifest.bootstrapNodes,
    (Text.utf16 href).length ≤ maxEndpointUrlLength
  communityNodeUrl : ∀ href ∈ manifest.communityNodeUrl,
    (Text.utf16 href).length ≤ maxEndpointUrlLength
  receiptNodes : manifest.receiptNodes.length ≤ maxBootstrapNodes

theorem validOperationalUrl_eq_ok {text label href : String} :
    validOperationalUrl urls (.str text) label = .ok href ↔
      boundedEndpoint text = true ∧ urls.Normalizes text href := by
  simp only [validOperationalUrl, UrlParser.Normalizes, bind_eq_ok, present_eq_ok, require_eq_ok,
    pure_eq_ok, JsonValue.text?_str, Option.some.injEq]
  constructor
  · rintro ⟨_, rfl, -, hbounded, url, hparse, -, hpublic, hhref⟩
    exact ⟨hbounded, url, hparse, hpublic, hhref⟩
  · rintro ⟨hbounded, url, hparse, hpublic, hhref⟩
    exact ⟨text, rfl, ⟨⟩, hbounded, url, hparse, ⟨⟩, hpublic, hhref⟩

/-- An address in normal form is accepted as it is exactly when it is short enough. -/
theorem validOperationalUrl_normal {href : String} (h : urls.Normalizes href href) (label : String) :
    validOperationalUrl urls (.str href) label = .ok href ↔
      (Text.utf16 href).length ≤ maxEndpointUrlLength := by
  rw [validOperationalUrl_eq_ok, boundedEndpoint, Bool.and_eq_true, decide_eq_true_eq, bne_iff_ne]
  exact ⟨fun hbounded ↦ hbounded.1.2, fun hlength ↦ ⟨⟨h.ne, hlength⟩, h⟩⟩

/-- Bootstrap addresses in normal form are accepted as they are exactly when each is short enough. -/
theorem validBootstrapNodes_normal {hrefs : List String}
    (hnormal : ∀ href ∈ hrefs, urls.Normalizes href href) (hnodup : hrefs.Nodup)
    (hlength : hrefs.length ≤ maxBootstrapNodes) :
    validBootstrapNodes urls (some (.arr (hrefs.map .str))) = .ok hrefs ↔
      ∀ href ∈ hrefs, (Text.utf16 href).length ≤ maxEndpointUrlLength := by
  have hitems : mapIndexed (fun index node ↦ validOperationalUrl urls node
      ("Bootstrap metadata bootstrapNodes[" ++ toString index ++ "]")) (hrefs.map .str) = .ok hrefs ↔
        ∀ href ∈ hrefs, (Text.utf16 href).length ≤ maxEndpointUrlLength :=
    mapIndexed_map_eq_ok fun href hhref _ ↦ validOperationalUrl_normal (hnormal href hhref) _
  rw [← hitems]
  simp only [validBootstrapNodes, arrayItems?, bind_eq_ok, present_eq_ok, require_eq_ok, pure_eq_ok,
    Option.some.injEq]
  constructor
  · rintro ⟨_, rfl, -, -, _, hmap, -, -, rfl⟩
    exact hmap
  · intro hmap
    exact ⟨_, rfl, ⟨⟩, by simpa using hlength, hrefs, hmap, ⟨⟩, hnodup, rfl⟩

/-- The diagnostics address in normal form is accepted as it is exactly when it is short enough. -/
theorem optionalCommunityNodeUrl_normal {href? : Option String}
    (hnormal : ∀ href ∈ href?, urls.Normalizes href href) :
    optionalCommunityNodeUrl urls (some ((href?.map .str).getD .null)) = .ok href? ↔
      ∀ href ∈ href?, (Text.utf16 href).length ≤ maxEndpointUrlLength := by
  cases href? with
  | none => simp [optionalCommunityNodeUrl]
  | some href =>
      simp only [Option.mem_some_iff, forall_eq'] at hnormal ⊢
      rw [← validOperationalUrl_normal hnormal "Bootstrap metadata field communityNodeUrl"]
      show (validOperationalUrl urls (.str href) _ >>= fun url ↦ pure (some url)) = _ ↔ _
      simp only [bind_eq_ok, pure_eq_ok, Option.some.injEq, exists_eq_right]

/-- Receipt nodes in normal form are accepted as they are exactly when they are few enough. -/
theorem validReceiptNodes_normal {nodes : List CommunityReceiptNode}
    (hnormal : ∀ node ∈ nodes, PinnedNode crypto urls node)
    (hids : (nodes.map (·.nodeId)).Nodup) (haddresses : (nodes.map (·.receiptUrl)).Nodup) :
    validReceiptNodes crypto urls (some (.arr (nodes.map (·.toJson)))) = .ok nodes ↔
      nodes.length ≤ maxBootstrapNodes := by
  have hmap : mapIndexed (fun index node ↦ normalizeCommunityReceiptNode crypto urls node
      ("Bootstrap metadata receiptNodes[" ++ toString index ++ "]")) (nodes.map (·.toJson)) =
        .ok nodes :=
    (mapIndexed_map_eq_ok fun node hnode _ ↦ iff_of_true ((hnormal node hnode).normalize _) hnode).mpr
      fun _ hnode ↦ hnode
  show (present (arrayItems? _) _ >>= fun items ↦ _) = _ ↔ _
  simp only [arrayItems?, assertDistinctReceiptNodes, bind_eq_ok, present_eq_ok, require_eq_ok,
    pure_eq_ok, Option.some.injEq]
  constructor
  · rintro ⟨_, rfl, -, hlength, -⟩
    simpa using hlength
  · intro hlength
    exact ⟨_, rfl, ⟨⟩, by simpa using hlength, nodes, hmap, ⟨⟩, ⟨⟨⟩, hids, haddresses⟩, rfl⟩

/-- A peer accepts a manifest in normal form as it is exactly when it is within the limits. -/
theorem CommunityManifest.Normal.parse_toJson {manifest : CommunityManifest}
    (h : manifest.Normal crypto urls) :
    parseCommunityManifest crypto urls manifest.toJson = .ok manifest ↔ manifest.Bounded := by
  have hnodes := validBootstrapNodes_normal h.bootstrapNodes h.bootstrapNodes_nodup
    h.bootstrapNodes_length
  have hurl := optionalCommunityNodeUrl_normal h.communityNodeUrl
  have hreceipts := validReceiptNodes_normal h.receiptNodes h.nodeIds_nodup h.receiptUrls_nodup
  have hblank := Text.blank_of_trim (Hex.trim_of_isKey h.coreKey) (Hex.ne_of_isKey h.coreKey)
  rw [parseCommunityManifest_eq_ok]
  constructor
  · intro hparsed
    exact ⟨hnodes.mp hparsed.bootstrapNodes, hurl.mp hparsed.communityNodeUrl,
      hreceipts.mp hparsed.receiptNodes⟩
  · intro hbounded
    exact
      { isObject := rfl
        communityId := ⟨rfl, h.communityId⟩
        displayName := ⟨rfl, h.displayName⟩
        protocolVersion := ⟨congrArg (fun version ↦ some (JsonValue.int version)) h.protocolVersion,
          h.protocolVersion⟩
        role := ⟨congrArg (fun role ↦ some (JsonValue.str role)) h.role, h.role⟩
        capabilities := ⟨congrArg
          (fun names : List String ↦ some (JsonValue.arr (names.map .str))) h.capabilities,
          h.capabilities⟩
        coreKey := ⟨manifest.coreKey, ⟨rfl, hblank⟩, h.coreKey, h.coreKey_lower⟩
        bootstrapNodes := hnodes.mpr hbounded.bootstrapNodes
        communityNodeUrl := hurl.mpr hbounded.communityNodeUrl
        receiptNodes := hreceipts.mpr hbounded.receiptNodes }

/-! ## What the service builds -/

theorem validBootstrapUrl_eq_ok {value href : String} {index : Nat} :
    validBootstrapUrl urls value index = .ok href ↔
      boundedEndpoint value = true ∧ urls.Normalizes value href := by
  simp only [validBootstrapUrl, UrlParser.Normalizes, bind_eq_ok, present_eq_ok, require_eq_ok,
    pure_eq_ok, exists_const]

/-- A configured receipt node is pinned in normal form. -/
theorem pinnedNode_of_validReceiptNode {value node : CommunityReceiptNode} {index : Nat}
    (h : validReceiptNode crypto urls value index = .ok node) : PinnedNode crypto urls node := by
  simp only [validReceiptNode, bind_eq_ok, require_eq_ok, present_eq_ok, pure_eq_ok, exists_const,
    validBootstrapUrl_eq_ok] at h
  obtain ⟨-, key, -, -, receiptUrl, ⟨-, url, hparse, hpublic, rfl⟩, same, hsame, hpath, rfl⟩ := h
  cases (urls.parse_href hparse).symm.trans hsame
  exact ⟨⟨key, rfl, rfl⟩, url, hsame, hpublic, rfl, hpath⟩

/-- The addresses of the configuration that are published as bootstrap nodes and for diagnostics. -/
def BootstrapConfiguration.addresses (input : BootstrapConfiguration) : List String :=
  input.bootstrapNodes ++ input.communityNodeUrl.toList

/-- The addresses of the manifest that are published as bootstrap nodes and for diagnostics. -/
def CommunityManifest.addresses (manifest : CommunityManifest) : List String :=
  manifest.bootstrapNodes ++ manifest.communityNodeUrl.toList

/-- A node that is pinned already is configured as it is. -/
theorem PinnedNode.validReceiptNode {node : CommunityReceiptNode} (h : PinnedNode crypto urls node)
    (hbounded : boundedEndpoint node.receiptUrl = true) (index : Nat) :
    validReceiptNode crypto urls node index = .ok node := by
  obtain ⟨⟨key, hnode, hkey⟩, url, hparse, hpublic, hhref, hpath⟩ := h
  obtain ⟨nodeId, publicKey, receiptUrl⟩ := node
  subst hnode hkey
  have hdecode : validReceiptPublicKey crypto key.publicKey index = .ok key := by
    simp only [validReceiptPublicKey, bind_eq_ok, require_eq_ok, exists_const, mapError_eq_ok]
    exact ⟨⟨Base64Url.inAlphabet_encode _, key.bounded⟩, decodePublicKey_publicKey key⟩
  simp only [PeerRuntime.validReceiptNode, bind_eq_ok, require_eq_ok, present_eq_ok, pure_eq_ok,
    exists_const, validBootstrapUrl_eq_ok]
  exact ⟨key.isKey_nodeId, key, hdecode, key.toLower_nodeId.symm, receiptUrl,
    ⟨hbounded, url, hparse, hpublic, hhref⟩, url, hparse, hpath, rfl⟩

variable (crypto urls) in
/-- The manifest is the normal form of the configuration. -/
structure CommunityManifest.BuiltFrom (manifest : CommunityManifest) (input : BootstrapConfiguration) :
    Prop where
  normal : manifest.Normal crypto urls
  addresses : List.Forall₂ urls.Normalizes input.addresses manifest.addresses
  receiptNodes : input.receiptNodes.length = manifest.receiptNodes.length

/-- The optional diagnostics address is normalized like the others. -/
theorem forall₂_of_mapM {href? : Option String} {normal? : Option String}
    (h : href?.mapM (validBootstrapUrl urls · 0) = .ok normal?) :
    List.Forall₂ urls.Normalizes href?.toList normal?.toList := by
  cases href? with
  | none =>
      cases h
      exact .nil
  | some href =>
      obtain ⟨normal, hnormal, rfl⟩ := map_eq_ok.mp h
      exact .cons (validBootstrapUrl_eq_ok.mp hnormal).2 .nil

/-- What the service builds is the normal form of its configuration. -/
theorem createBootstrapManifest_builtFrom {input : BootstrapConfiguration}
    {manifest : CommunityManifest} (h : createBootstrapManifest crypto urls input = .ok manifest) :
    manifest.BuiltFrom crypto urls input := by
  simp only [createBootstrapManifest, configuredText, assertDistinctReceiptNodes, bind_eq_ok,
    require_eq_ok, pure_eq_ok, exists_const] at h
  obtain ⟨_, ⟨hid, rfl⟩, _, ⟨hname, rfl⟩, hkey, hcount, bootstrapNodes, hnodes, hnodup,
    communityNodeUrl, hurl, receiptNodes, hreceipts, ⟨hids, haddresses⟩, rfl⟩ := h
  have hbuilt : List.Forall₂ urls.Normalizes input.bootstrapNodes bootstrapNodes := by
    refine (forall₂_of_mapIndexed hnodes).imp fun text href hhref ↦ ?_
    obtain ⟨index, hvalid⟩ := hhref
    exact (validBootstrapUrl_eq_ok.mp hvalid).2
  have hdiagnostics := forall₂_of_mapM hurl
  have hpinned := forall₂_of_mapIndexed hreceipts
  refine ⟨?_, List.rel_append hbuilt hdiagnostics, hpinned.length_eq⟩
  exact
    { communityId := hid
      displayName := hname
      protocolVersion := rfl
      role := rfl
      capabilities := rfl
      coreKey := hkey
      coreKey_lower := Hex.toLower_toLower (Hex.isKey_of_toLower hkey)
      bootstrapNodes := forall_right_of_forall₂ hbuilt fun _ _ h ↦ h.href
      bootstrapNodes_nodup := hnodup
      bootstrapNodes_length := hbuilt.length_eq ▸ hcount
      communityNodeUrl := fun href hhref ↦
        forall_right_of_forall₂ hdiagnostics (fun _ _ h ↦ h.href) href (Option.mem_toList.mpr hhref)
      receiptNodes := forall_right_of_forall₂ hpinned fun _ _ hvalid ↦ by
        obtain ⟨_, h⟩ := hvalid
        exact pinnedNode_of_validReceiptNode h
      nodeIds_nodup := hids
      receiptUrls_nodup := haddresses }

variable (urls) in
/-- Every normal form of the address is within the limit that peers check. -/
def FitsNormalized (text : String) : Prop :=
  ∀ url, urls.parse text = some url → (Text.utf16 url.href).length ≤ maxEndpointUrlLength

theorem fitsNormalized_iff {text href : String} (h : urls.Normalizes text href) :
    FitsNormalized urls text ↔ (Text.utf16 href).length ≤ maxEndpointUrlLength := by
  obtain ⟨url, hparse, -, rfl⟩ := h
  refine ⟨fun hfits ↦ hfits url hparse, fun hlength other hother ↦ ?_⟩
  cases hparse.symm.trans hother
  exact hlength

/-- A peer reads the manifest that the service built back from its JSON exactly when the configuration
has at most sixteen receipt nodes and its published addresses stay short in their normal form. -/
theorem parse_createBootstrapManifest_iff {input : BootstrapConfiguration}
    {manifest : CommunityManifest} (h : createBootstrapManifest crypto urls input = .ok manifest) :
    parseCommunityManifest crypto urls manifest.toJson = .ok manifest ↔
      input.receiptNodes.length ≤ maxBootstrapNodes ∧
        ∀ text ∈ input.addresses, FitsNormalized urls text := by
  have hbuilt := createBootstrapManifest_builtFrom h
  have haddresses := forall_iff_of_forall₂ hbuilt.addresses fun _ _ h ↦ fitsNormalized_iff h
  rw [hbuilt.normal.parse_toJson, haddresses, hbuilt.receiptNodes]
  constructor
  · intro hbounded
    refine ⟨hbounded.receiptNodes, fun href hhref ↦ ?_⟩
    cases List.mem_append.mp hhref with
    | inl hnode => exact hbounded.bootstrapNodes href hnode
    | inr hurl => exact hbounded.communityNodeUrl href (Option.mem_toList.mp hurl)
  · intro ⟨hcount, hshort⟩
    exact ⟨fun href hnode ↦ hshort href (List.mem_append_left _ hnode),
      fun href hurl ↦ hshort href (List.mem_append_right _ (Option.mem_toList.mpr hurl)), hcount⟩

/-! ## A sample deployment -/

/-- A deployment with one bootstrap address and one receipt node. -/
def sampleConfiguration (path : List Char) : BootstrapConfiguration where
  communityId := "garden"
  displayName := "Garden"
  coreKey := Hex.encode (List.replicate 32 0)
  bootstrapNodes := [String.ofList (sampleOrigin ++ path)]
  communityNodeUrl := none
  receiptNodes := [sampleNode 0]

/-- Its manifest. -/
def sampleManifest (path : List Char) : CommunityManifest where
  communityId := "garden"
  displayName := "Garden"
  protocolVersion := 1
  role := "bootstrap"
  capabilities := ["discovery-metadata"]
  coreKey := Hex.encode (List.replicate 32 0)
  bootstrapNodes := [(sampleAddress (path.flatMap escapeChar)).href]
  communityNodeUrl := none
  receiptNodes := [sampleNode 0]

theorem length_utf16 (characters : List Char) :
    characters.length ≤ (Text.utf16 (String.ofList characters)).length ∧
      (Text.utf16 (String.ofList characters)).length ≤ 2 * characters.length := by
  rw [Text.utf16, String.toList_ofList]
  induction characters with
  | nil => simp
  | cons c rest ih =>
      have hc := Text.length_charUnits c
      rw [List.flatMap_cons, List.length_append, List.length_cons]
      omega

/-- A text of up to a thousand characters, but not none, is within the limit of an endpoint. -/
theorem boundedEndpoint_ofList {characters : List Char} (hne : characters ≠ [])
    (hlength : characters.length ≤ 1024) : boundedEndpoint (String.ofList characters) = true := by
  have hunits := length_utf16 characters
  refine Bool.and_eq_true_iff.mpr ⟨bne_iff_ne.mpr fun hempty ↦ hne ?_, decide_eq_true ?_⟩
  · rw [← String.toList_inj, String.toList_ofList] at hempty
    exact hempty
  · unfold maxEndpointUrlLength
    omega

/-- The service accepts every short path. -/
theorem createBootstrapManifest_sample {path : List Char}
    (hpath : ∀ c ∈ path, (inPath c || decide (0x80 ≤ c.toNat)) = true) (hlength : path.length ≤ 1000) :
    createBootstrapManifest sampleCrypto sampleUrls (sampleConfiguration path) =
      .ok (sampleManifest path) := by
  have hne (rest : List Char) : sampleOrigin ++ rest ≠ [] := fun hnil ↦
    absurd (List.append_eq_nil_iff.mp hnil).1 (by decide)
  have hurl : validBootstrapUrl sampleUrls (String.ofList (sampleOrigin ++ path)) 0 =
      .ok (sampleAddress (path.flatMap escapeChar)).href :=
    validBootstrapUrl_eq_ok.mpr ⟨boundedEndpoint_ofList (hne path)
      (by rw [List.length_append, show sampleOrigin.length = 20 from rfl]; omega),
      _, sampleUrls_parse hpath, rfl, rfl⟩
  have hnode : validReceiptNode sampleCrypto sampleUrls (sampleNode 0) 0 = .ok (sampleNode 0) :=
    (pinnedNode_sampleNode 0).validReceiptNode (boundedEndpoint_ofList (hne receiptsPath) (by decide)) 0
  have hnodes : mapIndexed (fun index url ↦ validBootstrapUrl sampleUrls url index)
      (sampleConfiguration path).bootstrapNodes = .ok (sampleManifest path).bootstrapNodes := by
    show (validBootstrapUrl sampleUrls _ 0 >>= fun _ ↦ _) = _
    rw [hurl]
    rfl
  have hreceipts : mapIndexed (fun index node ↦ validReceiptNode sampleCrypto sampleUrls node index)
      (sampleConfiguration path).receiptNodes = .ok (sampleManifest path).receiptNodes := by
    show (validReceiptNode sampleCrypto sampleUrls _ 0 >>= fun _ ↦ _) = _
    rw [hnode]
    rfl
  have hlower : (sampleConfiguration path).coreKey.toLower = (sampleManifest path).coreKey :=
    Hex.toLower_encode _
  have hkey : Hex.isKey (sampleManifest path).coreKey = true := Hex.isKey_encode rfl
  have hgarden : Text.blank "garden" = false ∧ Text.blank "Garden" = false := by decide
  simp only [createBootstrapManifest, configuredText, assertDistinctReceiptNodes, bind_eq_ok,
    require_eq_ok, pure_eq_ok, exists_const]
  exact ⟨_, ⟨hgarden.1, rfl⟩, _, ⟨hgarden.2, rfl⟩, hlower ▸ hkey, by simp [sampleConfiguration,
    maxBootstrapNodes], _, hnodes, List.nodup_singleton _, none, rfl, _, hreceipts,
    ⟨List.nodup_singleton _, List.nodup_singleton _⟩, by rw [hlower]; rfl⟩

/-- The receipts path stays short in its normal form. -/
theorem length_receiptsPath : (Text.utf16 (sampleAddress (receiptsPath.flatMap escapeChar)).href).length ≤
    maxEndpointUrlLength :=
  Nat.le_trans (length_utf16 _).2 (by decide)

/-- The manifest of the receipts path is within the limits of peers. -/
theorem bounded_sampleManifest : (sampleManifest receiptsPath).Bounded where
  bootstrapNodes := fun _ hhref ↦ List.mem_singleton.mp hhref ▸ length_receiptsPath
  communityNodeUrl := fun _ hhref ↦ absurd hhref (by simp [sampleManifest])
  receiptNodes := by decide

theorem normal_sampleManifest : (sampleManifest receiptsPath).Normal sampleCrypto sampleUrls := by
  have hpath : ∀ c ∈ receiptsPath, (inPath c || decide (0x80 ≤ c.toNat)) = true :=
    List.all_eq_true.mp rfl
  exact (createBootstrapManifest_builtFrom (createBootstrapManifest_sample hpath (by decide))).normal

/-- Peers read the manifest of the receipts path back. -/
theorem parse_sampleManifest :
    parseCommunityManifest sampleCrypto sampleUrls (sampleManifest receiptsPath).toJson =
      .ok (sampleManifest receiptsPath) := by
  have hpath : ∀ c ∈ receiptsPath, (inPath c || decide (0x80 ≤ c.toNat)) = true :=
    List.all_eq_true.mp rfl
  refine (parse_createBootstrapManifest_iff
    (createBootstrapManifest_sample hpath (by decide))).mpr ⟨by decide, ?_⟩
  intro text htext
  obtain rfl : text = String.ofList (sampleOrigin ++ receiptsPath) := List.mem_singleton.mp htext
  exact (fitsNormalized_iff ⟨_, sampleUrls_parse hpath, rfl, rfl⟩).mpr length_receiptsPath

/-- Seven hundred accented letters take 4200 characters in their normal form: the service accepts the
address and every peer refuses the manifest. -/
theorem accented_manifest_refused :
    createBootstrapManifest sampleCrypto sampleUrls
        (sampleConfiguration (List.replicate 700 'é')) =
      .ok (sampleManifest (List.replicate 700 'é')) ∧
    ∀ manifest, parseCommunityManifest sampleCrypto sampleUrls
        (sampleManifest (List.replicate 700 'é')).toJson ≠ .ok manifest := by
  have hpath : ∀ c ∈ List.replicate 700 'é', (inPath c || decide (0x80 ≤ c.toNat)) = true := by
    intro c hc
    rw [List.eq_of_mem_replicate hc]
    decide
  refine ⟨createBootstrapManifest_sample hpath (by rw [List.length_replicate]; omega), ?_⟩
  intro manifest h
  have hnodes := (parseCommunityManifest_eq_ok.mp h).bootstrapNodes
  change validBootstrapNodes sampleUrls (some (.arr [.str _])) = _ at hnodes
  simp only [validBootstrapNodes, arrayItems?, bind_eq_ok, present_eq_ok, require_eq_ok, pure_eq_ok,
    exists_const, Option.some.injEq] at hnodes
  obtain ⟨_, rfl, -, nodes, hmap, -⟩ := hnodes
  cases forall₂_of_mapIndexed hmap with
  | cons hhead _ =>
      obtain ⟨index, hurl⟩ := hhead
      have hbounded := (Bool.and_eq_true_iff.mp (validOperationalUrl_eq_ok.mp hurl).1).2
      have hescape : (escapeChar 'é').length = 6 := by decide
      have hlong := (length_utf16 (sampleOrigin ++ (List.replicate 700 'é').flatMap escapeChar)).1
      rw [List.length_append, List.length_flatMap, List.map_replicate, List.sum_replicate_nat,
        hescape] at hlong
      have hlimit := Nat.le_trans hlong (of_decide_eq_true hbounded)
      exact absurd hlimit (by decide)

end PeerHours.PeerRuntime

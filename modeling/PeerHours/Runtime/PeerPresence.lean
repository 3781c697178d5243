import PeerHours.Crypto
import PeerHours.Library.EventRun
import PeerHours.Library.Hex
import PeerHours.Library.KeyedMap

/-!
# Peer presence

A runtime keeps one entry for each remote key. Opening and closing a connection write it, a queued microtask marks
it connected, and reading the status derives its state from when it was last seen. Nothing that happens on an open
connection counts as seeing the peer, and one closing connection marks the peer offline while another is open.
-/

namespace PeerHours.PeerRuntime

open KeyedMap

/-! ## Peers -/

/-- Lifecycle labels used for transport and diagnostics observations. -/
inductive PeerLifecycleState where
  | discovered
  | connecting
  | connected
  | stale
  | offline
deriving DecidableEq

/-- Where an observation of a peer comes from. -/
inductive PeerSource where
  | hyperswarm
  | simulated
deriving DecidableEq

/-- A current peer observation, with its timestamps in milliseconds. -/
structure PeerStatus where
  id : String
  connectedAt : Int
  lastSeenAt : Int
  lifecycleState : PeerLifecycleState
  source : Option PeerSource
deriving DecidableEq

/-- The observation of a peer in a new state. -/
def PeerStatus.seen (peer : PeerStatus) (lifecycleState : PeerLifecycleState) (now : Int) : PeerStatus :=
  { peer with lifecycleState := lifecycleState, lastSeenAt := now }

/-- After how long a quiet peer is stale. -/
def staleAfterMs : Int := 10000

/-- After how long a quiet peer is offline. -/
def offlineRetentionMs : Int := 30000

/-- Derives the user-visible lifecycle state from peer freshness and connection state. -/
def derivePeerLifecycleState (peer : PeerStatus) (now staleAfterMs offlineAfterMs : Int) :
    PeerLifecycleState :=
  if peer.lifecycleState = .offline then .offline
  else if offlineAfterMs ≤ now - peer.lastSeenAt then .offline
  else if staleAfterMs ≤ now - peer.lastSeenAt ∧ peer.lifecycleState = .connected then .stale
  else peer.lifecycleState

/-- What reading the status leaves of one entry: its derived state, or nothing when it was offline before (or is
simulated) and its retention has passed. -/
def refreshPeer (now : Int) (peer : PeerStatus) : Option PeerStatus :=
  let offlineExpiry := now - offlineRetentionMs
  let lifecycleState := derivePeerLifecycleState peer now staleAfterMs offlineRetentionMs
  if peer.source = some .simulated ∧ peer.lastSeenAt < offlineExpiry then none
  else if peer.lifecycleState = .offline ∧ peer.lastSeenAt < offlineExpiry then none
  else some { peer with lifecycleState := lifecycleState }

/-! ## The runtime -/

/-- The clock, the peers by their id, the ids of the queued microtasks, the open connections with the id of
their entry, and how many connections have been opened. -/
structure Presence where
  now : Int
  peers : List PeerStatus
  microtasks : List String
  connections : List (Nat × String)
  opened : Nat

/-- A runtime that has started networking. -/
def Presence.initial (now : Int) : Presence :=
  { now := now, peers := [], microtasks := [], connections := [], opened := 0 }

/-- The entry of an id. -/
def Presence.entry (presence : Presence) (id : String) : Option PeerStatus :=
  lookup PeerStatus.id id presence.peers

/-- `peers.set(peer.id, peer)`. -/
def Presence.setPeer (presence : Presence) (peer : PeerStatus) : Presence :=
  { presence with peers := upsert PeerStatus.id peer presence.peers }

/-- Reads the status, which refreshes every entry; the snapshot lists the entries that remain. -/
def Presence.status (presence : Presence) : Presence :=
  { presence with peers := presence.peers.filterMap (refreshPeer presence.now) }

/-- The id of a connection's entry. -/
def Presence.connectionId (presence : Presence) (remotePublicKey : Option Buffer) : String :=
  match remotePublicKey with
  | some key => Hex.encode key
  | none => "peer-" ++ toString (presence.peers.length + 1)

/-- A connection opens: its entry is new, and a microtask is queued for it. -/
def Presence.connect (presence : Presence) (remotePublicKey : Option Buffer) : Presence :=
  let id := presence.connectionId remotePublicKey
  let peer : PeerStatus :=
    { id := id
      connectedAt := presence.now
      lastSeenAt := presence.now
      lifecycleState := .connecting
      source := some .hyperswarm }
  { presence.setPeer peer with
    microtasks := presence.microtasks ++ [id]
    connections := presence.connections ++ [(presence.opened, id)]
    opened := presence.opened + 1 }

/-- A microtask marks a connecting peer connected, and notifies the listeners with the status. -/
def Presence.promote (presence : Presence) (id : String) : Presence :=
  match presence.entry id with
  | some peer =>
      if peer.lifecycleState = .connecting then
        (presence.setPeer (peer.seen .connected presence.now)).status
      else presence
  | none => presence

/-- A closing connection marks its peer offline, and notifies the listeners with the status. -/
def Presence.disconnect (presence : Presence) (id : String) : Presence :=
  match presence.entry id with
  | some peer => (presence.setPeer (peer.seen .offline presence.now)).status
  | none => presence

/-- The runtime without one of its connections. -/
def Presence.without (presence : Presence) (connection : Nat) : Presence :=
  { presence with
    connections := presence.connections.filter fun other ↦ decide (other.1 ≠ connection) }

/-- The runtime without one of its queued microtasks. -/
def Presence.dequeue (presence : Presence) (index : Nat) : Presence :=
  { presence with microtasks := presence.microtasks.eraseIdx index }

/-- What happens to a runtime: a connection opens, a queued microtask runs, an open connection closes, the clock
moves, or the status is read. -/
inductive PresenceEvent where
  | connection (remotePublicKey : Option Buffer)
  | microtask (index : Nat)
  | close (connection : Nat)
  | clock (now : Int)
  | status

/-- One step of the runtime. -/
def presenceStep (presence : Presence) (event : PresenceEvent) : Presence :=
  match event with
  | .connection remotePublicKey => presence.connect remotePublicKey
  | .microtask index =>
      match presence.microtasks[index]? with
      | some id => (presence.dequeue index).promote id
      | none => presence
  | .close connection =>
      match lookup Prod.fst connection presence.connections with
      | some (_, id) => (presence.without connection).disconnect id
      | none => presence
  | .clock now => { presence with now := now }
  | .status => presence.status

/-- A remote key has an open connection. -/
def Presence.IsOpen (presence : Presence) (key : Buffer) : Prop :=
  ∃ connection ∈ presence.connections, connection.2 = Hex.encode key

/-- The status that a runtime would report reflects its connections: a key with an open one is listed and not
offline, and a key without one is not connected. -/
structure Reflects (presence : Presence) : Prop where
  listed : ∀ key, presence.IsOpen key →
    ∃ peer ∈ presence.status.peers, peer.id = Hex.encode key ∧ peer.lifecycleState ≠ .offline
  closed : ∀ key, ¬ presence.IsOpen key →
    ∀ peer ∈ presence.status.peers, peer.id = Hex.encode key → peer.lifecycleState ≠ .connected

/-- No connection of a key closes while another one is open, and the clock stays within the retention of every
key with an open connection, from when it was last seen. -/
def SeenInTime (presence : Presence) : PresenceEvent → Prop
  | .connection _ | .microtask _ | .status => True
  | .close connection => ∀ key,
      lookup Prod.fst connection presence.connections = some (connection, Hex.encode key) →
      ∀ other ∈ presence.connections, other.2 = Hex.encode key → other.1 = connection
  | .clock now => ∀ key, presence.IsOpen key → ∀ peer, presence.entry (Hex.encode key) = some peer →
      now - peer.lastSeenAt < offlineRetentionMs

/-! ## One entry -/

/-- The entry of a peer that the status lists and does not report offline. -/
def Live (now : Int) (entry : Option PeerStatus) : Prop :=
  ∃ peer, entry = some peer ∧ peer.lifecycleState ≠ .offline ∧
    now - peer.lastSeenAt < offlineRetentionMs

/-- The entry of a peer without a connection. -/
def Gone (entry : Option PeerStatus) : Prop :=
  ∀ peer, entry = some peer → peer.lifecycleState = .offline

theorem refreshPeer_cases {now : Int} {peer : PeerStatus} (hswarm : peer.source = some .hyperswarm) :
    refreshPeer now peer = none ∧ peer.lifecycleState = .offline ∨
    refreshPeer now peer = some { peer with
      lifecycleState := derivePeerLifecycleState peer now staleAfterMs offlineRetentionMs } := by
  unfold refreshPeer
  simp only [hswarm, Option.some.injEq, reduceCtorEq, false_and, if_false]
  split
  · rename_i hexpired
    exact Or.inl ⟨rfl, hexpired.1⟩
  · exact Or.inr rfl

/-- The derived state is not offline exactly for a live peer. -/
theorem derived_ne_offline {now : Int} {peer : PeerStatus} :
    derivePeerLifecycleState peer now staleAfterMs offlineRetentionMs ≠ .offline ↔
      peer.lifecycleState ≠ .offline ∧ now - peer.lastSeenAt < offlineRetentionMs := by
  unfold derivePeerLifecycleState
  by_cases hoffline : peer.lifecycleState = .offline
  · simp [hoffline]
  · rw [if_neg hoffline]
    by_cases hexpired : offlineRetentionMs ≤ now - peer.lastSeenAt
    · rw [if_pos hexpired]
      simp [hexpired]
    · rw [if_neg hexpired]
      split
      · simp [hoffline, not_le.mp hexpired]
      · simp [hoffline, not_le.mp hexpired]

variable {now : Int} {entry : Option PeerStatus}

/-- Reading the status keeps an entry live, and makes none live. -/
theorem live_refresh (hswarm : ∀ peer, entry = some peer → peer.source = some .hyperswarm) :
    Live now (entry.bind (refreshPeer now)) ↔ Live now entry := by
  cases entry with
  | none => exact Iff.rfl
  | some peer =>
      rw [Option.bind_some]
      cases @refreshPeer_cases now peer (hswarm peer rfl) with
      | inl hdeleted =>
          rw [hdeleted.1]
          constructor
          · rintro ⟨_, hnone, -⟩
            cases hnone
          · rintro ⟨_, hsame, hlive, -⟩
            obtain rfl := Option.some.inj hsame
            exact absurd hdeleted.2 hlive
      | inr hrefreshed =>
          rw [hrefreshed]
          constructor
          · rintro ⟨_, hsame, hlive, -⟩
            obtain rfl := Option.some.inj hsame
            exact ⟨peer, rfl, derived_ne_offline.mp hlive⟩
          · rintro ⟨_, hsame, hlive⟩
            obtain rfl := Option.some.inj hsame
            exact ⟨_, rfl, derived_ne_offline.mpr hlive, hlive.2⟩

/-- Reading the status leaves a gone entry gone. -/
theorem Gone.refresh (h : Gone entry) : Gone (entry.bind (refreshPeer now)) := by
  intro peer hpeer
  obtain ⟨before, hbefore, hrefreshed⟩ := Option.bind_eq_some_iff.mp hpeer
  unfold refreshPeer at hrefreshed
  dsimp only at hrefreshed
  split at hrefreshed
  · cases hrefreshed
  · split at hrefreshed
    · cases hrefreshed
    · obtain rfl := Option.some.inj hrefreshed
      exact if_pos (h before hbefore)

theorem id_of_refreshPeer {before after : PeerStatus} (h : refreshPeer now before = some after) :
    after.id = before.id ∧ after.source = before.source := by
  unfold refreshPeer at h
  dsimp only at h
  split at h
  · cases h
  · split at h
    · cases h
    · obtain rfl := Option.some.inj h
      exact ⟨rfl, rfl⟩

/-! ## Every entry -/

/-- What the entries keep to: distinct ids of transport peers, and a key without a connection is gone. -/
structure Tracked (presence : Presence) : Prop where
  distinct : (presence.peers.map PeerStatus.id).Nodup
  swarm : ∀ peer ∈ presence.peers, peer.source = some .hyperswarm
  gone : ∀ key, ¬ presence.IsOpen key → Gone (presence.entry (Hex.encode key))

/-- Refreshing the entries refreshes the entry of each id. -/
theorem entry_status {presence : Presence} (hdistinct : (presence.peers.map PeerStatus.id).Nodup)
    (id : String) :
    presence.status.entry id = (presence.entry id).bind (refreshPeer presence.now) := by
  show lookup PeerStatus.id id (presence.peers.filterMap (refreshPeer presence.now)) =
    (lookup PeerStatus.id id presence.peers).bind (refreshPeer presence.now)
  generalize presence.peers = peers at hdistinct ⊢
  induction peers with
  | nil => rfl
  | cons peer rest ih =>
      obtain ⟨hfresh, hrest⟩ := List.nodup_cons.mp hdistinct
      have hrestIds : peer.id = id → lookup PeerStatus.id id rest = none := by
        intro hid
        exact lookup_eq_none.mpr fun other hother hsame ↦
          hfresh (hid.trans hsame.symm ▸ List.mem_map_of_mem hother)
      rw [lookup_cons]
      cases hrefresh : refreshPeer presence.now peer with
      | none =>
          rw [List.filterMap_cons_none hrefresh, ih hrest]
          split
          · rename_i hid
            rw [hrestIds hid, Option.bind_some, hrefresh]
            rfl
          · rfl
      | some refreshed =>
          rw [List.filterMap_cons_some hrefresh, lookup_cons, (id_of_refreshPeer hrefresh).1, ih hrest]
          split
          · rw [Option.bind_some, hrefresh]
          · rfl

variable {presence : Presence}

theorem Tracked.entry_swarm (h : Tracked presence) (id : String) :
    ∀ peer, presence.entry id = some peer → peer.source = some .hyperswarm :=
  fun peer hpeer ↦ h.swarm peer (lookup_eq_some hpeer).1

theorem Tracked.status (h : Tracked presence) : Tracked presence.status where
  distinct := by
    refine h.distinct.sublist ?_
    show ((presence.peers.filterMap (refreshPeer presence.now)).map PeerStatus.id).Sublist _
    rw [List.map_filterMap]
    induction presence.peers with
    | nil => exact List.Sublist.slnil
    | cons peer rest ih =>
        cases hrefresh : refreshPeer presence.now peer with
        | none =>
            rw [List.filterMap_cons_none (by rw [hrefresh]; rfl)]
            exact ih.cons _
        | some refreshed =>
            rw [List.filterMap_cons_some (by rw [hrefresh]; rfl), (id_of_refreshPeer hrefresh).1]
            exact ih.cons_cons _
  swarm peer hmem := by
    obtain ⟨before, hbefore, hrefresh⟩ := List.mem_filterMap.mp hmem
    rw [(id_of_refreshPeer hrefresh).2]
    exact h.swarm before hbefore
  gone key hclosed := by
    rw [entry_status h.distinct]
    exact (h.gone key hclosed).refresh

/-- Setting an entry keeps the entries tracked when it is gone or of a key with an open connection. -/
theorem Tracked.set (h : Tracked presence) {next : Presence} {peer : PeerStatus}
    (hpeers : next.peers = upsert PeerStatus.id peer presence.peers)
    (hswarm : peer.source = some .hyperswarm)
    (hgone : ∀ key, ¬ next.IsOpen key → peer.id = Hex.encode key → peer.lifecycleState = .offline)
    (hopen : ∀ key, ¬ next.IsOpen key → peer.id ≠ Hex.encode key → ¬ presence.IsOpen key) :
    Tracked next where
  distinct := by
    rw [hpeers]
    exact nodup_upsert h.distinct
  swarm other hmem := by
    rw [hpeers] at hmem
    cases eq_or_mem_of_mem_upsert hmem with
    | inl hnew => exact hnew ▸ hswarm
    | inr hold => exact h.swarm other hold
  gone key hclosed := by
    intro other hother
    have hentry : lookup PeerStatus.id (Hex.encode key) next.peers = some other := hother
    rw [hpeers, lookup_upsert] at hentry
    split at hentry
    · rename_i hid
      obtain rfl := Option.some.inj hentry
      exact hgone key hclosed hid
    · rename_i hid
      exact h.gone key (hopen key hclosed hid) other hentry

/-- A hexadecimal key is no name of a connection without a key. -/
theorem encode_ne_fallback (key : Buffer) (size : Nat) : "peer-" ++ toString size ≠ Hex.encode key := by
  intro h
  have hmem : 'p' ∈ (Hex.encode key).toList := by
    rw [← h, String.toList_append]
    exact List.mem_append_left _ (by decide)
  exact absurd (Hex.isLower_of_mem hmem) (by decide)

/-- The id of a connection is the text of a key only for that key. -/
theorem connectionId_eq_encode {remotePublicKey : Option Buffer} {key : Buffer} :
    presence.connectionId remotePublicKey = Hex.encode key ↔ remotePublicKey = some key := by
  cases remotePublicKey with
  | none => exact ⟨fun h ↦ absurd h (encode_ne_fallback key _), nofun⟩
  | some other =>
      show Hex.encode other = Hex.encode key ↔ _
      rw [Hex.encode_inj, Option.some.injEq]

theorem isOpen_connect {remotePublicKey : Option Buffer} {key : Buffer} :
    (presence.connect remotePublicKey).IsOpen key ↔
      presence.IsOpen key ∨ remotePublicKey = some key := by
  unfold Presence.IsOpen
  rw [← @connectionId_eq_encode presence]
  simp only [Presence.connect, List.mem_append, List.mem_singleton, or_and_right, exists_or,
    exists_eq_left]

theorem Tracked.connect (h : Tracked presence) (remotePublicKey : Option Buffer) :
    Tracked (presence.connect remotePublicKey) := by
  refine h.set rfl rfl ?_ ?_
  · intro key hclosed hid
    exact absurd (isOpen_connect.mpr (Or.inr (connectionId_eq_encode.mp hid))) hclosed
  · exact fun key hclosed _ hopen ↦ hclosed (isOpen_connect.mpr (Or.inl hopen))

theorem Tracked.promote (h : Tracked presence) (id : String) : Tracked (presence.promote id) := by
  unfold Presence.promote
  split
  · rename_i peer hpeer
    split
    · rename_i hconnecting
      refine Tracked.status (@Tracked.set presence h _ (peer.seen .connected presence.now) rfl
        (h.entry_swarm id peer hpeer) ?_ fun key hclosed _ ↦ hclosed)
      intro key hclosed hid
      have hname : peer.id = id := (lookup_eq_some hpeer).2
      have hsame : peer.id = Hex.encode key := hid
      have hgone := h.gone key hclosed peer (by rw [← hsame, hname]; exact hpeer)
      rw [hconnecting] at hgone
      cases hgone
    · exact h
  · exact h

/-- Closing a connection keeps the entries tracked, also of a key that it leaves without a connection. -/
theorem tracked_disconnect {next : Presence} {id : String} (h : Tracked presence)
    (hpeers : next.peers = presence.peers)
    (hopen : ∀ key, ¬ next.IsOpen key → id ≠ Hex.encode key → ¬ presence.IsOpen key) :
    Tracked (next.disconnect id) := by
  have hentry : next.entry id = presence.entry id := by
    unfold Presence.entry
    rw [hpeers]
  unfold Presence.disconnect
  split
  · rename_i peer hpeer
    rw [hentry] at hpeer
    have hname : peer.id = id := (lookup_eq_some hpeer).2
    refine Tracked.status (@Tracked.set presence h _ (peer.seen .offline next.now)
      (by rw [Presence.setPeer, hpeers]) (h.entry_swarm id peer hpeer) (fun _ _ _ ↦ rfl) ?_)
    intro key hclosed hid
    exact hopen key hclosed (hname ▸ hid)
  · rename_i hnone
    rw [hentry] at hnone
    refine ⟨hpeers ▸ h.distinct, hpeers ▸ h.swarm, fun key hclosed ↦ ?_⟩
    intro peer hpeer
    have hpeer : presence.entry (Hex.encode key) = some peer := by
      rw [← hpeer]
      unfold Presence.entry
      rw [hpeers]
    refine h.gone key (hopen key hclosed ?_) peer hpeer
    rintro rfl
    rw [hnone] at hpeer
    cases hpeer

/-! ## Runs -/

/-- Every key with an open connection is live. -/
def Current (presence : Presence) : Prop :=
  ∀ key, presence.IsOpen key → Live presence.now (presence.entry (Hex.encode key))

/-- Open connections have distinct numbers, which are used up. -/
structure Numbered (presence : Presence) : Prop where
  distinct : (presence.connections.map Prod.fst).Nodup
  used : ∀ connection ∈ presence.connections, connection.1 < presence.opened

/-- The entries after one is set and the status is read. -/
theorem live_set_status (h : Tracked presence) {next : Presence} {peer : PeerStatus}
    (hpeers : next.peers = upsert PeerStatus.id peer presence.peers)
    (hswarm : peer.source = some .hyperswarm) (id : String) :
    Live next.now (next.status.entry id) ↔
      Live next.now (if peer.id = id then some peer else presence.entry id) := by
  have hentry : next.entry id = if peer.id = id then some peer else presence.entry id := by
    unfold Presence.entry
    rw [hpeers, lookup_upsert]
  rw [entry_status (by rw [hpeers]; exact nodup_upsert h.distinct), hentry]
  refine live_refresh fun other hother ↦ ?_
  split at hother
  · exact Option.some.inj hother ▸ hswarm
  · exact h.entry_swarm id other hother

theorem live_status (h : Tracked presence) (id : String) :
    Live presence.now (presence.status.entry id) ↔ Live presence.now (presence.entry id) := by
  rw [entry_status h.distinct]
  exact live_refresh (h.entry_swarm id)

/-- The status of tracked entries reflects the connections exactly when every key with one is live. -/
theorem reflects_iff (h : Tracked presence) : Reflects presence ↔ Current presence := by
  have hlisted (id : String) : (∃ peer ∈ presence.status.peers, peer.id = id ∧
      peer.lifecycleState ≠ .offline) ↔ Live presence.now (presence.entry id) := by
    have hentry (peer : PeerStatus) : presence.status.entry id = some peer ↔
        peer ∈ presence.status.peers ∧ peer.id = id := lookup_eq_some_iff h.status.distinct
    constructor
    · rintro ⟨peer, hmem, hid, hstate⟩
      have hbind := (hentry peer).mpr ⟨hmem, hid⟩
      rw [entry_status h.distinct] at hbind
      obtain ⟨before, hbefore, hrefresh⟩ := Option.bind_eq_some_iff.mp hbind
      cases @refreshPeer_cases presence.now before (h.entry_swarm id before hbefore) with
      | inl hdeleted =>
          rw [hdeleted.1] at hrefresh
          cases hrefresh
      | inr hrefreshed =>
          obtain rfl := Option.some.inj (hrefreshed.symm.trans hrefresh)
          exact ⟨before, hbefore, derived_ne_offline.mp hstate⟩
    · intro hlive
      obtain ⟨peer, hpeer, hstate, -⟩ := (live_status h id).mpr hlive
      obtain ⟨hmem, hid⟩ := (hentry peer).mp hpeer
      exact ⟨peer, hmem, hid, hstate⟩
  constructor
  · intro hreflects key hopen
    exact (hlisted _).mp (hreflects.listed key hopen)
  · intro hcurrent
    refine ⟨fun key hopen ↦ (hlisted _).mpr (hcurrent key hopen), ?_⟩
    intro key hclosed peer hmem hid
    have hgone := h.status.gone key hclosed peer
      ((lookup_eq_some_iff h.status.distinct).mpr ⟨hmem, hid⟩)
    rw [hgone]
    decide

theorem Current.connect (h : Current presence) (remotePublicKey : Option Buffer) :
    Current (presence.connect remotePublicKey) := by
  intro key hopen
  have hentry : (presence.connect remotePublicKey).entry (Hex.encode key) =
      if presence.connectionId remotePublicKey = Hex.encode key then
        some { id := presence.connectionId remotePublicKey
               connectedAt := presence.now
               lastSeenAt := presence.now
               lifecycleState := .connecting
               source := some .hyperswarm }
      else presence.entry (Hex.encode key) := lookup_upsert _ _ _
  rw [hentry]
  split
  · refine ⟨_, rfl, nofun, ?_⟩
    show presence.now - presence.now < offlineRetentionMs
    rw [sub_self]
    decide
  · rename_i hother
    cases isOpen_connect.mp hopen with
    | inl hbefore => exact h key hbefore
    | inr hown => exact absurd (connectionId_eq_encode.mpr hown) hother

theorem Current.promote (h : Current presence) (htracked : Tracked presence) (id : String) :
    Current (presence.promote id) := by
  unfold Presence.promote
  split
  · rename_i peer hpeer
    split
    · intro key hopen
      refine (@live_set_status presence htracked _ (peer.seen .connected presence.now) rfl
        (htracked.entry_swarm id peer hpeer) _).mpr ?_
      split
      · refine ⟨_, rfl, nofun, ?_⟩
        show presence.now - presence.now < offlineRetentionMs
        rw [sub_self]
        decide
      · exact h key hopen
    · exact h
  · exact h

/-- After a connection closes, the keys that are live are those that were, its own aside. -/
theorem live_disconnect (h : Tracked presence) {next : Presence} (hpeers : next.peers = presence.peers)
    (hnow : next.now = presence.now) (id other : String) :
    Live presence.now ((next.disconnect id).entry other) ↔
      other ≠ id ∧ Live presence.now (presence.entry other) := by
  have hentry (name : String) : next.entry name = presence.entry name := by
    unfold Presence.entry
    rw [hpeers]
  unfold Presence.disconnect
  split
  · rename_i peer hpeer
    rw [hentry] at hpeer
    have hname : peer.id = id := (lookup_eq_some hpeer).2
    have hlive := @live_set_status presence h (next.setPeer (peer.seen .offline next.now))
      (peer.seen .offline next.now) (by rw [Presence.setPeer, hpeers])
      (h.entry_swarm id peer hpeer) other
    have hid : (peer.seen .offline next.now).id = id := hname
    rw [hid] at hlive
    rw [← hnow]
    refine hlive.trans ?_
    by_cases hsame : id = other
    · rw [if_pos hsame]
      constructor
      · rintro ⟨_, hpeer, hstate, -⟩
        obtain rfl := Option.some.inj hpeer
        exact absurd rfl hstate
      · rintro ⟨hother, -⟩
        exact absurd hsame.symm hother
    · rw [if_neg hsame]
      exact ⟨fun hbefore ↦ ⟨fun heq ↦ hsame heq.symm, hbefore⟩, And.right⟩
  · rename_i hnone
    rw [hentry] at hnone
    rw [hentry]
    refine ⟨fun hbefore ↦ ⟨?_, hbefore⟩, And.right⟩
    rintro rfl
    obtain ⟨peer, hpeer, -⟩ := hbefore
    rw [hnone] at hpeer
    cases hpeer

/-- Closing a connection leaves the other connections open. -/
theorem isOpen_without {connection : Nat} {key : Buffer} :
    (presence.without connection).IsOpen key ↔
      ∃ other ∈ presence.connections, other.2 = Hex.encode key ∧ other.1 ≠ connection := by
  unfold Presence.IsOpen Presence.without
  simp only [List.mem_filter, decide_eq_true_eq]
  constructor
  · rintro ⟨other, ⟨hmem, hne⟩, hid⟩
    exact ⟨other, hmem, hid, hne⟩
  · rintro ⟨other, hmem, hid, hne⟩
    exact ⟨other, ⟨hmem, hne⟩, hid⟩

/-- The connection of a number is the only one. -/
theorem Numbered.unique (h : Numbered presence) {connection : Nat} {id : String}
    (hfound : lookup Prod.fst connection presence.connections = some (connection, id))
    {other : Nat × String} (hmem : other ∈ presence.connections) (hnumber : other.1 = connection) :
    other.2 = id := by
  have hother := (lookup_eq_some_iff h.distinct).mpr ⟨hmem, hnumber⟩
  rw [hfound] at hother
  exact (congrArg Prod.snd (Option.some.inj hother)).symm

theorem connections_promote (id : String) :
    (presence.promote id).connections = presence.connections ∧
      (presence.promote id).opened = presence.opened := by
  unfold Presence.promote
  split
  · split
    · exact ⟨rfl, rfl⟩
    · exact ⟨rfl, rfl⟩
  · exact ⟨rfl, rfl⟩

theorem connections_disconnect (id : String) :
    (presence.disconnect id).connections = presence.connections ∧
      (presence.disconnect id).opened = presence.opened ∧
      (presence.disconnect id).now = presence.now := by
  unfold Presence.disconnect
  split
  · exact ⟨rfl, rfl, rfl⟩
  · exact ⟨rfl, rfl, rfl⟩

/-- Closing a connection that is open. -/
theorem presenceStep_close {connection : Nat} {id : String}
    (hfound : lookup Prod.fst connection presence.connections = some (connection, id)) :
    presenceStep presence (.close connection) = (presence.without connection).disconnect id := by
  simp only [presenceStep, hfound]

theorem presenceStep_close_of_none {connection : Nat}
    (hnone : lookup Prod.fst connection presence.connections = none) :
    presenceStep presence (.close connection) = presence := by
  simp only [presenceStep, hnone]

/-- A microtask runs when it is queued. -/
theorem presenceStep_microtask {index : Nat} :
    presenceStep presence (.microtask index) = presence ∨
      ∃ id, presenceStep presence (.microtask index) = (presence.dequeue index).promote id := by
  cases hqueued : presence.microtasks[index]? with
  | none => exact Or.inl (by simp only [presenceStep, hqueued])
  | some id => exact Or.inr ⟨id, by simp only [presenceStep, hqueued]⟩

/-- The entries and the connections that every step keeps in order. -/
theorem tracked_step (htracked : Tracked presence) (hnumbered : Numbered presence)
    (event : PresenceEvent) :
    Tracked (presenceStep presence event) ∧ Numbered (presenceStep presence event) := by
  cases event with
  | connection remotePublicKey =>
      refine ⟨htracked.connect remotePublicKey, ?_, ?_⟩
      · show ((presence.connections ++ [(presence.opened, _)]).map Prod.fst).Nodup
        rw [List.map_append]
        refine List.nodup_append.mpr ⟨hnumbered.distinct, List.nodup_singleton _, ?_⟩
        intro number hnumber last hlast hsame
        obtain ⟨connection, hmem, rfl⟩ := List.mem_map.mp hnumber
        have hused := hnumbered.used connection hmem
        obtain rfl := List.mem_singleton.mp hlast
        exact absurd hsame (Nat.ne_of_lt hused)
      · intro connection hmem
        show connection.1 < presence.opened + 1
        cases List.mem_append.mp hmem with
        | inl hold => exact Nat.lt_succ_of_lt (hnumbered.used connection hold)
        | inr hnew =>
            obtain rfl := List.mem_singleton.mp hnew
            exact Nat.lt_succ_self _
  | microtask index =>
      rcases @presenceStep_microtask presence index with hsame | ⟨id, hstep⟩
      · rw [hsame]
        exact ⟨htracked, hnumbered⟩
      · have hdequeued : Tracked (presence.dequeue index) :=
          ⟨htracked.distinct, htracked.swarm, htracked.gone⟩
        rw [hstep]
        refine ⟨hdequeued.promote id, ?_, ?_⟩
        · rw [(connections_promote id).1]
          exact hnumbered.distinct
        · rw [(connections_promote id).1, (connections_promote id).2]
          exact hnumbered.used
  | close connection =>
      cases hfound : lookup Prod.fst connection presence.connections with
      | none =>
          rw [presenceStep_close_of_none hfound]
          exact ⟨htracked, hnumbered⟩
      | some found =>
          obtain ⟨number, id⟩ := found
          obtain rfl : number = connection := (lookup_eq_some hfound).2
          rw [presenceStep_close hfound]
          refine ⟨tracked_disconnect htracked rfl ?_, ?_, ?_⟩
          · intro key hclosed hid hopen
            obtain ⟨other, hmem, hkey⟩ := hopen
            refine hclosed (isOpen_without.mpr ⟨other, hmem, hkey, ?_⟩)
            intro hnumber
            exact hid ((hnumbered.unique hfound hmem hnumber).symm.trans hkey)
          · rw [(connections_disconnect id).1]
            exact hnumbered.distinct.sublist (List.filter_sublist.map Prod.fst)
          · rw [(connections_disconnect id).1, (connections_disconnect id).2.1]
            exact fun connection hmem ↦ hnumbered.used connection (List.mem_filter.mp hmem).1
  | clock now =>
      exact ⟨⟨htracked.distinct, htracked.swarm, htracked.gone⟩, hnumbered.distinct, hnumbered.used⟩
  | status => exact ⟨htracked.status, hnumbered.distinct, hnumbered.used⟩

/-- A step keeps the keys with open connections live exactly when it meets the condition. -/
theorem current_step_iff (htracked : Tracked presence) (hcurrent : Current presence)
    (event : PresenceEvent) :
    Current (presenceStep presence event) ↔ SeenInTime presence event := by
  cases event with
  | connection remotePublicKey => exact iff_of_true (hcurrent.connect remotePublicKey) trivial
  | microtask index =>
      refine iff_of_true ?_ trivial
      rcases @presenceStep_microtask presence index with hsame | ⟨id, hstep⟩
      · rw [hsame]
        exact hcurrent
      · have hdequeued : Tracked (presence.dequeue index) :=
          ⟨htracked.distinct, htracked.swarm, htracked.gone⟩
        have hlive : Current (presence.dequeue index) := hcurrent
        rw [hstep]
        exact hlive.promote hdequeued id
  | close connection =>
      cases hfound : lookup Prod.fst connection presence.connections with
      | none =>
          rw [presenceStep_close_of_none hfound]
          refine iff_of_true hcurrent ?_
          intro key hkey
          rw [hfound] at hkey
          cases hkey
      | some found =>
          obtain ⟨number, id⟩ := found
          obtain rfl : number = connection := (lookup_eq_some hfound).2
          rw [presenceStep_close hfound]
          have hopen (key : Buffer) : ((presence.without number).disconnect id).IsOpen key ↔
              (presence.without number).IsOpen key := by
            unfold Presence.IsOpen
            rw [(connections_disconnect id).1]
          have hlive (key : Buffer) := @live_disconnect presence htracked (presence.without number) rfl rfl
            id (Hex.encode key)
          unfold Current
          rw [(connections_disconnect id).2.2]
          constructor
          · intro hnext key hkey other hmem hid
            have hown : id = Hex.encode key :=
              congrArg Prod.snd (Option.some.inj (hfound.symm.trans hkey))
            by_contra hother
            have hstill := isOpen_without.mpr ⟨other, hmem, hid, hother⟩
            exact ((hlive key).mp (hnext key ((hopen key).mpr hstill))).1 hown.symm
          · intro hseen key hkey
            obtain ⟨other, hmem, hid, hother⟩ := isOpen_without.mp ((hopen key).mp hkey)
            refine (hlive key).mpr ⟨?_, hcurrent key ⟨other, hmem, hid⟩⟩
            rintro rfl
            exact hother (hseen key hfound other hmem hid)
  | clock now =>
      constructor
      · intro hnext key hopen peer hpeer
        obtain ⟨other, hother, -, hage⟩ := hnext key hopen
        obtain rfl := Option.some.inj (hpeer.symm.trans hother)
        exact hage
      · intro hseen key hopen
        obtain ⟨peer, hpeer, hstate, -⟩ := hcurrent key hopen
        exact ⟨peer, hpeer, hstate, hseen key hopen peer hpeer⟩
  | status =>
      refine iff_of_true ?_ trivial
      intro key hopen
      exact (live_status htracked _).mpr (hcurrent key hopen)

/-- A runtime without connections keeps everything in order. -/
theorem current_initial (start : Int) : Tracked (.initial start) ∧ Numbered (.initial start) ∧
    Current (.initial start) := by
  refine ⟨⟨List.nodup_nil, nofun, fun _ _ ↦ nofun⟩, ⟨List.nodup_nil, nofun⟩, ?_⟩
  rintro key ⟨connection, hmem, -⟩
  cases hmem

/-- The status reflects the open connections throughout a run exactly when no connection closes while another one
of its key is open, and the clock never passes the retention of a key with an open connection. -/
theorem presence_reflects_iff (start : Int) (events : List PresenceEvent) :
    (∀ before after, events = before ++ after →
        Reflects (EventRun.run presenceStep (.initial start) before)) ↔
      EventRun.Along presenceStep SeenInTime (.initial start) events := by
  obtain ⟨htracked, hnumbered, hcurrent⟩ := current_initial start
  have hsteps : EventRun.Along presenceStep
      (fun presence event ↦ Reflects (presenceStep presence event)) (.initial start) events ↔
        EventRun.Along presenceStep SeenInTime (.initial start) events := by
    refine @EventRun.along_congr _ _ _ _ _ _
      (fun presence ↦ Tracked presence ∧ Numbered presence ∧ Current presence)
      ?_ ?_ ⟨htracked, hnumbered, hcurrent⟩ _
    · rintro presence event ⟨htracked, hnumbered, -⟩ hreflects
      have hnext := tracked_step htracked hnumbered event
      exact ⟨hnext.1, hnext.2, (reflects_iff hnext.1).mp hreflects⟩
    · rintro presence event ⟨htracked, hnumbered, hcurrent⟩
      exact (reflects_iff (tracked_step htracked hnumbered event).1).trans
        (current_step_iff htracked hcurrent event)
  rw [← hsteps, EventRun.along_iff]
  constructor
  · intro h before event after hsplit
    have hlonger := h (before ++ [event]) after (by rw [hsplit]; simp)
    rwa [EventRun.run_append] at hlonger
  · intro h before after hsplit
    cases before using List.reverseRecOn with
    | nil => exact (reflects_iff htracked).mpr hcurrent
    | append_singleton before event =>
        rw [EventRun.run_append]
        exact h before event after (by rw [hsplit]; simp)

/-- A peer that stays connected is offline for the status after thirty seconds and gone from it after the next
reading; and a peer with two connections is offline once the first one closes. -/
theorem quiet_peer_disappears :
    let connected := [PresenceEvent.connection (some [1]), .microtask 0]
    let after (events : List PresenceEvent) := EventRun.run presenceStep (.initial 0) (connected ++ events)
    ((after [.clock 30000]).IsOpen [1] ∧
      (after [.clock 30000]).status.peers.map (·.lifecycleState) = [.offline]) ∧
    ((after [.clock 30001, .status]).IsOpen [1] ∧ (after [.clock 30001, .status]).status.peers = []) ∧
    ((after [.connection (some [1]), .microtask 0, .close 0]).IsOpen [1] ∧
      (after [.connection (some [1]), .microtask 0, .close 0]).status.peers.map (·.lifecycleState) =
        [.offline]) := by
  intro connected after
  refine ⟨⟨⟨(0, "01"), by decide +kernel, by decide +kernel⟩, by decide +kernel⟩,
    ⟨⟨(0, "01"), by decide +kernel, by decide +kernel⟩, by decide +kernel⟩,
    ⟨(1, "01"), by decide +kernel, by decide +kernel⟩, by decide +kernel⟩

end PeerHours.PeerRuntime

import Claxedo.Relay.Generations

/-! The channels of a room's tunnels against the sockets of their clients and against what the hosts were told. A channel goes
with its client as long as each of the places that close a client's socket also lets go of the channel. -/

namespace Claxedo.Relay

open Claxedo.Lib

namespace Room

def told (s : Room) (socket : ℕ) : List ToHost := ((s.hostSockets[socket]?).map HostSocket.told).getD []

/-- The host of a tunnel closed a channel itself, or was told that it is closed. -/
def Ended (s : Room) (socket channelId : ℕ) : Prop :=
  (∃ message ∈ s.told socket, ∃ code reason, message = .wsClose channelId code reason) ∨ (socket, channelId) ∈ s.hostClosed

def clientClosed (s : Room) (channelId : ℕ) : Bool := (s.clientSockets[channelId]?).any fun client => client.closed.isSome

def Holds (s : Room) (channelId : ℕ) : Prop := ∃ tunnel ∈ s.hostTunnels, ∃ client ∈ tunnel.channels, client.channelId = channelId

instance (s : Room) (channelId : ℕ) : Decidable (s.Holds channelId) := by
  unfold Holds
  infer_instance

end Room

/-- A channel a tunnel holds is a client whose socket the relay has not closed; one its host was told to open and the tunnel
does not hold any more is one the host knows to be closed; and the room knows no other clients. -/
structure ChannelsKept (s : Room) : Prop where
  held : ∀ tunnel ∈ s.hostTunnels, ∀ client ∈ tunnel.channels, client ∈ s.clients ∧ s.clientClosed client.channelId = false
  told : ∀ tunnel ∈ s.hostTunnels, ∀ channelId, .wsOpen channelId ∈ s.told tunnel.socket →
    (∃ client ∈ tunnel.channels, client.channelId = channelId) ∨ s.Ended tunnel.socket channelId
  clients : ∀ client ∈ s.clients, ∃ tunnel ∈ s.hostTunnels, client ∈ tunnel.channels

/-- The answer lets a client's frame through, or has nothing to do with it. -/
def Passes (stage : ClientFrameStage) (answer : Answer) : Bool :=
  match stage, answer with
  | .token, .token token _ => token = .active
  | .target, .target active => active = some true
  | .frame, .frame readable sent => readable = some false || (readable = some true && sent)
  | _, _ => true

/-- What a handler goes on to do with an answer does not close the socket of a client that is still held. -/
def Handler.Tidy (s : Room) (answer : Answer) : Handler → Prop
  | .hostFrame _ _ client => match answer with
    | .token (.inactive _ _) _ => ¬ s.Holds client.channelId
    | _ => True
  | .clientFrame _ _ client stage => s.Holds client.channelId → Passes stage answer = true
  | _ => True

instance (s : Room) (answer : Answer) (handler : Handler) : Decidable (handler.Tidy s answer) := by
  unfold Handler.Tidy
  split
  · split <;> infer_instance
  · infer_instance
  · infer_instance

/-- No frame handler or watcher finds a held client inactive or fails, and no drain begins over clients. A wake registers a host
only on the socket it was registered on, lists the sockets of all its channels, and none of its clients that the relay has closed. -/
def Tidy (options : RoomOptions) (s : Room) : RoomEvent → Prop
  | .answered i answer => ∀ handler ∈ s.handlers[i]?, handler.Tidy s answer
  | .watched channelId _ _ => options.hibernation = false → ¬ s.Holds channelId
  | .drain draining => draining = true → s.clients = []
  | .rebuild hosts clients => options.hibernation = true →
      ∀ tunnel ∈ hosts.foldl (Room.rebuildHostTunnel s.hostSockets) [],
        (∃ before ∈ s.hostTunnels, before.socket = tunnel.socket ∧ before.hostId = tunnel.hostId ∧
          ∀ client ∈ before.channels, client.channelId ∈ clients) ∧
        ∀ channelId ∈ clients, (s.clientSockets[channelId]?).bind ClientSocket.attachment = some tunnel.hostId →
          s.clientClosed channelId = false
  | _ => True

instance (options : RoomOptions) (s : Room) : (event : RoomEvent) → Decidable (Tidy options s event)
  | .answered i answer => inferInstanceAs (Decidable (∀ handler ∈ s.handlers[i]?, handler.Tidy s answer))
  | .watched channelId _ _ => inferInstanceAs (Decidable (options.hibernation = false → ¬ s.Holds channelId))
  | .drain draining => inferInstanceAs (Decidable (draining = true → s.clients = []))
  | .rebuild _ _ => inferInstanceAs (Decidable (options.hibernation = true → ∀ _ ∈ _, _))
  | .admitHostTunnel .. | .hostSocketClosed .. | .hostSocketFailed .. | .tunnelMessage .. | .admitClient .. | .clientMessage ..
  | .clientSocketClosed .. | .clientSocketFailed .. | .recheck .. | .alarm => isTrue trivial

namespace Room

variable {options : RoomOptions} {s s' s'' : Room} {may : ℕ → Prop}

/-- What is known of a client is what its socket says. -/
def Known (s : Room) (client : HostTunnelClient) : Prop :=
  (s.clientSockets[client.channelId]?).map ClientSocket.hostId = some client.hostId

variable {client : HostTunnelClient} {channelId i socket : ℕ} {message : ToHost} {tunnel tunnel' : HostTunnel} {hostId : String}
  {left : List ℕ}

theorem Known.eq {client' : HostTunnelClient} (h : s.Known client) (h' : s.Known client')
    (hid : client.channelId = client'.channelId) : client = client' := by
  unfold Known at h h'
  rw [hid, h'] at h
  rcases client with ⟨channelId, hostId⟩
  rcases client' with ⟨channelId', hostId'⟩
  dsimp only at hid h
  rw [hid, Option.some.inj h]

/-- What becomes of the sockets: nothing is opened, what has ended stays so, and no client is closed but those that may be. -/
structure Onward (may : ℕ → Prop) (s s' : Room) : Prop where
  size : s.hostSockets.length ≤ s'.hostSockets.length
  opened : ∀ socket channelId, .wsOpen channelId ∈ s'.told socket → .wsOpen channelId ∈ s.told socket
  ended : ∀ socket channelId, s.Ended socket channelId → s'.Ended socket channelId
  known : ∀ client, s.Known client → s'.Known client
  attached : ∀ client' ∈ s'.clientSockets, ∃ client ∈ s.clientSockets,
    client'.hostId = client.hostId ∧ client'.attachment = client.attachment
  closed : ∀ channelId, ¬ may channelId → s'.clientClosed channelId = s.clientClosed channelId

theorem Onward.refl (may : ℕ → Prop) (s : Room) : Onward may s s :=
  ⟨Nat.le_refl _, fun _ _ h => h, fun _ _ h => h, fun _ h => h, fun client h => ⟨client, h, rfl, rfl⟩, fun _ _ => rfl⟩

theorem Onward.trans (h : Onward may s s') (h' : Onward may s' s'') : Onward may s s'' := by
  refine ⟨Nat.le_trans h.size h'.size, fun socket i hi => h.opened socket i (h'.opened socket i hi),
    fun socket i hi => h'.ended socket i (h.ended socket i hi), fun client hc => h'.known client (h.known client hc),
    fun client'' hclient'' => ?_, fun i hi => (h'.closed i hi).trans (h.closed i hi)⟩
  obtain ⟨client', hclient', hhost', hattachment'⟩ := h'.attached client'' hclient''
  obtain ⟨client, hclient, hhost, hattachment⟩ := h.attached client' hclient'
  exact ⟨client, hclient, hhost'.trans hhost, hattachment'.trans hattachment⟩

theorem Onward.mono {may' : ℕ → Prop} (h : Onward may s s') (hmay : ∀ i, may i → may' i) : Onward may' s s' :=
  ⟨h.size, h.opened, h.ended, h.known, h.attached, fun i hi => h.closed i fun hi' => hi (hmay i hi')⟩

/-- Steps that touch no socket. -/
theorem Onward.of_eq (hhosts : s'.hostSockets = s.hostSockets) (hclients : s'.clientSockets = s.clientSockets)
    (hended : ∀ pair ∈ s.hostClosed, pair ∈ s'.hostClosed) : Onward may s s' := by
  have htold : ∀ socket, s'.told socket = s.told socket := fun socket => by rw [told, told, hhosts]
  refine ⟨Nat.le_of_eq (by rw [hhosts]), fun socket i hi => by rwa [htold] at hi, fun socket i hi => ?_, fun client hc => ?_,
    fun client hc => ⟨client, by rwa [← hclients], rfl, rfl⟩, fun i _ => by rw [clientClosed, clientClosed, hclients]⟩
  · rcases hi with hi | hi
    · exact .inl (by rwa [htold])
    · exact .inr (hended _ hi)
  · rw [Known, hclients]
    exact hc

theorem told_modify (f : HostSocket → HostSocket) (i socket : ℕ) (s : Room) :
    ({ s with hostSockets := s.hostSockets.modify i f } : Room).told socket =
      if i = socket then ((s.hostSockets[socket]?).map fun host => (f host).told).getD [] else s.told socket := by
  unfold told
  dsimp only
  rw [List.getElem?_modify]
  split <;> rcases s.hostSockets[socket]? with _ | host <;> rfl

/-- What is sent on a socket leaves the rest of what was said. -/
theorem mem_told_tell {m : ToHost} (h : m ∈ (s.tell socket message).told i) :
    m ∈ s.told i ∨ m = message ∧ i = socket := by
  rw [tell, told_modify] at h
  split at h
  · rename_i heq
    subst heq
    unfold told
    rcases hhost : s.hostSockets[socket]? with _ | host <;> rw [hhost] at h
    · cases h
    · rcases List.mem_append.mp h with h | h
      · exact .inl h
      · exact .inr ⟨List.mem_singleton.mp h, rfl⟩
  · exact .inl h

theorem told_tell_of_mem {m : ToHost} (h : m ∈ s.told i) : m ∈ (s.tell socket message).told i := by
  rw [tell, told_modify]
  split
  · unfold told at h
    rcases hhost : s.hostSockets[i]? with _ | host
    · rw [hhost] at h
      cases h
    · rw [hhost] at h
      exact List.mem_append_left _ h
  · exact h

theorem told_tell_self (h : socket < s.hostSockets.length) (message : ToHost) :
    message ∈ (s.tell socket message).told socket := by
  rw [tell, told_modify, if_pos rfl, List.getElem?_eq_getElem h]
  exact List.mem_append_right _ (List.mem_singleton_self message)

theorem onward_tell (socket : ℕ) (hmessage : ∀ i, message ≠ .wsOpen i) (s : Room) :
    Onward may s (s.tell socket message) := by
  refine ⟨?_, fun i channelId h => ?_, fun i channelId h => ?_, fun _ h => h, fun client h => ⟨client, h, rfl, rfl⟩, fun _ _ => rfl⟩
  · rw [tell, List.length_modify]
  · rcases mem_told_tell h with h | ⟨h, -⟩
    · exact h
    · exact absurd h.symm (hmessage channelId)
  · rcases h with ⟨m, hm, hclose⟩ | h
    · exact .inl ⟨m, told_tell_of_mem hm, hclose⟩
    · exact .inr h

theorem onward_hostSocket {f : HostSocket → HostSocket} (hf : ∀ host, (f host).told = host.told) (i : ℕ) (s : Room) :
    Onward may s { s with hostSockets := s.hostSockets.modify i f } := by
  have htold : ∀ socket, ({ s with hostSockets := s.hostSockets.modify i f } : Room).told socket = s.told socket := by
    intro socket
    rw [told_modify]
    split
    · unfold told
      rcases s.hostSockets[socket]? with _ | host
      · rfl
      · exact hf host
    · rfl
  refine ⟨?_, fun socket channelId h => by rwa [htold] at h, fun socket channelId h => ?_, fun _ h => h,
    fun client h => ⟨client, h, rfl, rfl⟩, fun _ _ => rfl⟩
  · rw [List.length_modify]
  · rcases h with h | h
    · exact .inl (by rwa [htold])
    · exact .inr h

theorem onward_closeHostSocket (socket : ℕ) (code : ℤ) (reason : String) (s : Room) :
    Onward may s (s.closeHostSocket socket code reason) := by
  refine onward_hostSocket ?_ socket s
  exact fun _ => rfl

theorem onward_attach (tunnel : HostTunnel) (s : Room) : Onward may s (s.attach tunnel) := by
  refine onward_hostSocket ?_ tunnel.socket s
  exact fun _ => rfl

theorem onward_closeClientSocket (h : may channelId) (code : ℤ) (reason : String) (s : Room) :
    Onward may s (s.closeClientSocket channelId code reason) := by
  refine ⟨Nat.le_refl _, fun _ _ h => h, fun _ _ h => h, fun client hc => ?_, fun client' hc => ?_, fun i hi => ?_⟩
  · unfold Known at hc ⊢
    rw [closeClientSocket, List.getElem?_modify]
    rcases hget : s.clientSockets[client.channelId]? with _ | socket <;> rw [hget] at hc
    · cases hc
    · rw [← hc]
      change some _ = some _
      congr 1
      split <;> rfl
  · obtain ⟨i, hi, rfl⟩ := List.getElem_of_mem hc
    have hlt : i < s.clientSockets.length := by rwa [closeClientSocket, List.length_modify] at hi
    refine ⟨s.clientSockets[i], List.getElem_mem hlt, ?_⟩
    have hget : (s.closeClientSocket channelId code reason).clientSockets[i] = _ := List.getElem_modify _ _ _ _ hi
    rw [hget]
    split <;> exact ⟨rfl, rfl⟩
  · have hne : channelId ≠ i := by
      rintro rfl
      exact hi h
    rw [clientClosed, clientClosed, closeClientSocket, List.getElem?_modify_ne _ _ hne]

theorem onward_accept (host : HostSocket) (hhost : host.told = []) (s : Room) :
    Onward may s { s with hostSockets := s.hostSockets ++ [host] } := by
  have htold : ∀ socket, ({ s with hostSockets := s.hostSockets ++ [host] } : Room).told socket = s.told socket := by
    intro socket
    unfold told
    dsimp only
    rcases Nat.lt_trichotomy socket s.hostSockets.length with hlt | rfl | hgt
    · rw [List.getElem?_append_left hlt]
    · rw [List.getElem?_concat_length, List.getElem?_eq_none (Nat.le_refl _)]
      exact hhost
    · rw [List.getElem?_eq_none (by rw [List.length_append, List.length_singleton]; omega), List.getElem?_eq_none (by omega)]
  refine ⟨?_, fun socket channelId h => by rwa [htold] at h, fun socket channelId h => ?_, fun _ h => h,
    fun client h => ⟨client, h, rfl, rfl⟩, fun _ _ => rfl⟩
  · rw [List.length_append]
    omega
  · rcases h with h | h
    · exact .inl (by rwa [htold])
    · exact .inr h

theorem mem_putTunnel (hnodup : (s.hostTunnels.map HostTunnel.hostId).Nodup) :
    tunnel' ∈ (s.putTunnel tunnel).hostTunnels ↔ tunnel' = tunnel ∨ tunnel' ∈ s.hostTunnels ∧ tunnel'.hostId ≠ tunnel.hostId := by
  have hput : ((s.putTunnel tunnel).hostTunnels.map HostTunnel.hostId).Nodup := Table.nodup_keys_put hnodup
  refine ⟨fun h => ?_, fun h => ?_⟩
  · have hget := Table.get_of_mem hput h
    change (s.putTunnel tunnel).tunnel tunnel'.hostId = some tunnel' at hget
    rw [tunnel_putTunnel] at hget
    split at hget
    · exact .inl (Option.some.inj hget).symm
    · rename_i hne
      exact .inr ⟨(Table.mem_of_get hget).1, fun heq => hne heq.symm⟩
  · rcases h with rfl | ⟨hmem, hne⟩
    · exact Table.put_mem _ _
    · have hget : (s.putTunnel tunnel).tunnel tunnel'.hostId = some tunnel' := by
        rw [tunnel_putTunnel, if_neg fun heq => hne heq.symm]
        exact Table.get_of_mem hnodup hmem
      exact (Table.mem_of_get hget).1

/-- What a handler in flight goes by: the client it knows, and for a host's frame the only tunnel that can hold it. -/
def Follows (s : Room) : Handler → Prop
  | .hostFrame hostId socket client => s.Known client ∧
      ∀ tunnel ∈ s.hostTunnels, client ∈ tunnel.channels → tunnel.hostId = hostId ∧ tunnel.socket = socket
  | .clientFrame _ _ client _ => s.Known client
  | .sweep clients => ∀ client ∈ clients, s.Known client
  | _ => True

/-- Where tunnels, channels and handlers stand: one tunnel a host, each on a socket of its own and with clients of its host. -/
structure Placed (options : RoomOptions) (s : Room) : Prop where
  hosts : (s.hostTunnels.map HostTunnel.hostId).Nodup
  sockets : ∀ tunnel ∈ s.hostTunnels, tunnel.socket < s.hostSockets.length
  distinct : ∀ tunnel ∈ s.hostTunnels, ∀ tunnel' ∈ s.hostTunnels, tunnel.socket = tunnel'.socket → tunnel.hostId = tunnel'.hostId
  channels : ∀ tunnel ∈ s.hostTunnels, ∀ client ∈ tunnel.channels, client.hostId = tunnel.hostId ∧ s.Known client
  handlers : ∀ handler ∈ s.handlers, s.Follows handler
  attached : ∀ client ∈ s.clientSockets, options.hibernation = true → client.attachment = some client.hostId

theorem Placed.tunnel_of_mem (hp : Placed options s) (h : tunnel ∈ s.hostTunnels) :
    s.tunnel tunnel.hostId = some tunnel := Table.get_of_mem hp.hosts h

theorem Placed.eq_of_host (hp : Placed options s) (h : tunnel ∈ s.hostTunnels) (h' : tunnel' ∈ s.hostTunnels)
    (hhost : tunnel.hostId = tunnel'.hostId) : tunnel = tunnel' := by
  have hget := hp.tunnel_of_mem h
  rw [hhost, hp.tunnel_of_mem h'] at hget
  exact (Option.some.inj hget).symm

theorem Placed.eq_of_channel (hp : Placed options s) (h : tunnel ∈ s.hostTunnels) (h' : tunnel' ∈ s.hostTunnels)
    {client' : HostTunnelClient} (hc : client ∈ tunnel.channels) (hc' : client' ∈ tunnel'.channels)
    (hid : client.channelId = client'.channelId) : tunnel = tunnel' ∧ client = client' := by
  obtain ⟨hhost, hknown⟩ := hp.channels tunnel h client hc
  obtain ⟨hhost', hknown'⟩ := hp.channels tunnel' h' client' hc'
  obtain rfl := hknown.eq hknown' hid
  exact ⟨hp.eq_of_host h h' (hhost.symm.trans hhost'), rfl⟩

/-- Tunnels that stay, with no more channels than they had, and at most one of host `hostId` on a new socket. -/
theorem Placed.of_onward (hp : Placed options s) (ho : Onward may s s') (hhosts : (s'.hostTunnels.map HostTunnel.hostId).Nodup)
    (fresh : HostTunnel → Prop)
    (hfresh : ∀ tunnel', fresh tunnel' → tunnel'.channels = [] ∧ tunnel'.socket = s.hostSockets.length ∧
      tunnel'.socket < s'.hostSockets.length)
    (hone : ∀ tunnel tunnel', fresh tunnel → fresh tunnel' → tunnel.hostId = tunnel'.hostId)
    (htunnels : ∀ tunnel' ∈ s'.hostTunnels, (∃ tunnel ∈ s.hostTunnels, tunnel'.hostId = tunnel.hostId ∧
      tunnel'.socket = tunnel.socket ∧ tunnel'.channels ⊆ tunnel.channels) ∨ fresh tunnel')
    (hhandlers : ∀ handler ∈ s'.handlers, handler ∈ s.handlers ∨ s'.Follows handler) : Placed options s' := by
  refine ⟨hhosts, fun tunnel' h' => ?_, fun tunnel' h' tunnel'' h'' hsocket => ?_, fun tunnel' h' client hc => ?_,
    fun handler hh => ?_, fun client' hc' => ?_⟩
  · rcases htunnels tunnel' h' with ⟨tunnel, h, -, hsocket, -⟩ | hnew
    · rw [hsocket]
      exact Nat.lt_of_lt_of_le (hp.sockets tunnel h) ho.size
    · exact (hfresh tunnel' hnew).2.2
  · rcases htunnels tunnel' h' with ⟨tunnel, h, hhost, hold, -⟩ | hnew <;>
      rcases htunnels tunnel'' h'' with ⟨tunnel₂, h₂, hhost₂, hold₂, -⟩ | hnew₂
    · rw [hhost, hhost₂]
      exact hp.distinct tunnel h tunnel₂ h₂ (by rw [← hold, ← hold₂, hsocket])
    · have hlt := hp.sockets tunnel h
      have hlen := (hfresh tunnel'' hnew₂).2.1
      omega
    · have hlt := hp.sockets tunnel₂ h₂
      have hlen := (hfresh tunnel' hnew).2.1
      omega
    · exact hone tunnel' tunnel'' hnew hnew₂
  · rcases htunnels tunnel' h' with ⟨tunnel, h, hhost, -, hsub⟩ | hnew
    · obtain ⟨hchost, hknown⟩ := hp.channels tunnel h client (hsub hc)
      exact ⟨hchost.trans hhost.symm, ho.known client hknown⟩
    · rw [(hfresh tunnel' hnew).1] at hc
      cases hc
  · rcases hhandlers handler hh with hold | hnew
    · have hfollows := hp.handlers handler hold
      cases handler with
      | update hostId socket workspaceIds stage => trivial
      | recheck hostId socket generation => trivial
      | hostFrame hostId socket client =>
        refine ⟨ho.known client hfollows.1, fun tunnel' h' hc => ?_⟩
        rcases htunnels tunnel' h' with ⟨tunnel, h, hhost, hsocket, hsub⟩ | hnew
        · rw [hhost, hsocket]
          exact hfollows.2 tunnel h (hsub hc)
        · rw [(hfresh tunnel' hnew).1] at hc
          cases hc
      | clientFrame hostId socket client stage => exact ho.known client hfollows
      | sweep clients => exact fun client hc => ho.known client (hfollows client hc)
    · exact hnew
  · obtain ⟨client, hc, hhost, hattachment⟩ := ho.attached client' hc'
    rw [hattachment, hhost]
    exact hp.attached client hc

/-- The registry: what a room holds of tunnels, clients and handlers. -/
structure SameRegistry (s s' : Room) : Prop where
  hostTunnels : s'.hostTunnels = s.hostTunnels
  clients : s'.clients = s.clients
  handlers : s'.handlers = s.handlers

theorem SameRegistry.refl (s : Room) : SameRegistry s s := ⟨rfl, rfl, rfl⟩

theorem SameRegistry.trans (h : SameRegistry s s') (h' : SameRegistry s' s'') : SameRegistry s s'' :=
  ⟨h'.hostTunnels.trans h.hostTunnels, h'.clients.trans h.clients, h'.handlers.trans h.handlers⟩

/-- What every tidy step keeps. -/
structure Whole (options : RoomOptions) (s : Room) : Prop where
  kept : ChannelsKept s
  placed : Placed options s

/-- Tunnels that hold what they held. -/
theorem channelsKept_of_same (hl : ChannelsKept s) (ho : Onward (fun i => ¬ s.Holds i) s s')
    (hafter : ∀ tunnel' ∈ s'.hostTunnels, ∃ tunnel ∈ s.hostTunnels, tunnel'.socket = tunnel.socket ∧
      tunnel'.channels = tunnel.channels)
    (hbefore : ∀ tunnel ∈ s.hostTunnels, ∃ tunnel' ∈ s'.hostTunnels, tunnel'.channels = tunnel.channels)
    (hclients : s'.clients = s.clients) : ChannelsKept s' := by
  refine ⟨fun tunnel' h' client hc => ?_, fun tunnel' h' channelId hopen => ?_, fun client hc => ?_⟩
  · obtain ⟨tunnel, h, -, hsame⟩ := hafter tunnel' h'
    rw [hsame] at hc
    obtain ⟨hmem, hopen⟩ := hl.held tunnel h client hc
    rw [hclients, ho.closed _ fun hnot => hnot ⟨tunnel, h, client, hc, rfl⟩]
    exact ⟨hmem, hopen⟩
  · obtain ⟨tunnel, h, hsocket, hsame⟩ := hafter tunnel' h'
    rw [hsocket] at hopen ⊢
    rw [hsame]
    rcases hl.told tunnel h channelId (ho.opened _ _ hopen) with hheld | hended
    · exact .inl hheld
    · exact .inr (ho.ended _ _ hended)
  · rw [hclients] at hc
    obtain ⟨tunnel, h, hmem⟩ := hl.clients client hc
    obtain ⟨tunnel', h', hsame⟩ := hbefore tunnel h
    exact ⟨tunnel', h', hsame ▸ hmem⟩

theorem Whole.of_same (hw : Whole options s) (ho : Onward (fun i => ¬ s.Holds i) s s')
    (htunnels : s'.hostTunnels = s.hostTunnels) (hclients : s'.clients = s.clients)
    (hhandlers : ∀ handler ∈ s'.handlers, handler ∈ s.handlers ∨ s'.Follows handler) : Whole options s' := by
  refine ⟨channelsKept_of_same hw.kept ho (fun tunnel h => ⟨tunnel, by rwa [← htunnels], rfl, rfl⟩)
    (fun tunnel h => ⟨tunnel, by rwa [htunnels], rfl⟩) hclients, ?_⟩
  refine hw.placed.of_onward ho (by rw [htunnels]; exact hw.placed.hosts) (fun _ => False) (fun _ h => h.elim)
    (fun _ _ h => h.elim) (fun tunnel h => .inl ⟨tunnel, by rwa [← htunnels], rfl, rfl, fun _ hc => hc⟩) hhandlers

theorem Whole.of_registry (hw : Whole options s) (ho : Onward (fun i => ¬ s.Holds i) s s') (hsame : SameRegistry s s') :
    Whole options s' :=
  hw.of_same ho hsame.hostTunnels hsame.clients fun handler h => .inl (by rwa [← hsame.handlers])

theorem Whole.start (hw : Whole options s) {handler : Handler} (h : s.Follows handler) : Whole options (s.start handler) := by
  refine hw.of_same (.of_eq rfl rfl fun _ h => h) rfl rfl fun other hother => ?_
  rcases List.mem_append.mp hother with hother | hother
  · exact .inl hother
  · rw [List.mem_singleton.mp hother]
    exact .inr (by cases handler <;> exact h)

/-- A channel that is gone from the tunnel that held it, the rest being as it was. -/
structure Dropped (client : HostTunnelClient) (s s' : Room) : Prop where
  hosts : (s'.hostTunnels.map HostTunnel.hostId).Nodup
  after : ∀ tunnel' ∈ s'.hostTunnels, ∃ tunnel ∈ s.hostTunnels, tunnel'.hostId = tunnel.hostId ∧ tunnel'.socket = tunnel.socket ∧
    tunnel'.channels = tunnel.channels.filter (·.channelId ≠ client.channelId)
  before : ∀ tunnel ∈ s.hostTunnels, ∃ tunnel' ∈ s'.hostTunnels,
    tunnel'.channels = tunnel.channels.filter (·.channelId ≠ client.channelId)
  clients : s'.clients = s.clients.filter (· ≠ client)
  handlers : s'.handlers = s.handlers

theorem dropped_deleteChannel (hp : Placed options s) (hknown : s.Known client)
    (honly : ∀ tunnel ∈ s.hostTunnels, client ∈ tunnel.channels → tunnel.hostId = hostId ∧ tunnel.socket = socket) :
    Dropped client s (s.deleteChannel hostId socket client) := by
  have hself : ∀ tunnel ∈ s.hostTunnels, s.current hostId socket ≠ some tunnel →
      tunnel.channels.filter (·.channelId ≠ client.channelId) = tunnel.channels := by
    intro tunnel h hother
    rw [List.filter_eq_self]
    intro other hmem
    rw [decide_eq_true_eq]
    intro hid
    obtain rfl := (hp.channels tunnel h other hmem).2.eq hknown hid
    obtain ⟨rfl, rfl⟩ := honly tunnel h hmem
    exact hother (current_eq_some.mpr ⟨hp.tunnel_of_mem h, rfl⟩)
  have hgone : ({ s with clients := s.clients.filter (· ≠ client) } : Room).current hostId socket = s.current hostId socket := rfl
  unfold deleteChannel
  dsimp only
  rw [hgone]
  rcases hcurrent : s.current hostId socket with _ | tunnel <;> dsimp only
  · refine ⟨hp.hosts, fun tunnel h => ⟨tunnel, h, rfl, rfl, ?_⟩, fun tunnel h => ⟨tunnel, h, ?_⟩, rfl, rfl⟩
    · rw [hself tunnel h (by rw [hcurrent]; rintro ⟨⟩)]
    · rw [hself tunnel h (by rw [hcurrent]; rintro ⟨⟩)]
  · obtain ⟨htunnel, hsocket⟩ := current_eq_some.mp hcurrent
    have hmem : tunnel ∈ s.hostTunnels := (Table.mem_of_get htunnel).1
    refine ⟨Table.nodup_keys_put hp.hosts, fun tunnel' h' => ?_, fun tunnel₂ h₂ => ?_, rfl, rfl⟩
    · rcases (mem_putTunnel (by exact hp.hosts)).mp h' with rfl | ⟨h', hne⟩
      · exact ⟨tunnel, hmem, rfl, rfl, rfl⟩
      · refine ⟨tunnel', h', rfl, rfl, (hself tunnel' h' ?_).symm⟩
        rw [hcurrent]
        rintro ⟨⟩
        exact hne rfl
    · by_cases heq : tunnel₂ = tunnel
      · exact ⟨_, (mem_putTunnel (by exact hp.hosts)).mpr (.inl rfl), by rw [heq]⟩
      · refine ⟨tunnel₂, (mem_putTunnel (by exact hp.hosts)).mpr (.inr ⟨h₂, fun hhost => heq ?_⟩), (hself tunnel₂ h₂ ?_).symm⟩
        · exact hp.eq_of_host h₂ hmem hhost
        · rw [hcurrent]
          rintro ⟨⟩
          exact heq rfl

/-- A channel is let go of with its host knowing that it ended. -/
theorem Whole.dropped (hw : Whole options s) (hknown : s.Known client) (hd : Dropped client s s')
    (ho : Onward (fun i => i = client.channelId ∨ ¬ s.Holds i) s s')
    (hended : ∀ tunnel ∈ s.hostTunnels, client ∈ tunnel.channels → s'.Ended tunnel.socket client.channelId) :
    Whole options s' := by
  have hl := hw.kept
  have hp := hw.placed
  refine ⟨⟨fun tunnel' h' other hc => ?_, fun tunnel' h' channelId hopen => ?_, fun other hc => ?_⟩, ?_⟩
  · obtain ⟨tunnel, h, -, -, hfilter⟩ := hd.after tunnel' h'
    rw [hfilter, List.mem_filter, decide_eq_true_eq] at hc
    obtain ⟨hmem, hopen⟩ := hl.held tunnel h other hc.1
    rw [hd.clients, List.mem_filter, decide_eq_true_eq, ho.closed]
    · exact ⟨⟨hmem, fun heq => hc.2 (congrArg HostTunnelClient.channelId heq)⟩, hopen⟩
    · rintro (heq | hnot)
      · exact hc.2 heq
      · exact hnot ⟨tunnel, h, other, hc.1, rfl⟩
  · obtain ⟨tunnel, h, -, hsocket, hfilter⟩ := hd.after tunnel' h'
    rw [hsocket] at hopen ⊢
    rw [hfilter]
    rcases hl.told tunnel h channelId (ho.opened _ _ hopen) with ⟨other, hmem, hid⟩ | hold
    · by_cases hsame : other.channelId = client.channelId
      · obtain rfl := (hp.channels tunnel h other hmem).2.eq hknown hsame
        rw [← hid]
        exact .inr (hended tunnel h hmem)
      · exact .inl ⟨other, List.mem_filter.mpr ⟨hmem, by rwa [decide_eq_true_eq]⟩, hid⟩
    · exact .inr (ho.ended _ _ hold)
  · rw [hd.clients, List.mem_filter, decide_eq_true_eq] at hc
    obtain ⟨tunnel, h, hmem⟩ := hl.clients other hc.1
    obtain ⟨tunnel', h', hfilter⟩ := hd.before tunnel h
    refine ⟨tunnel', h', ?_⟩
    rw [hfilter, List.mem_filter, decide_eq_true_eq]
    exact ⟨hmem, fun hid => hc.2 ((hp.channels tunnel h other hmem).2.eq hknown hid)⟩
  · refine hp.of_onward ho hd.hosts (fun _ => False) (fun _ h => h.elim) (fun _ _ h => h.elim) (fun tunnel' h' => .inl ?_)
      fun handler h => .inl (by rwa [← hd.handlers])
    obtain ⟨tunnel, h, hhost, hsocket, hfilter⟩ := hd.after tunnel' h'
    refine ⟨tunnel, h, hhost, hsocket, ?_⟩
    rw [hfilter]
    exact fun other hmem => (List.mem_filter.mp hmem).1

theorem deleteChannel_hostSockets (hostId : String) (socket : ℕ) (client : HostTunnelClient) (s : Room) :
    (s.deleteChannel hostId socket client).hostSockets = s.hostSockets ∧
      (s.deleteChannel hostId socket client).clientSockets = s.clientSockets ∧
      (s.deleteChannel hostId socket client).hostClosed = s.hostClosed := by
  unfold deleteChannel
  dsimp only
  split <;> exact ⟨rfl, rfl, rfl⟩

theorem onward_deleteChannel (hostId : String) (socket : ℕ) (client : HostTunnelClient) (s : Room) :
    Onward may s (s.deleteChannel hostId socket client) := by
  obtain ⟨hhosts, hclients, hended⟩ := deleteChannel_hostSockets hostId socket client s
  exact .of_eq hhosts hclients fun pair h => by rwa [hended]

theorem Dropped.of_same (hd : Dropped client s s') (hsame : SameRegistry s' s'') :
    Dropped client s s'' := by
  refine ⟨by rw [hsame.hostTunnels]; exact hd.hosts, fun tunnel h => hd.after tunnel (by rwa [← hsame.hostTunnels]), fun tunnel h => ?_,
    hsame.clients.trans hd.clients, hsame.handlers.trans hd.handlers⟩
  obtain ⟨tunnel', h', hfilter⟩ := hd.before tunnel h
  exact ⟨tunnel', by rwa [hsame.hostTunnels], hfilter⟩

theorem ended_tell (h : socket < s.hostSockets.length) (code : ℤ) (reason : String) :
    (s.tell socket (.wsClose channelId code reason)).Ended socket channelId :=
  .inl ⟨_, told_tell_self h _, code, reason, rfl⟩

theorem Whole.dropHostTunnelChannel (hw : Whole options s) (hknown : s.Known client)
    (honly : ∀ tunnel ∈ s.hostTunnels, client ∈ tunnel.channels → tunnel.hostId = hostId ∧ tunnel.socket = socket) (code : ℤ)
    (reason : String) :
    Whole options (s.dropHostTunnelChannel hostId socket client code reason) := by
  have hd := dropped_deleteChannel hw.placed hknown honly
  have ho : Onward (fun i => i = client.channelId ∨ ¬ s.Holds i) s (s.dropHostTunnelChannel hostId socket client code reason) :=
    ((onward_deleteChannel hostId socket client s).trans (onward_closeClientSocket (.inl rfl) code reason _)).trans
      (onward_tell socket (fun _ h => by cases h) _)
  refine hw.dropped hknown (hd.of_same ⟨rfl, rfl, rfl⟩) ho fun tunnel h hc => ?_
  obtain ⟨-, rfl⟩ := honly tunnel h hc
  refine ended_tell ?_ code reason
  change tunnel.socket < (s.deleteChannel hostId tunnel.socket client).hostSockets.length
  rw [(deleteChannel_hostSockets _ _ _ _).1]
  exact hw.placed.sockets tunnel h

theorem activeHostTunnelClient_eq_some (h : s.activeHostTunnelClient channelId = some (tunnel, client)) :
    tunnel ∈ s.hostTunnels ∧ client ∈ tunnel.channels ∧ client.channelId = channelId := by
  obtain ⟨tunnel', h', hfind⟩ := List.exists_of_findSome?_eq_some h
  obtain ⟨client', hclient', heq⟩ := Option.map_eq_some_iff.mp hfind
  cases heq
  exact ⟨h', List.mem_of_find?_eq_some hclient', by simpa using List.find?_some hclient'⟩

theorem not_holds_of_none (h : s.activeHostTunnelClient channelId = none) : ¬ s.Holds channelId := by
  rintro ⟨tunnel, hmem, client, hc, rfl⟩
  have hnone := List.findSome?_eq_none_iff.mp h tunnel hmem
  rw [Option.map_eq_none_iff, List.find?_eq_none] at hnone
  exact hnone client hc (by simp)

theorem Placed.only (hp : Placed options s) (h : tunnel ∈ s.hostTunnels) (hc : client ∈ tunnel.channels) :
    ∀ tunnel' ∈ s.hostTunnels, client ∈ tunnel'.channels →
      tunnel'.hostId = tunnel.hostId ∧ tunnel'.socket = tunnel.socket := by
  intro tunnel' h' hc'
  obtain ⟨rfl, -⟩ := hp.eq_of_channel h' h hc' hc rfl
  exact ⟨rfl, rfl⟩

theorem Placed.of_registry (hp : Placed options s) (ho : Onward may s s') (hsame : SameRegistry s s') : Placed options s' :=
  hp.of_onward ho (by rw [hsame.hostTunnels]; exact hp.hosts) (fun _ => False) (fun _ h => h.elim) (fun _ _ h => h.elim)
    (fun tunnel h => .inl ⟨tunnel, by rwa [← hsame.hostTunnels], rfl, rfl, fun _ hc => hc⟩)
    fun handler h => .inl (by rwa [← hsame.handlers])

theorem Dropped.after_same (hsame : SameRegistry s s') (hd : Dropped client s' s'') :
    Dropped client s s'' := by
  refine ⟨hd.hosts, fun tunnel h => ?_, fun tunnel h => hd.before tunnel (by rwa [hsame.hostTunnels]), ?_,
    hd.handlers.trans hsame.handlers⟩
  · have hafter := hd.after tunnel h
    rwa [hsame.hostTunnels] at hafter
  · rw [hd.clients, hsame.clients]

theorem Whole.cleanupHostTunnelClient (hw : Whole options s) (ho : Onward (fun i => i = channelId) s s')
    (hsame : SameRegistry s s') (code : Option ℤ) (reason : Option String) :
    Whole options (s'.cleanupHostTunnelClient channelId code reason) := by
  unfold Room.cleanupHostTunnelClient
  have hactive : s'.activeHostTunnelClient channelId = s.activeHostTunnelClient channelId := by
    rw [activeHostTunnelClient, hsame.hostTunnels, activeHostTunnelClient]
  rcases hfound : s.activeHostTunnelClient channelId with _ | ⟨tunnel, client⟩ <;> rw [hactive, hfound] <;> dsimp only
  · refine hw.of_registry (ho.mono ?_) hsame
    rintro i rfl
    exact not_holds_of_none hfound
  · obtain ⟨hmem, hc, rfl⟩ := activeHostTunnelClient_eq_some hfound
    obtain ⟨-, hknown⟩ := hw.placed.channels tunnel hmem client hc
    have honly := hw.placed.only hmem hc
    have hd : Dropped client s (s'.deleteChannel tunnel.hostId tunnel.socket client) := by
      refine (dropped_deleteChannel (hw.placed.of_registry ho hsame) (ho.known client hknown) ?_).after_same hsame
      rw [hsame.hostTunnels]
      exact honly
    refine hw.dropped hknown (hd.of_same ⟨rfl, rfl, rfl⟩) ?_ fun tunnel' h' hc' => ?_
    · have hclosed : Onward (fun i => i = client.channelId ∨ ¬ s.Holds i) s (s'.deleteChannel tunnel.hostId tunnel.socket client) :=
        (ho.trans (onward_deleteChannel tunnel.hostId tunnel.socket client s')).mono fun i hi => .inl hi
      exact hclosed.trans (onward_tell _ (fun _ h => by cases h) _)
    · obtain ⟨-, hsocket⟩ := honly tunnel' h' hc'
      rw [hsocket]
      refine ended_tell ?_ _ _
      rw [(deleteChannel_hostSockets _ _ _ _).1]
      exact Nat.lt_of_lt_of_le (hw.placed.sockets tunnel hmem) ho.size

theorem Whole.hostClosesChannel (hw : Whole options s) (h : tunnel ∈ s.hostTunnels) (channelId : ℕ) (code : ℤ) (reason : String) :
    Whole options (s.hostClosesChannel tunnel channelId code reason) := by
  unfold Room.hostClosesChannel
  split
  · exact hw
  · rename_i client hfound
    have hc := List.mem_of_find?_eq_some hfound
    obtain rfl : client.channelId = channelId := by simpa using List.find?_some hfound
    obtain ⟨-, hknown⟩ := hw.placed.channels tunnel h client hc
    have honly := hw.placed.only h hc
    have hd := dropped_deleteChannel hw.placed hknown honly
    have ho : Onward (fun i => i = client.channelId ∨ ¬ s.Holds i) s _ :=
      (onward_deleteChannel tunnel.hostId tunnel.socket client s).trans (onward_closeClientSocket (.inl rfl) code reason _)
    refine hw.dropped hknown (hd.of_same ⟨rfl, rfl, rfl⟩)
      (ho.trans (.of_eq rfl rfl fun pair hpair => List.mem_append_left _ hpair)) fun tunnel' h' hc' => ?_
    obtain ⟨-, hsocket⟩ := honly tunnel' h' hc'
    rw [hsocket]
    exact .inr (List.mem_append_right _ (List.mem_singleton_self _))

theorem Whole.handleTunnelMessage (hw : Whole options s) (hostId : String) (socket : ℕ) (message : FromHost) :
    Whole options (s.handleTunnelMessage hostId socket message) := by
  unfold Room.handleTunnelMessage
  rcases hcurrent : s.current hostId socket with _ | tunnel <;> dsimp only
  · exact hw
  · obtain ⟨htunnel, hsocket⟩ := current_eq_some.mp hcurrent
    have hmem : tunnel ∈ s.hostTunnels := (Table.mem_of_get htunnel).1
    cases message with
    | registrationUpdate workspaceIds => exact hw.start trivial
    | wsFrame channelId =>
      dsimp only
      split
      · exact hw
      · rename_i client hfound
        have hc := List.mem_of_find?_eq_some hfound
        refine hw.start ⟨(hw.placed.channels tunnel hmem client hc).2, ?_⟩
        rw [← tunnel_hostId htunnel, ← hsocket]
        exact hw.placed.only hmem hc
    | wsClose channelId code reason => exact hw.hostClosesChannel hmem _ _ _
    | channelError channelId message => exact hw.hostClosesChannel hmem _ _ _

theorem Whole.closeClientSocket (hw : Whole options s) (h : ¬ s.Holds channelId) (code : ℤ) (reason : String) :
    Whole options (s.closeClientSocket channelId code reason) :=
  hw.of_registry (onward_closeClientSocket h code reason s) ⟨rfl, rfl, rfl⟩

theorem Whole.deliverHostFrame (hw : Whole options s) (hfollows : s.Follows (.hostFrame hostId socket client))
    {token : TokenActive} {sent : Bool} (ht : (Handler.hostFrame hostId socket client).Tidy s (.token token sent)) :
    Whole options (s.deliverHostFrame hostId socket client token sent) := by
  cases token with
  | active =>
    simp only [Room.deliverHostFrame]
    split
    · exact hw
    · exact hw.dropHostTunnelChannel hfollows.1 hfollows.2 _ _
  | inactive reason unreachable =>
    have hnot : ¬ s.Holds client.channelId := ht
    have hd := dropped_deleteChannel hw.placed hfollows.1 hfollows.2
    refine hw.dropped hfollows.1 (hd.of_same ⟨rfl, rfl, rfl⟩)
      ((onward_deleteChannel _ _ _ _).trans (onward_closeClientSocket (.inl rfl) _ _ _)) fun tunnel h hc => ?_
    exact absurd ⟨tunnel, h, client, hc, rfl⟩ hnot
  | threw => exact hw.of_registry (onward_closeHostSocket _ _ _ _) ⟨rfl, rfl, rfl⟩

theorem Whole.deliverClientFrame (hw : Whole options s) (hknown : s.Known client) {stage : ClientFrameStage} {answer : Answer}
    (ht : s.Holds client.channelId → Passes stage answer = true) :
    Whole options (s.deliverClientFrame hostId socket client stage answer) := by
  have hclose : Passes stage answer = false → ∀ code reason, Whole options (s.closeClientSocket client.channelId code reason) := by
    intro hfails
    refine hw.closeClientSocket fun hholds => ?_
    rw [ht hholds] at hfails
    cases hfails
  unfold Room.deliverClientFrame
  split
  · exact hw.start hknown
  · exact hclose rfl _ _
  · exact hclose rfl _ _
  · exact hw.start hknown
  · exact hclose rfl _ _
  · exact hclose rfl _ _
  · split
    · exact hw.of_registry (onward_tell _ (fun _ h => by cases h) _) ⟨rfl, rfl, rfl⟩
    · rename_i hsent
      exact hclose (by simpa [Passes] using hsent) _ _
  · exact hw
  · exact hclose rfl _ _
  · exact hw

theorem Whole.sweepClient (hw : Whole options s) (hknown : s.Known client) (token : TokenActive) :
    Whole options (s.sweepClient client token) := by
  cases token with
  | active => exact hw
  | inactive reason unreachable =>
    simp only [Room.sweepClient]
    split
    · exact hw
    · unfold revoke
      rcases hfound : s.activeHostTunnelClient client.channelId with _ | ⟨tunnel, other⟩ <;> dsimp only
      · have hnot := not_holds_of_none hfound
        refine hw.of_registry ?_ ⟨rfl, ?_, rfl⟩
        · exact (onward_closeClientSocket hnot 1008 reason s).trans (.of_eq rfl rfl fun _ h => h)
        · change s.clients.filter (· ≠ client) = s.clients
          rw [List.filter_eq_self]
          intro other hother
          rw [decide_eq_true_eq]
          rintro rfl
          obtain ⟨tunnel, h, hc⟩ := hw.kept.clients other hother
          exact hnot ⟨tunnel, h, other, hc, rfl⟩
      · obtain ⟨hmem, hc, hid⟩ := activeHostTunnelClient_eq_some hfound
        obtain rfl := (hw.placed.channels tunnel hmem other hc).2.eq hknown hid
        exact hw.dropHostTunnelChannel hknown (hw.placed.only hmem hc) _ _
  | threw => exact hw

theorem onward_sweepClient (client : HostTunnelClient) (token : TokenActive) (s : Room) :
    Onward (fun _ => True) s (s.sweepClient client token) := by
  unfold Room.sweepClient
  split
  · split
    · exact .refl _ s
    · unfold revoke
      split
      · exact ((onward_deleteChannel _ _ _ _).trans (onward_closeClientSocket trivial _ _ _)).trans
          (onward_tell _ (fun _ h => by cases h) _)
      · exact (onward_closeClientSocket trivial 1008 _ s).trans (.of_eq rfl rfl fun _ h => h)
  · exact .refl _ s
  · exact .refl _ s

theorem told_of_length_le (h : s.hostSockets.length ≤ socket) : s.told socket = [] := by
  rw [told, List.getElem?_eq_none h]
  rfl

/-- The tunnel of a host goes with all its channels; one that comes in its place has a socket of its own and no channels. -/
theorem Whole.replaced (hw : Whole options s) (hostId : String)
    (ho : Onward (fun i => ∃ tunnel ∈ s.hostTunnels, tunnel.hostId = hostId ∧ ∃ client ∈ tunnel.channels, client.channelId = i) s s')
    (hhosts : (s'.hostTunnels.map HostTunnel.hostId).Nodup)
    (hafter : ∀ tunnel' ∈ s'.hostTunnels, (tunnel' ∈ s.hostTunnels ∧ tunnel'.hostId ≠ hostId) ∨ (tunnel'.hostId = hostId ∧
      tunnel'.channels = [] ∧ tunnel'.socket = s.hostSockets.length ∧ tunnel'.socket < s'.hostSockets.length))
    (hbefore : ∀ tunnel ∈ s.hostTunnels, tunnel.hostId ≠ hostId → tunnel ∈ s'.hostTunnels)
    (hclients : ∀ client, client ∈ s'.clients ↔
      client ∈ s.clients ∧ ∀ tunnel ∈ s.hostTunnels, tunnel.hostId = hostId → client ∉ tunnel.channels)
    (hhandlers : s'.handlers = s.handlers) : Whole options s' := by
  have hl := hw.kept
  have hp := hw.placed
  refine ⟨⟨fun tunnel' h' client hc => ?_, fun tunnel' h' channelId hopen => ?_, fun client hc => ?_⟩, ?_⟩
  · rcases hafter tunnel' h' with ⟨h, hne⟩ | ⟨-, hnone, -⟩
    · obtain ⟨hmem, hopen⟩ := hl.held tunnel' h client hc
      rw [hclients, ho.closed]
      · refine ⟨⟨hmem, fun tunnel ht hhost hc' => ?_⟩, hopen⟩
        obtain ⟨rfl, -⟩ := hp.eq_of_channel h ht hc hc' rfl
        exact hne hhost
      · rintro ⟨tunnel, ht, hhost, other, hc', hid⟩
        obtain ⟨rfl, -⟩ := hp.eq_of_channel h ht hc hc' hid.symm
        exact hne hhost
    · rw [hnone] at hc
      cases hc
  · have hopen' := ho.opened _ _ hopen
    rcases hafter tunnel' h' with ⟨h, -⟩ | ⟨-, -, hsocket, -⟩
    · rcases hl.told tunnel' h channelId hopen' with hheld | hended
      · exact .inl hheld
      · exact .inr (ho.ended _ _ hended)
    · rw [hsocket, told_of_length_le (Nat.le_refl _)] at hopen'
      cases hopen'
  · obtain ⟨hmem, hother⟩ := (hclients client).mp hc
    obtain ⟨tunnel, h, hc'⟩ := hl.clients client hmem
    exact ⟨tunnel, hbefore tunnel h fun hhost => hother tunnel h hhost hc', hc'⟩
  · refine hp.of_onward ho hhosts (fun tunnel' => tunnel'.hostId = hostId ∧ tunnel'.channels = [] ∧
      tunnel'.socket = s.hostSockets.length ∧ tunnel'.socket < s'.hostSockets.length) (fun _ h => h.2)
      (fun _ _ h h' => h.1.trans h'.1.symm) (fun tunnel' h' => ?_) fun handler h => .inl (by rwa [← hhandlers])
    rcases hafter tunnel' h' with ⟨h, -⟩ | hnew
    · exact .inl ⟨tunnel', h, rfl, rfl, fun _ hc => hc⟩
    · exact .inr hnew

theorem sameRegistry_foldl {α : Type} {f : Room → α → Room} (hf : ∀ s a, SameRegistry s (f s a)) (as : List α) (s : Room) :
    SameRegistry s (as.foldl f s) := by
  induction as generalizing s with
  | nil => exact .refl s
  | cons a as ih => exact (hf s a).trans (ih (f s a))

theorem onward_foldl {α : Type} {f : Room → α → Room} {as : List α} (hf : ∀ s, ∀ a ∈ as, Onward may s (f s a)) (s : Room) :
    Onward may s (as.foldl f s) := by
  induction as generalizing s with
  | nil => exact .refl may s
  | cons a as ih => exact (hf s a List.mem_cons_self).trans (ih (fun s b hb => hf s b (List.mem_cons_of_mem a hb)) (f s a))

theorem cleanupTunnelResources_registry (tunnel : HostTunnel) (reason : String) (s : Room) :
    SameRegistry { s with clients := s.clients.filter (· ∉ tunnel.channels) } (s.cleanupTunnelResources tunnel reason) := by
  unfold cleanupTunnelResources
  refine sameRegistry_foldl ?_ _ _
  exact fun _ _ => ⟨rfl, rfl, rfl⟩

theorem onward_cleanupTunnelResources (h : ∀ client ∈ tunnel.channels, may client.channelId) (reason : String) (s : Room) :
    Onward may s (s.cleanupTunnelResources tunnel reason) := by
  have hforgotten : Onward may s { s with clients := s.clients.filter (· ∉ tunnel.channels) } := .of_eq rfl rfl fun _ h => h
  unfold cleanupTunnelResources
  refine hforgotten.trans (onward_foldl ?_ _)
  exact fun s client hc => onward_closeClientSocket (h client hc) _ _ _

theorem Placed.mem_clients (hp : Placed options s) (h : tunnel ∈ s.hostTunnels) (client : HostTunnelClient) :
    client ∈ s.clients.filter (· ∉ tunnel.channels) ↔
      client ∈ s.clients ∧ ∀ other ∈ s.hostTunnels, other.hostId = tunnel.hostId → client ∉ other.channels := by
  rw [List.mem_filter, decide_eq_true_eq]
  refine and_congr_right fun _ => ⟨fun hnot other hother hhost => ?_, fun hall => hall tunnel h rfl⟩
  obtain rfl := hp.eq_of_host hother h hhost
  exact hnot

theorem Whole.cleanupHostTunnel (hw : Whole options s) (hostId : String) (socket : ℕ) (reason : String) :
    Whole options (s.cleanupHostTunnel hostId socket reason) := by
  unfold Room.cleanupHostTunnel
  rcases hcurrent : s.current hostId socket with _ | tunnel <;> dsimp only
  · exact hw
  · obtain ⟨htunnel, -⟩ := current_eq_some.mp hcurrent
    have hmem : tunnel ∈ s.hostTunnels := (Table.mem_of_get htunnel).1
    obtain rfl := tunnel_hostId htunnel
    obtain ⟨hsame, hclients, hhandlers⟩ := cleanupTunnelResources_registry tunnel reason s
    have ho : Onward (fun i => ∃ other ∈ s.hostTunnels, other.hostId = tunnel.hostId ∧
        ∃ client ∈ other.channels, client.channelId = i) s (s.cleanupTunnelResources tunnel reason) :=
      onward_cleanupTunnelResources (fun client hc => ⟨tunnel, hmem, rfl, client, hc, rfl⟩) reason s
    refine hw.replaced tunnel.hostId (ho.trans (.of_eq rfl rfl fun _ h => h)) ?_ (fun tunnel' h' => .inl ?_)
      (fun other h hne => ?_) (fun client => ?_) hhandlers
    · rw [hsame]
      exact (List.Sublist.map _ List.filter_sublist).nodup hw.placed.hosts
    · rw [hsame, List.mem_filter, decide_eq_true_eq] at h'
      exact h'
    · rw [hsame, List.mem_filter, decide_eq_true_eq]
      exact ⟨h, hne⟩
    · rw [hclients]
      exact hw.placed.mem_clients hmem client

theorem Whole.refuse (hw : Whole options s) (hostId : String) (socket : ℕ) (code : ℤ) (reason : String) :
    Whole options (s.refuse hostId socket code reason) :=
  (hw.cleanupHostTunnel hostId socket reason).of_registry (onward_closeHostSocket _ _ _ _) ⟨rfl, rfl, rfl⟩

/-- A tunnel is registered where the one of its host, if any, has been cleaned up. -/
theorem Whole.putTunnel (hw : Whole options s) (hnone : tunnel.channels = []) (hsocket : tunnel.socket = s.hostSockets.length)
    (hlength : s.hostSockets.length < s'.hostSockets.length)
    (ho : Onward (fun i => ∃ other ∈ s.hostTunnels, other.hostId = tunnel.hostId ∧ ∃ client ∈ other.channels, client.channelId = i) s s')
    (hsame : s'.hostTunnels = s.hostTunnels)
    (hclients : ∀ client, client ∈ s'.clients ↔ client ∈ s.clients ∧ ∀ other ∈ s.hostTunnels,
      other.hostId = tunnel.hostId → client ∉ other.channels)
    (hhandlers : s'.handlers = s.handlers) : Whole options (s'.putTunnel tunnel) := by
  have hnodup : (s'.hostTunnels.map HostTunnel.hostId).Nodup := by
    rw [hsame]
    exact hw.placed.hosts
  refine hw.replaced tunnel.hostId (ho.trans (.of_eq rfl rfl fun _ h => h)) (Table.nodup_keys_put hnodup) (fun tunnel' h' => ?_)
    (fun other h hne => ?_) hclients hhandlers
  · rcases (mem_putTunnel hnodup).mp h' with rfl | ⟨h', hne⟩
    · refine .inr ⟨rfl, hnone, hsocket, ?_⟩
      rw [hsocket]
      exact hlength
    · exact .inl ⟨hsame ▸ h', hne⟩
  · exact (mem_putTunnel hnodup).mpr (.inr ⟨hsame.symm ▸ h, hne⟩)

theorem Whole.admitHostTunnel (hw : Whole options s) (hostId : String) (workspaceIds : List String)
    (claims : HostTunnelTokenClaims) (now : ℕ) : Whole options (s.admitHostTunnel options hostId workspaceIds claims now) := by
  unfold Room.admitHostTunnel
  dsimp only
  split
  · exact hw
  · generalize hhost : ({ hostId := hostId, attachment := _ } : HostSocket) = host
    have hlength : s.hostSockets.length < (s.hostSockets ++ [host]).length := by
      rw [List.length_append, List.length_singleton]
      omega
    have hopen : host.told = [] := by rw [← hhost]
    rcases hprevious : s.tunnel hostId with _ | previous <;> dsimp only
    · have hnone : ∀ other ∈ s.hostTunnels, other.hostId ≠ hostId := Table.get_eq_none_iff.mp hprevious
      refine hw.putTunnel rfl rfl hlength (onward_accept host hopen s) rfl (fun client => ?_) rfl
      exact ⟨fun h => ⟨h, fun other ho hsame => absurd hsame (hnone other ho)⟩, fun h => h.1⟩
    · have hmem : previous ∈ s.hostTunnels := (Table.mem_of_get hprevious).1
      have hprevhost : previous.hostId = hostId := tunnel_hostId hprevious
      have hcleaned : Onward (fun i => ∃ other ∈ s.hostTunnels, other.hostId = hostId ∧
          ∃ client ∈ other.channels, client.channelId = i) { s with hostSockets := s.hostSockets ++ [host] } _ :=
        (onward_cleanupTunnelResources (fun client hc => ⟨previous, hmem, hprevhost, client, hc, rfl⟩)
          "Host tunnel replaced" _).trans (onward_closeHostSocket previous.socket 1012 "Host tunnel replaced" _)
      obtain ⟨hsame, hclients, hhandlers⟩ :=
        cleanupTunnelResources_registry previous "Host tunnel replaced" { s with hostSockets := s.hostSockets ++ [host] }
      refine hw.putTunnel rfl rfl (Nat.lt_of_lt_of_le hlength hcleaned.size) ((onward_accept host hopen s).trans hcleaned) hsame
        (fun client => ?_) hhandlers
      rw [← hprevhost]
      refine Iff.trans (Iff.of_eq ?_) (hw.placed.mem_clients hmem client)
      exact congrArg (client ∈ ·) hclients

/-- A registration that is written again keeps its channels. -/
theorem Whole.replace (hw : Whole options s) (h : s.tunnel hostId = some tunnel) (hhost : tunnel'.hostId = tunnel.hostId)
    (hsocket : tunnel'.socket = tunnel.socket) (hchannels : tunnel'.channels = tunnel.channels) :
    Whole options ((s.putTunnel tunnel').attach tunnel') := by
  have hmem : tunnel ∈ s.hostTunnels := (Table.mem_of_get h).1
  have hput : Onward (fun i => ¬ s.Holds i) s (s.putTunnel tunnel') := .of_eq rfl rfl fun _ h => h
  have ho := hput.trans (onward_attach tunnel' (s.putTunnel tunnel'))
  have hafter : ∀ other' ∈ (s.putTunnel tunnel').hostTunnels, ∃ other ∈ s.hostTunnels, other'.hostId = other.hostId ∧
      other'.socket = other.socket ∧ other'.channels = other.channels := by
    intro other' h'
    rcases (mem_putTunnel hw.placed.hosts).mp h' with rfl | ⟨h', -⟩
    · exact ⟨tunnel, hmem, hhost, hsocket, hchannels⟩
    · exact ⟨other', h', rfl, rfl, rfl⟩
  refine ⟨channelsKept_of_same hw.kept ho (fun other' h' => ?_) (fun other hother => ?_) rfl, ?_⟩
  · obtain ⟨other, hother, -, hsame⟩ := hafter other' h'
    exact ⟨other, hother, hsame⟩
  · by_cases heq : other.hostId = tunnel'.hostId
    · obtain rfl := hw.placed.eq_of_host hother hmem (heq.trans hhost)
      exact ⟨tunnel', (mem_putTunnel hw.placed.hosts).mpr (.inl rfl), hchannels⟩
    · exact ⟨other, (mem_putTunnel hw.placed.hosts).mpr (.inr ⟨hother, heq⟩), rfl⟩
  · refine hw.placed.of_onward ho (Table.nodup_keys_put hw.placed.hosts) (fun _ => False) (fun _ h => h.elim)
      (fun _ _ h => h.elim) (fun other' h' => .inl ?_) fun handler h => .inl h
    obtain ⟨other, hother, hsameHost, hsameSocket, hsameChannels⟩ := hafter other' h'
    exact ⟨other, hother, hsameHost, hsameSocket, fun client hc => hsameChannels ▸ hc⟩

theorem Whole.verifiedUpdate (hw : Whole options s) (hostId : String) (socket : ℕ) (workspaceIds : List String)
    (claims : Option HostTunnelTokenClaims) : Whole options (s.verifiedUpdate hostId socket workspaceIds claims) := by
  unfold Room.verifiedUpdate
  split
  · exact hw
  · split
    · exact hw.refuse _ _ _ _
    · split
      · exact hw.refuse _ _ _ _
      · exact hw.start trivial

theorem Whole.applyRegistrationUpdate (hw : Whole options s) (hostId : String) (socket : ℕ) (workspaceIds : List String)
    (claims : HostTunnelTokenClaims) (answer : GenerationAnswer) :
    Whole options (s.applyRegistrationUpdate hostId socket workspaceIds claims answer) := by
  unfold Room.applyRegistrationUpdate
  rcases hcurrent : s.current hostId socket with _ | tunnel <;> dsimp only
  · exact hw
  · split
    · exact hw.refuse _ _ _ _
    · exact hw.replace (current_eq_some.mp hcurrent).1 rfl rfl rfl

theorem Whole.recheckHostGeneration (hw : Whole options s) (hostId : String) (socket generation : ℕ) (answer : GenerationAnswer) :
    Whole options (s.recheckHostGeneration options hostId socket generation answer) := by
  unfold Room.recheckHostGeneration
  rcases hcurrent : s.current hostId socket with _ | tunnel <;> dsimp only
  · exact hw
  · have htunnel := (current_eq_some.mp hcurrent).1
    rcases checkHostTunnelGeneration answer generation with _ | ⟨_ | _, code, reason⟩ <;> dsimp only
    · split
      · exact hw
      · exact hw.replace htunnel rfl rfl rfl
    · exact hw.refuse _ _ _ _
    · split
      · exact hw.replace htunnel rfl rfl rfl
      · exact hw.refuse _ _ _ _

theorem Known.lt (h : s.Known client) : client.channelId < s.clientSockets.length := by
  obtain ⟨socket, hget, -⟩ := Option.map_eq_some_iff.mp h
  exact (List.getElem?_eq_some_iff.mp hget).1

/-- A room whose hosts were told of channels that are still to be held, those of `left`. -/
structure Opening (options : RoomOptions) (left : List ℕ) (s : Room) : Prop where
  held : ∀ tunnel ∈ s.hostTunnels, ∀ client ∈ tunnel.channels, client ∈ s.clients ∧ s.clientClosed client.channelId = false
  told : ∀ tunnel ∈ s.hostTunnels, ∀ channelId, .wsOpen channelId ∈ s.told tunnel.socket →
    (∃ client ∈ tunnel.channels, client.channelId = channelId) ∨ s.Ended tunnel.socket channelId ∨
      channelId ∈ left ∧ s.Known { channelId := channelId, hostId := tunnel.hostId }
  clients : ∀ client ∈ s.clients, ∃ tunnel ∈ s.hostTunnels, client ∈ tunnel.channels
  placed : Placed options s

theorem Whole.opening (hw : Whole options s) (left : List ℕ) : Opening options left s :=
  ⟨hw.kept.held, fun tunnel h channelId hopen => (hw.kept.told tunnel h channelId hopen).imp_right .inl, hw.kept.clients, hw.placed⟩

theorem Opening.whole (hw : Opening options [] s) : Whole options s := by
  refine ⟨⟨hw.held, fun tunnel h channelId hopen => ?_, hw.clients⟩, hw.placed⟩
  rcases hw.told tunnel h channelId hopen with hheld | hended | ⟨hmem, -⟩
  · exact .inl hheld
  · exact .inr hended
  · cases hmem

theorem mem_put_client {other : HostTunnelClient} {clients : List HostTunnelClient} (hclient : s.Known client)
    (hother : s.Known other) (h : other ∈ clients) : other ∈ Table.put HostTunnelClient.channelId client clients := by
  by_cases hid : other.channelId = client.channelId
  · rw [hother.eq hclient hid]
    exact Table.put_mem _ _
  · exact Table.mem_put_of_mem hid h

/-- A tunnel takes a channel whose client is there. -/
theorem Opening.hold (hw : Opening options (client.channelId :: left) s) (h : s.tunnel client.hostId = some tunnel)
    (hknown : s.Known client) (hopen : s.clientClosed client.channelId = false)
    (hhandlers : ∀ hostId socket, .hostFrame hostId socket client ∉ s.handlers) :
    Opening options left ({ s with clients := Table.put HostTunnelClient.channelId client s.clients }.putTunnel
      { tunnel with channels := Table.put HostTunnelClient.channelId client tunnel.channels }) := by
  have hp := hw.placed
  have hmem : tunnel ∈ s.hostTunnels := (Table.mem_of_get h).1
  have hhost : tunnel.hostId = client.hostId := tunnel_hostId h
  have hput : ∀ other, other ∈ ({ s with clients := Table.put HostTunnelClient.channelId client s.clients }.putTunnel
      { tunnel with channels := Table.put HostTunnelClient.channelId client tunnel.channels }).hostTunnels ↔
      other = { tunnel with channels := Table.put HostTunnelClient.channelId client tunnel.channels } ∨
        other ∈ s.hostTunnels ∧ other.hostId ≠ tunnel.hostId := fun other => mem_putTunnel hp.hosts
  have hclients : ∀ other ∈ s.clients, s.Known other := by
    intro other hother
    obtain ⟨tunnel', h', hc⟩ := hw.clients other hother
    exact (hp.channels tunnel' h' other hc).2
  refine ⟨fun tunnel' h' other hc => ?_, fun tunnel' h' channelId htold => ?_, fun other hother => ?_, ?_⟩
  · rcases (hput tunnel').mp h' with rfl | ⟨h', -⟩
    · rcases Table.mem_put hc with rfl | hc
      · exact ⟨Table.put_mem _ _, hopen⟩
      · obtain ⟨hheld, hlive⟩ := hw.held tunnel hmem other hc
        exact ⟨mem_put_client hknown (hp.channels tunnel hmem other hc).2 hheld, hlive⟩
    · obtain ⟨hheld, hlive⟩ := hw.held tunnel' h' other hc
      exact ⟨mem_put_client hknown (hp.channels tunnel' h' other hc).2 hheld, hlive⟩
  · rcases (hput tunnel').mp h' with rfl | ⟨h', hne⟩
    · rcases hw.told tunnel hmem channelId htold with ⟨other, hc, hid⟩ | hended | ⟨hleft, hheld⟩
      · exact .inl ⟨other, mem_put_client hknown (hp.channels tunnel hmem other hc).2 hc, hid⟩
      · exact .inr (.inl hended)
      · rcases List.mem_cons.mp hleft with rfl | hleft
        · exact .inl ⟨client, Table.put_mem _ _, rfl⟩
        · exact .inr (.inr ⟨hleft, hheld⟩)
    · rcases hw.told tunnel' h' channelId htold with hheld | hended | ⟨hleft, hheld⟩
      · exact .inl hheld
      · exact .inr (.inl hended)
      · rcases List.mem_cons.mp hleft with rfl | hleft
        · exact absurd (congrArg HostTunnelClient.hostId (hheld.eq hknown rfl)) fun heq => hne (heq.trans hhost.symm)
        · exact .inr (.inr ⟨hleft, hheld⟩)
  · rcases Table.mem_put hother with rfl | hother
    · exact ⟨_, (hput _).mpr (.inl rfl), Table.put_mem _ _⟩
    · obtain ⟨tunnel', h', hc⟩ := hw.clients other hother
      by_cases hsame : tunnel'.hostId = tunnel.hostId
      · obtain rfl := hp.eq_of_host h' hmem hsame
        exact ⟨_, (hput _).mpr (.inl rfl), mem_put_client hknown (hp.channels tunnel' h' other hc).2 hc⟩
      · exact ⟨tunnel', (hput _).mpr (.inr ⟨h', hsame⟩), hc⟩
  · have hbefore : ∀ tunnel' ∈ ({ s with clients := Table.put HostTunnelClient.channelId client s.clients }.putTunnel
        { tunnel with channels := Table.put HostTunnelClient.channelId client tunnel.channels }).hostTunnels,
        ∃ before ∈ s.hostTunnels, tunnel'.hostId = before.hostId ∧ tunnel'.socket = before.socket ∧
          ∀ other ∈ tunnel'.channels, other = client ∧ before.hostId = client.hostId ∨ other ∈ before.channels := by
      intro tunnel' h'
      rcases (hput tunnel').mp h' with rfl | ⟨h', -⟩
      · exact ⟨tunnel, hmem, rfl, rfl, fun other hc => (Table.mem_put hc).imp_left fun heq => ⟨heq, hhost⟩⟩
      · exact ⟨tunnel', h', rfl, rfl, fun other hc => .inr hc⟩
    refine ⟨Table.nodup_keys_put hp.hosts, fun tunnel' h' => ?_, fun tunnel' h' tunnel'' h'' hsocket => ?_,
      fun tunnel' h' other hc => ?_, fun handler hh => ?_, hp.attached⟩
    · obtain ⟨before, hb, -, hsocket, -⟩ := hbefore tunnel' h'
      rw [hsocket]
      exact hp.sockets before hb
    · obtain ⟨before, hb, hhost', hsocket', -⟩ := hbefore tunnel' h'
      obtain ⟨before', hb', hhost'', hsocket'', -⟩ := hbefore tunnel'' h''
      rw [hhost', hhost'']
      exact hp.distinct before hb before' hb' (by rw [← hsocket', ← hsocket'', hsocket])
    · obtain ⟨before, hb, hhost', -, hchannels⟩ := hbefore tunnel' h'
      rcases hchannels other hc with ⟨rfl, hsame⟩ | hc
      · exact ⟨(hhost'.trans hsame).symm, hknown⟩
      · obtain ⟨hsame, hother⟩ := hp.channels before hb other hc
        exact ⟨hsame.trans hhost'.symm, hother⟩
    · have hfollows := hp.handlers handler hh
      cases handler with
      | update hostId socket workspaceIds stage => trivial
      | recheck hostId socket generation => trivial
      | hostFrame hostId socket other =>
        refine ⟨hfollows.1, fun tunnel' h' hc => ?_⟩
        obtain ⟨before, hb, hhost', hsocket', hchannels⟩ := hbefore tunnel' h'
        rcases hchannels other hc with ⟨rfl, -⟩ | hc
        · exact absurd hh (hhandlers hostId socket)
        · rw [hhost', hsocket']
          exact hfollows.2 before hb hc
      | clientFrame hostId socket other stage => exact hfollows
      | sweep clients => exact hfollows

/-- A client's socket is accepted before anything is known of it. -/
theorem Whole.accept (hw : Whole options s) (hostId : String) :
    Whole options { s with clientSockets := s.clientSockets ++
      [{ hostId := hostId, attachment := if options.hibernation then some hostId else none }] } := by
  have hget : ∀ i < s.clientSockets.length, ∀ socket, (s.clientSockets ++ [socket])[i]? = s.clientSockets[i]? :=
    fun i hi socket => List.getElem?_append_left hi
  have hknown : ∀ client, s.Known client → Known { s with clientSockets := s.clientSockets ++
      [{ hostId := hostId, attachment := if options.hibernation then some hostId else none }] } client := by
    intro client h
    rw [Known, hget _ h.lt]
    exact h
  have hp := hw.placed
  refine ⟨⟨fun tunnel h client hc => ⟨(hw.kept.held tunnel h client hc).1, ?_⟩, hw.kept.told, hw.kept.clients⟩,
    ⟨hp.hosts, hp.sockets, hp.distinct, fun tunnel h client hc => ?_, fun handler hh => ?_, fun client hc hon => ?_⟩⟩
  · rw [clientClosed, hget _ (hp.channels tunnel h client hc).2.lt]
    exact (hw.kept.held tunnel h client hc).2
  · exact ⟨(hp.channels tunnel h client hc).1, hknown client (hp.channels tunnel h client hc).2⟩
  · have hfollows := hp.handlers handler hh
    cases handler with
    | update hostId socket workspaceIds stage => trivial
    | recheck hostId socket generation => trivial
    | hostFrame hostId socket client => exact ⟨hknown client hfollows.1, hfollows.2⟩
    | clientFrame hostId socket client stage => exact hknown client hfollows
    | sweep clients => exact fun client hc => hknown client (hfollows client hc)
  · rcases List.mem_append.mp hc with hc | hc
    · exact hp.attached client hc hon
    · rw [List.mem_singleton.mp hc, if_pos hon]

theorem clientClosed_of_fresh {socket : ClientSocket} (hget : s.clientSockets[i]? = some socket) (hopen : socket.closed = none) :
    s.clientClosed i = false := by
  rw [clientClosed, hget, Option.any_some, hopen]
  rfl

theorem Whole.admitHostTunnelClient (hw : Whole options s) (hostId : String) (activeHost opened : Bool) :
    Whole options (s.admitHostTunnelClient options hostId activeHost opened) := by
  unfold Room.admitHostTunnelClient
  rcases htunnel : s.tunnel hostId with _ | tunnel <;> dsimp only
  · exact hw
  · split
    · exact hw
    · have hp := hw.placed
      have haccepted := hw.accept hostId
      generalize hsocket : ({ hostId := hostId, attachment := _ } : ClientSocket) = socket at haccepted ⊢
      have hget : (s.clientSockets ++ [socket])[s.clientSockets.length]? = some socket := List.getElem?_concat_length
      -- nothing was known of a socket before it was accepted
      have hunknown : ∀ client, s.Known client → client.channelId ≠ s.clientSockets.length := fun client h => Nat.ne_of_lt h.lt
      have hfresh : ∀ tunnel' ∈ s.hostTunnels, ∀ client ∈ tunnel'.channels, client.channelId ≠ s.clientSockets.length :=
        fun tunnel' h client hc => hunknown client (hp.channels tunnel' h client hc).2
      split
      · have hmem : tunnel ∈ s.hostTunnels := (Table.mem_of_get htunnel).1
        generalize hclient : ({ channelId := s.clientSockets.length, hostId := hostId } : HostTunnelClient) = client
        have hid : client.channelId = s.clientSockets.length := by rw [← hclient]
        have hhost : client.hostId = hostId := by rw [← hclient]
        have hknown : Known { s with clientSockets := s.clientSockets ++ [socket] } client := by
          rw [Known, hid, hget, hhost, ← hsocket]
          rfl
        have htold : Opening options [client.channelId]
            ({ s with clientSockets := s.clientSockets ++ [socket] }.tell tunnel.socket (.wsOpen client.channelId)) := by
          have hopening := haccepted.opening [client.channelId]
          refine ⟨hopening.held, fun tunnel' h' channelId hopen => ?_, hopening.clients, ?_⟩
          · rcases mem_told_tell hopen with hold | ⟨heq, hsame⟩
            · rcases haccepted.kept.told tunnel' h' channelId hold with hheld | ⟨message, hsaid, hclose⟩ | hended
              · exact .inl hheld
              · exact .inr (.inl (.inl ⟨message, told_tell_of_mem hsaid, hclose⟩))
              · exact .inr (.inl (.inr hended))
            · obtain rfl := ToHost.wsOpen.inj heq
              have hsameHost : tunnel'.hostId = hostId := by
                rw [← tunnel_hostId htunnel]
                exact hp.distinct tunnel' h' tunnel hmem hsame
              refine .inr (.inr ⟨List.mem_singleton_self _, ?_⟩)
              rw [hsameHost, ← hhost]
              exact hknown
          · have hsize : (s.tell tunnel.socket (.wsOpen client.channelId)).hostSockets.length = s.hostSockets.length := by
              rw [tell, List.length_modify]
            refine ⟨hp.hosts, fun tunnel' h' => ?_, hp.distinct, haccepted.placed.channels, haccepted.placed.handlers,
              haccepted.placed.attached⟩
            exact Nat.lt_of_lt_of_eq (hp.sockets tunnel' h') hsize.symm
        have hfound : s.tunnel client.hostId = some tunnel := by
          rw [hhost]
          exact htunnel
        have hlive : Room.clientClosed { s with clientSockets := s.clientSockets ++ [socket] } client.channelId = false :=
          clientClosed_of_fresh (by rw [hid]; exact hget) (by rw [← hsocket])
        have hheld := htold.hold hfound hknown hlive fun hostId' socket' hh => ?_
        · have hnew : Table.get HostTunnelClient.channelId client.channelId s.clients = none := by
            rw [Table.get_eq_none_iff]
            intro other hother
            obtain ⟨tunnel', h', hc⟩ := hw.kept.clients other hother
            rw [hid]
            exact hfresh tunnel' h' other hc
          have hnew' : Table.get HostTunnelClient.channelId client.channelId tunnel.channels = none := by
            rw [Table.get_eq_none_iff, hid]
            exact hfresh tunnel hmem
          have hwhole := hheld.whole
          change Whole options (({ s with
            clientSockets := s.clientSockets ++ [socket]
            clients := Table.put HostTunnelClient.channelId client s.clients }.putTunnel { tunnel with
              channels := Table.put HostTunnelClient.channelId client tunnel.channels }).tell tunnel.socket
                (.wsOpen client.channelId)) at hwhole
          rw [Table.put_of_get_none hnew, Table.put_of_get_none hnew', hid] at hwhole
          exact hwhole
        · exact hunknown client (hp.handlers _ hh).1 hid
      · refine haccepted.closeClientSocket ?_ _ _
        rintro ⟨tunnel', h', client, hc, hid⟩
        exact hfresh tunnel' h' client hc hid

/-- The relay has not closed a client that a wake can find a tunnel for. -/
def Wakes (s : Room) (channelId : ℕ) : Prop :=
  ∀ hostId, (s.clientSockets[channelId]?).bind ClientSocket.attachment = some hostId → s.tunnel hostId ≠ none →
    s.clientClosed channelId = false

theorem Opening.rebuildHostTunnelClient (hw : Opening options (channelId :: left) s) (hon : options.hibernation = true)
    (hhandlers : s.handlers = []) (hopen : s.Wakes channelId) :
    Opening options left (s.rebuildHostTunnelClient channelId) := by
  unfold Room.rebuildHostTunnelClient
  -- a socket that is known says what its attachment says
  have hattached : ∀ hostId, s.Known { channelId := channelId, hostId := hostId } →
      (s.clientSockets[channelId]?).bind ClientSocket.attachment = some hostId := by
    intro hostId h
    obtain ⟨socket, hget, hhost⟩ := Option.map_eq_some_iff.mp h
    change socket.hostId = hostId at hhost
    rw [hget, ← hhost]
    exact hw.placed.attached socket (List.mem_of_getElem? hget) hon
  rcases hattachment : (s.clientSockets[channelId]?).bind ClientSocket.attachment with _ | hostId <;> dsimp only
  · refine ⟨hw.held, fun tunnel h i htold => ?_, hw.clients, hw.placed⟩
    rcases hw.told tunnel h i htold with hheld | hended | ⟨hleft, hknown⟩
    · exact .inl hheld
    · exact .inr (.inl hended)
    · rcases List.mem_cons.mp hleft with rfl | hleft
      · rw [hattached _ hknown] at hattachment
        cases hattachment
      · exact .inr (.inr ⟨hleft, hknown⟩)
  · obtain ⟨socket, hget, hsocket⟩ := Option.bind_eq_some_iff.mp hattachment
    have hhost : socket.hostId = hostId := by
      have hown := hw.placed.attached socket (List.mem_of_getElem? hget) hon
      rw [hown] at hsocket
      exact Option.some.inj hsocket
    have hknown : s.Known { channelId := channelId, hostId := hostId } := by
      rw [Known, hget]
      exact congrArg some hhost
    rcases htunnel : s.tunnel hostId with _ | tunnel <;> dsimp only
    · have hnone : ∀ tunnel ∈ s.hostTunnels, tunnel.hostId ≠ hostId := Table.get_eq_none_iff.mp htunnel
      have hnot : ¬ s.Holds channelId := by
        rintro ⟨tunnel, h, client, hc, rfl⟩
        obtain ⟨hsame, hc'⟩ := hw.placed.channels tunnel h client hc
        have heq := hc'.eq hknown rfl
        exact hnone tunnel h (hsame.symm.trans (congrArg HostTunnelClient.hostId heq))
      have ho : Onward (fun i => i = channelId) s (s.closeClientSocket channelId 1011 "Host tunnel unavailable") :=
        onward_closeClientSocket (by rfl) _ _ _
      refine ⟨fun tunnel h client hc => ?_, fun tunnel h i htold => ?_, hw.clients, hw.placed.of_registry ho ⟨rfl, rfl, rfl⟩⟩
      · rw [ho.closed client.channelId fun heq => hnot ⟨tunnel, h, client, hc, heq⟩]
        exact hw.held tunnel h client hc
      · rcases hw.told tunnel h i htold with hheld | hended | ⟨hleft, hknown'⟩
        · exact .inl hheld
        · exact .inr (.inl hended)
        · rcases List.mem_cons.mp hleft with rfl | hleft
          · exact absurd (congrArg HostTunnelClient.hostId (hknown'.eq hknown rfl)) (hnone tunnel h)
          · exact .inr (.inr ⟨hleft, ho.known _ hknown'⟩)
    · have hlive : s.clientClosed channelId = false := hopen hostId hattachment (by rw [htunnel]; exact nofun)
      exact Opening.hold hw htunnel hknown hlive (by simp [hhandlers])

theorem attachment_closeClientSocket (channelId i : ℕ) (code : ℤ) (reason : String) (s : Room) :
    ((s.closeClientSocket channelId code reason).clientSockets[i]?).bind ClientSocket.attachment =
      (s.clientSockets[i]?).bind ClientSocket.attachment := by
  rw [Room.closeClientSocket, List.getElem?_modify]
  rcases s.clientSockets[i]? with _ | socket
  · rfl
  · change (if channelId = i then _ else socket : ClientSocket).attachment = socket.attachment
    split <;> rfl

theorem Wakes.rebuildHostTunnelClient (h : s.Wakes i) (channelId : ℕ) : (s.rebuildHostTunnelClient channelId).Wakes i := by
  unfold Room.rebuildHostTunnelClient
  rcases hattachment : (s.clientSockets[channelId]?).bind ClientSocket.attachment with _ | hostId <;> dsimp only
  · exact h
  · rcases htunnel : s.tunnel hostId with _ | tunnel <;> dsimp only
    · intro hostId' hattachment' htunnel'
      rw [attachment_closeClientSocket] at hattachment'
      have hne : channelId ≠ i := by
        rintro rfl
        rw [hattachment] at hattachment'
        obtain rfl := Option.some.inj hattachment'
        exact htunnel' htunnel
      rw [clientClosed, Room.closeClientSocket, List.getElem?_modify_ne _ _ hne]
      exact h hostId' hattachment' htunnel'
    · intro hostId' hattachment' htunnel'
      refine h hostId' hattachment' ?_
      rw [tunnel_putTunnel] at htunnel'
      split at htunnel'
      · rename_i hsame
        have hfound : s.tunnel hostId' = some tunnel := by rw [← hsame, tunnel_hostId htunnel, htunnel]
        rw [hfound]
        rintro ⟨⟩
      · exact htunnel'

theorem rebuildHostTunnelClient_handlers (channelId : ℕ) (s : Room) :
    (s.rebuildHostTunnelClient channelId).handlers = s.handlers := by
  unfold Room.rebuildHostTunnelClient
  split
  · rfl
  · split <;> rfl

theorem Opening.foldl (hw : Opening options left s) (hon : options.hibernation = true) (hhandlers : s.handlers = [])
    (hopen : ∀ i ∈ left, s.Wakes i) : Opening options [] (left.foldl Room.rebuildHostTunnelClient s) := by
  induction left generalizing s with
  | nil => exact hw
  | cons i left ih =>
    have hwakes := fun j (hj : j ∈ left) => (hopen j (List.mem_cons_of_mem i hj)).rebuildHostTunnelClient i
    exact ih (hw.rebuildHostTunnelClient hon hhandlers (hopen i List.mem_cons_self))
      ((rebuildHostTunnelClient_handlers i s).trans hhandlers) hwakes

theorem rebuildHostTunnel_foldl (sockets : List HostSocket) (hosts : List ℕ) :
    ((hosts.foldl (rebuildHostTunnel sockets) []).map HostTunnel.hostId).Nodup ∧
      ∀ tunnel ∈ hosts.foldl (rebuildHostTunnel sockets) [], tunnel.channels = [] := by
  induction hosts using List.reverseRecOn with
  | nil => exact ⟨List.nodup_nil, nofun⟩
  | append_singleton hosts socket ih =>
    rw [List.foldl_append, List.foldl_cons, List.foldl_nil]
    unfold rebuildHostTunnel
    split
    · exact ih
    · dsimp only
      split
      · exact ih
      · refine ⟨Table.nodup_keys_put ih.1, fun tunnel h => ?_⟩
        rcases Table.mem_put h with rfl | h
        · rfl
        · exact ih.2 tunnel h

theorem Whole.rebuildHibernatedSockets (hw : Whole options s) (hon : options.hibernation = true) {hosts clients : List ℕ}
    (ht : Tidy options s (.rebuild hosts clients)) : Whole options (s.rebuildHibernatedSockets hosts clients) := by
  have hwakes := ht hon
  obtain ⟨hnodup, hempty⟩ := rebuildHostTunnel_foldl s.hostSockets hosts
  unfold Room.rebuildHibernatedSockets
  generalize hosts.foldl (rebuildHostTunnel s.hostSockets) [] = tunnels at hwakes hnodup hempty ⊢
  have hp := hw.placed
  have hnone : ∀ tunnel ∈ tunnels, ∀ client ∈ tunnel.channels, False := fun tunnel h client hc => by
    rw [hempty tunnel h] at hc
    cases hc
  have hopen : ∀ i ∈ clients, Wakes { s with hostTunnels := tunnels, clients := [], handlers := [] } i := by
    intro i hi hostId hattachment htunnel
    obtain ⟨tunnel, hfound⟩ := Option.ne_none_iff_exists'.mp htunnel
    obtain rfl := tunnel_hostId hfound
    exact (hwakes tunnel (Table.mem_of_get hfound).1).2 i hi hattachment
  suffices hopening : Opening options clients
      { s with hostTunnels := tunnels, clients := [], handlers := [] } from (hopening.foldl hon rfl hopen).whole
  refine ⟨fun tunnel h client hc => (hnone tunnel h client hc).elim, fun tunnel h channelId htold => ?_,
    fun _ h => absurd h List.not_mem_nil, ⟨hnodup, fun tunnel h => ?_, fun tunnel h tunnel' h' hsocket => ?_,
      fun tunnel h client hc => (hnone tunnel h client hc).elim, fun _ h => absurd h List.not_mem_nil, hp.attached⟩⟩
  · obtain ⟨⟨before, hb, hsocket, hhost, hlisted⟩, -⟩ := hwakes tunnel h
    rw [← hsocket] at htold ⊢
    rw [← hhost]
    rcases hw.kept.told before hb channelId htold with ⟨client, hc, rfl⟩ | hended
    · obtain ⟨hchost, hknown⟩ := hp.channels before hb client hc
      refine .inr (.inr ⟨hlisted client hc, ?_⟩)
      rw [← hchost]
      exact hknown
    · exact .inr (.inl hended)
  · obtain ⟨⟨before, hb, hsocket, -⟩, -⟩ := hwakes tunnel h
    rw [← hsocket]
    exact hp.sockets before hb
  · obtain ⟨⟨before, hb, hsocket', hhost, -⟩, -⟩ := hwakes tunnel h
    obtain ⟨⟨before', hb', hsocket'', hhost', -⟩, -⟩ := hwakes tunnel' h'
    rw [← hhost, ← hhost']
    exact hp.distinct before hb before' hb' (by rw [hsocket', hsocket'', hsocket])

/-- What a handler goes on to do, in the room it has left. -/
theorem Whole.proceed (hw : Whole options s) {handler : Handler} {answer : Answer} (hfollows : s.Follows handler)
    (ht : handler.Tidy s answer) : Whole options (s.proceed options handler answer) := by
  unfold Room.proceed
  split
  · exact hw.verifiedUpdate _ _ _ _
  · exact hw.applyRegistrationUpdate _ _ _ _ _
  · exact hw.recheckHostGeneration _ _ _ _
  · exact hw.deliverHostFrame hfollows ht
  · exact hw.deliverClientFrame hfollows ht
  · refine (hw.sweepClient (hfollows _ List.mem_cons_self) _).start fun client hc => ?_
    exact (onward_sweepClient _ _ s).known client (hfollows client (List.mem_cons_of_mem _ hc))
  · exact hw

theorem Whole.closeActiveSocketsForDrain (hw : Whole options s) (hnone : s.clients = []) :
    Whole options s.closeActiveSocketsForDrain := by
  unfold Room.closeActiveSocketsForDrain
  have hsame : SameRegistry s (s.hostTunnels.foldl (fun s tunnel =>
      s.closeHostSocket tunnel.socket 1012 "Workspace relay is draining") s) := by
    refine sameRegistry_foldl ?_ _ _
    exact fun _ _ => ⟨rfl, rfl, rfl⟩
  dsimp only
  rw [hsame.clients, hnone]
  refine hw.of_registry (onward_foldl ?_ s) hsame
  exact fun s tunnel _ => onward_closeHostSocket _ _ _ s

end Room

namespace Room

variable {options : RoomOptions} {s : Room}

theorem Whole.step (hw : Whole options s) {event : RoomEvent}
    (ht : Tidy options s event) : Whole options (roomStep options s event) := by
  cases event with
  | admitHostTunnel hostId workspaceIds claims now => exact hw.admitHostTunnel hostId workspaceIds claims now
  | hostSocketClosed hostId socket code reason =>
    simp only [roomStep]
    refine Whole.cleanupHostTunnel ?_ _ _ _
    split
    · exact hw.of_registry (onward_closeHostSocket _ _ _ _) ⟨rfl, rfl, rfl⟩
    · exact hw
  | hostSocketFailed hostId socket => exact hw.cleanupHostTunnel _ _ _
  | tunnelMessage hostId socket message => exact hw.handleTunnelMessage hostId socket message
  | admitClient hostId activeHost opened => exact hw.admitHostTunnelClient hostId activeHost opened
  | clientMessage channelId =>
    simp only [roomStep]
    split
    · exact hw
    · rename_i tunnel client hfound
      obtain ⟨hmem, hc, -⟩ := activeHostTunnelClient_eq_some hfound
      exact hw.start (hw.placed.channels tunnel hmem client hc).2
  | clientSocketClosed channelId code reason =>
    simp only [roomStep]
    split
    · have hclosed : Onward (fun i => i = channelId) s (s.closeClientSocket channelId (closeCode code 1000) (reason.getD "")) :=
        onward_closeClientSocket (by rfl) _ _ _
      exact hw.cleanupHostTunnelClient hclosed ⟨rfl, rfl, rfl⟩ _ _
    · exact hw.cleanupHostTunnelClient (.refl _ s) (.refl s) _ _
  | clientSocketFailed channelId =>
    simp only [roomStep]
    split
    · exact hw.cleanupHostTunnelClient (.refl _ s) (.refl s) _ _
    · exact hw
  | answered i answer =>
    simp only [roomStep]
    rcases hhandler : s.handlers[i]? with _ | handler <;> dsimp only
    · exact hw
    · have hmem : handler ∈ s.handlers := List.mem_of_getElem? hhandler
      have hfollows : s.Follows handler := hw.placed.handlers handler hmem
      have htidy : handler.Tidy s answer := ht handler hhandler
      have hleft : Whole options { s with handlers := s.handlers.eraseIdx i } := by
        refine hw.of_same (.of_eq rfl rfl fun _ h => h) rfl rfl fun other hother => .inl ?_
        exact List.mem_of_mem_eraseIdx hother
      exact hleft.proceed hfollows htidy
  | recheck hostId =>
    simp only [roomStep]
    split
    · exact hw
    · exact hw.start trivial
  | alarm =>
    simp only [roomStep]
    split
    · refine hw.start fun client hc => ?_
      obtain ⟨tunnel, h, hmem⟩ := hw.kept.clients client hc
      exact (hw.placed.channels tunnel h client hmem).2
    · exact hw
  | watched channelId code reason =>
    simp only [roomStep]
    split
    · exact hw
    · rename_i hoff
      exact hw.closeClientSocket (ht (by simpa using hoff)) _ _
  | drain draining =>
    simp only [roomStep]
    split
    · rename_i hdrains
      exact hw.closeActiveSocketsForDrain (ht hdrains)
    · exact hw
  | rebuild hosts clients =>
    simp only [roomStep]
    split
    · rename_i hon
      exact hw.rebuildHibernatedSockets hon ht
    · exact hw

theorem whole_empty (options : RoomOptions) : Whole options {} :=
  ⟨⟨nofun, nofun, nofun⟩, ⟨List.nodup_nil, nofun, nofun, nofun, nofun, nofun⟩⟩

end Room

/-- In a run whose steps are all tidy no channel outlives its client. -/
theorem channelsKept_of_tidy (options : RoomOptions) (events : List RoomEvent)
    (htidy : Meets (roomStep options) (Tidy options) {} events) : ChannelsKept (run (roomStep options) {} events) :=
  (invariant_of_meets (Room.Whole options) (fun _ _ hw ht => hw.step ht) (Room.whole_empty options) htidy).kept

/-- A host and its client: a frame goes through the relay, a wake comes, and the client leaves. -/
def tidyEvents : List RoomEvent := [
  .admitHostTunnel "h" ["w"] ⟨"e", 1⟩ 5,
  .admitClient "h" true true,
  .clientMessage 0,
  .answered 0 (.token .active true),
  .answered 0 (.target (some true)),
  .answered 0 (.frame (some true) true),
  .rebuild [0] [0],
  .alarm,
  .answered 0 (.token .active true),
  .clientSocketClosed 0 (some 1000) none]

theorem channelsKept_left : Meets (roomStep { hibernation := true }) (Tidy { hibernation := true }) {} tidyEvents ∧
    ChannelsKept (run (roomStep { hibernation := true }) {} tidyEvents) :=
  ⟨by decide, channelsKept_of_tidy { hibernation := true } tidyEvents (by decide)⟩

/-- A client's frame finds its token inactive: the socket is closed, and the tunnel still holds the channel. -/
theorem not_channelsKept : ¬ ∀ (options : RoomOptions) (events : List RoomEvent), ChannelsKept (run (roomStep options) {} events) := by
  intro h
  have hkept := h { hibernation := true } [
    .admitHostTunnel "h" ["w"] ⟨"e", 1⟩ 5, .admitClient "h" true true, .clientMessage 0,
    .answered 0 (.token (.inactive "Client token is inactive" false) false)]
  have hheld := hkept.held
  revert hheld
  decide

end Claxedo.Relay

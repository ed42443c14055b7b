import Claxedo.Relay.Room

/-! The generation a room records for a host. It only grows, as long as an update lands on a tunnel it outranks and a wake
finds no socket that ties with the live one on a lower generation. -/

namespace Claxedo.Relay

open Claxedo.Lib

namespace Room

def generationOf (s : Room) (hostId : String) : Option ℕ := (s.tunnel hostId).map HostTunnel.generation

def attachmentOf (s : Room) (socket : ℕ) : Option HostTunnelAttachment := (s.hostSockets[socket]?).bind HostSocket.attachment

end Room

/-- What is asked of one event. -/
structure GenerationKept (s : Room) (event : RoomEvent) (s' : Room) : Prop where
  grows : ∀ hostId g g', s.generationOf hostId = some g → s'.generationOf hostId = some g' → g ≤ g'
  ownSocket : ∀ hostId socket message, event = .tunnelMessage hostId socket message → s.current hostId socket = none → s' = s
  landing : ∀ i answer hostId socket workspaceIds stage, event = .answered i answer →
    s.handlers[i]? = some (.update hostId socket workspaceIds stage) → s.current hostId socket = none →
    s'.hostTunnels = s.hostTunnels ∧ s'.hostSockets = s.hostSockets

def GenerationsKept (options : RoomOptions) (events : List RoomEvent) : Prop :=
  ∀ before event after, events = before ++ event :: after →
    let s := run (roomStep options) {} before
    GenerationKept s event (roomStep options s event)

/-- What a handler goes on to do with an answer is not to take a tunnel back to a lower generation. -/
def Outranks (s : Room) (answer : GenerationAnswer) : Handler → Prop
  | .update hostId socket _ (.lookup claims) => checkHostTunnelGeneration answer claims.generation = .ok →
      ∀ tunnel ∈ s.current hostId socket, tunnel.generation ≤ claims.generation
  | _ => True

instance (s : Room) (answer : GenerationAnswer) (handler : Handler) : Decidable (Outranks s answer handler) := by
  unfold Outranks
  split <;> infer_instance

/-- A registration update lands on a tunnel that does not outrank it. A wake that lists a socket of a registered host lists
the tunnel's own, and every other that connected no earlier carries a generation as high. -/
def Ranked (s : Room) : RoomEvent → Prop
  | .answered i (.generation answer) => ∀ handler ∈ s.handlers[i]?, Outranks s answer handler
  | .rebuild hosts _ => ∀ tunnel ∈ s.hostTunnels, ∀ socket ∈ hosts, ∀ attachment ∈ s.attachmentOf socket,
      attachment.hostId = tunnel.hostId → tunnel.socket ∈ hosts ∧
        (socket ≠ tunnel.socket → tunnel.connectedAt ≤ attachment.connectedAt → tunnel.generation ≤ attachment.generation)
  | _ => True

instance (s : Room) (event : RoomEvent) : Decidable (Ranked s event) := by
  unfold Ranked
  split <;> infer_instance

namespace Room

variable {s s' s'' : Room} {hostId : String} {socket : ℕ}

variable {tunnel tunnel' : HostTunnel}

theorem tunnel_hostId (h : s.tunnel hostId = some tunnel) : tunnel.hostId = hostId :=
  (Table.mem_of_get h).2

theorem current_eq_some :
    s.current hostId socket = some tunnel ↔ s.tunnel hostId = some tunnel ∧ tunnel.socket = socket := by
  rw [current, Option.filter_eq_some_iff, decide_eq_true_eq]

theorem tunnel_putTunnel (tunnel : HostTunnel) (s : Room) (hostId : String) :
    (s.putTunnel tunnel).tunnel hostId = if tunnel.hostId = hostId then some tunnel else s.tunnel hostId :=
  Table.get_put hostId tunnel s.hostTunnels

/-- Nothing of a registration changes but that it may end. -/
structure Quiet (s s' : Room) : Prop where
  attachments : ∀ socket attachment, s.attachmentOf socket = some attachment → s'.attachmentOf socket = some attachment
  tunnels : ∀ hostId tunnel', s'.tunnel hostId = some tunnel' → ∃ tunnel, s.tunnel hostId = some tunnel ∧
    tunnel'.socket = tunnel.socket ∧ hostTunnelAttachment tunnel' = hostTunnelAttachment tunnel

theorem Quiet.refl (s : Room) : Quiet s s := ⟨fun _ _ h => h, fun _ tunnel h => ⟨tunnel, h, rfl, rfl⟩⟩

theorem Quiet.trans (h : Quiet s s') (h' : Quiet s' s'') : Quiet s s'' := by
  refine ⟨fun socket a ha => h'.attachments socket a (h.attachments socket a ha), fun hostId tunnel htunnel => ?_⟩
  obtain ⟨tunnel', htunnel', hsocket', hattachment'⟩ := h'.tunnels hostId tunnel htunnel
  obtain ⟨tunnel'', htunnel'', hsocket'', hattachment''⟩ := h.tunnels hostId tunnel' htunnel'
  exact ⟨tunnel'', htunnel'', hsocket'.trans hsocket'', hattachment'.trans hattachment''⟩

theorem Quiet.of_eq (hattachments : ∀ socket, s'.attachmentOf socket = s.attachmentOf socket)
    (htunnels : s'.hostTunnels = s.hostTunnels) : Quiet s s' := by
  refine ⟨fun socket a ha => by rw [hattachments, ha], fun hostId tunnel h => ⟨tunnel, ?_, rfl, rfl⟩⟩
  rw [Room.tunnel, ← htunnels]
  exact h

theorem bind_attachment_modify {f : HostSocket → HostSocket} (hf : ∀ host, (f host).attachment = host.attachment)
    (i socket : ℕ) (sockets : List HostSocket) :
    ((sockets.modify i f)[socket]?).bind HostSocket.attachment = (sockets[socket]?).bind HostSocket.attachment := by
  rw [List.getElem?_modify]
  rcases sockets[socket]? with _ | host
  · rfl
  · change (if i = socket then f host else host).attachment = host.attachment
    split
    · exact hf host
    · rfl

theorem quiet_start (handler : Handler) (s : Room) : Quiet s (s.start handler) := .of_eq (fun _ => rfl) rfl

theorem quiet_tell (socket : ℕ) (message : ToHost) (s : Room) : Quiet s (s.tell socket message) := by
  refine .of_eq (fun i => bind_attachment_modify ?_ socket i s.hostSockets) rfl
  exact fun _ => rfl

theorem quiet_closeHostSocket (socket : ℕ) (code : ℤ) (reason : String) (s : Room) :
    Quiet s (s.closeHostSocket socket code reason) := by
  refine .of_eq (fun i => bind_attachment_modify ?_ socket i s.hostSockets) rfl
  exact fun _ => rfl

theorem quiet_closeClientSocket (channelId : ℕ) (code : ℤ) (reason : String) (s : Room) :
    Quiet s (s.closeClientSocket channelId code reason) := .of_eq (fun _ => rfl) rfl

theorem quiet_channels (h : s.tunnel hostId = some tunnel) (channels clients : List HostTunnelClient)
    (clientSockets : List ClientSocket) :
    Quiet s ({ s with clients := clients, clientSockets := clientSockets }.putTunnel { tunnel with channels := channels }) := by
  refine ⟨fun _ _ h => h, fun hostId' tunnel' h' => ?_⟩
  rw [tunnel_putTunnel] at h'
  split at h'
  · rename_i hhost
    obtain rfl := Option.some.inj h'
    rw [tunnel_hostId h] at hhost
    subst hhost
    exact ⟨tunnel, h, rfl, rfl⟩
  · exact ⟨tunnel', h', rfl, rfl⟩

theorem quiet_deleteChannel (hostId : String) (socket : ℕ) (client : HostTunnelClient) (s : Room) :
    Quiet s (s.deleteChannel hostId socket client) := by
  unfold deleteChannel
  dsimp only
  split
  · exact .of_eq (fun _ => rfl) rfl
  · rename_i tunnel htunnel
    have hregistered : s.tunnel hostId = some tunnel := (current_eq_some.mp htunnel).1
    exact quiet_channels hregistered _ _ s.clientSockets

/-- What every step keeps that is taken one element of a list at a time. -/
theorem quiet_foldl {α : Type} {f : Room → α → Room} (hf : ∀ s a, Quiet s (f s a)) (as : List α) (s : Room) :
    Quiet s (as.foldl f s) := by
  induction as generalizing s with
  | nil => exact .refl s
  | cons a as ih => exact (hf s a).trans (ih (f s a))

theorem quiet_cleanupTunnelResources (tunnel : HostTunnel) (reason : String) (s : Room) :
    Quiet s (s.cleanupTunnelResources tunnel reason) := by
  have hforgotten : Quiet s { s with clients := s.clients.filter (· ∉ tunnel.channels) } := .of_eq (fun _ => rfl) rfl
  exact hforgotten.trans (quiet_foldl (fun _ _ => quiet_closeClientSocket _ _ _ _) _ _)

theorem quiet_remove (hostId : String) (s : Room) : Quiet s { s with hostTunnels := s.hostTunnels.filter (·.hostId ≠ hostId) } := by
  refine ⟨fun _ _ h => h, fun hostId' tunnel h => ⟨tunnel, ?_, rfl, rfl⟩⟩
  have hne : tunnel.hostId ≠ hostId := by
    have hmem := (Table.mem_of_get h).1
    simpa using (List.mem_filter.mp hmem).2
  rw [Room.tunnel] at h ⊢
  rw [← Table.get_filter (p := fun t : HostTunnel => t.hostId ≠ hostId)]
  · exact h
  · intro t _ ht
    rw [tunnel_hostId h] at hne
    simpa [ht] using hne

theorem quiet_cleanupHostTunnel (hostId : String) (socket : ℕ) (reason : String) (s : Room) :
    Quiet s (s.cleanupHostTunnel hostId socket reason) := by
  unfold cleanupHostTunnel
  split
  · exact .refl s
  · exact (quiet_cleanupTunnelResources _ _ _).trans (quiet_remove _ _)

theorem quiet_dropHostTunnelChannel (hostId : String) (socket : ℕ) (client : HostTunnelClient) (code : ℤ) (reason : String)
    (s : Room) : Quiet s (s.dropHostTunnelChannel hostId socket client code reason) :=
  ((quiet_deleteChannel _ _ _ _).trans (quiet_closeClientSocket _ _ _ _)).trans (quiet_tell _ _ _)

theorem quiet_cleanupHostTunnelClient (channelId : ℕ) (code : Option ℤ) (reason : Option String) (s : Room) :
    Quiet s (s.cleanupHostTunnelClient channelId code reason) := by
  unfold cleanupHostTunnelClient
  split
  · exact .refl s
  · exact (quiet_deleteChannel _ _ _ _).trans (quiet_tell _ _ _)

theorem quiet_refuse (hostId : String) (socket : ℕ) (code : ℤ) (reason : String) (s : Room) :
    Quiet s (s.refuse hostId socket code reason) :=
  (quiet_cleanupHostTunnel _ _ _ _).trans (quiet_closeHostSocket _ _ _ _)

theorem quiet_verifiedUpdate (hostId : String) (socket : ℕ) (workspaceIds : List String)
    (claims : Option HostTunnelTokenClaims) (s : Room) : Quiet s (s.verifiedUpdate hostId socket workspaceIds claims) := by
  unfold verifiedUpdate
  split
  · exact .refl s
  · split
    · exact quiet_refuse _ _ _ _ _
    · split
      · exact quiet_refuse _ _ _ _ _
      · exact quiet_start _ _

theorem quiet_hostClosesChannel (tunnel : HostTunnel) (channelId : ℕ) (code : ℤ) (reason : String) (s : Room) :
    Quiet s (s.hostClosesChannel tunnel channelId code reason) := by
  unfold hostClosesChannel
  split
  · exact .refl s
  · rename_i client _
    have hdeleted := quiet_deleteChannel tunnel.hostId tunnel.socket client s
    have hclosed := quiet_closeClientSocket channelId code reason (s.deleteChannel tunnel.hostId tunnel.socket client)
    exact (hdeleted.trans hclosed).trans (.of_eq (fun _ => rfl) rfl)

theorem quiet_handleTunnelMessage (hostId : String) (socket : ℕ) (message : FromHost) (s : Room) :
    Quiet s (s.handleTunnelMessage hostId socket message) := by
  unfold handleTunnelMessage
  split
  · exact .refl s
  · cases message with
    | registrationUpdate workspaceIds => exact quiet_start _ _
    | wsFrame channelId =>
      dsimp only
      split
      · exact .refl s
      · exact quiet_start _ _
    | wsClose channelId code reason => exact quiet_hostClosesChannel _ _ _ _ _
    | channelError channelId message => exact quiet_hostClosesChannel _ _ _ _ _

theorem quiet_deliverHostFrame (hostId : String) (socket : ℕ) (client : HostTunnelClient) (token : TokenActive) (sent : Bool)
    (s : Room) : Quiet s (s.deliverHostFrame hostId socket client token sent) := by
  cases token with
  | active =>
    simp only [deliverHostFrame]
    split
    · exact .refl s
    · exact quiet_dropHostTunnelChannel _ _ _ _ _ _
  | inactive reason unreachable => exact (quiet_deleteChannel _ _ _ _).trans (quiet_closeClientSocket _ _ _ _)
  | threw => exact quiet_closeHostSocket _ _ _ _

theorem quiet_deliverClientFrame (hostId : String) (socket : ℕ) (client : HostTunnelClient) (stage : ClientFrameStage)
    (answer : Answer) (s : Room) : Quiet s (s.deliverClientFrame hostId socket client stage answer) := by
  unfold deliverClientFrame
  split
  · exact quiet_start _ _
  · exact quiet_closeClientSocket _ _ _ _
  · exact quiet_closeClientSocket _ _ _ _
  · exact quiet_start _ _
  · exact quiet_closeClientSocket _ _ _ _
  · exact quiet_closeClientSocket _ _ _ _
  · split
    · exact quiet_tell _ _ _
    · exact quiet_closeClientSocket _ _ _ _
  · exact .refl s
  · exact quiet_closeClientSocket _ _ _ _
  · exact .refl s

theorem quiet_sweepClient (client : HostTunnelClient) (token : TokenActive) (s : Room) : Quiet s (s.sweepClient client token) := by
  cases token with
  | active => exact .refl s
  | inactive reason unreachable =>
    simp only [sweepClient]
    split
    · exact .refl s
    · unfold revoke
      split
      · exact quiet_dropHostTunnelChannel _ _ _ _ _ _
      · exact (quiet_closeClientSocket client.channelId 1008 reason s).trans (.of_eq (fun _ => rfl) rfl)
  | threw => exact .refl s

theorem quiet_closeActiveSocketsForDrain (s : Room) : Quiet s s.closeActiveSocketsForDrain :=
  (quiet_foldl (fun _ _ => quiet_closeHostSocket _ _ _ _) s.hostTunnels s).trans
    (quiet_foldl (fun _ _ => quiet_closeClientSocket _ _ _ _) _ _)

theorem quiet_admitHostTunnelClient (options : RoomOptions) (hostId : String) (activeHost opened : Bool) (s : Room) :
    Quiet s (s.admitHostTunnelClient options hostId activeHost opened) := by
  unfold admitHostTunnelClient
  split
  · exact .refl s
  · rename_i tunnel htunnel
    dsimp only
    split
    · exact .refl s
    · split
      · exact (quiet_channels htunnel _ _ _).trans (quiet_tell _ _ _)
      · refine Quiet.trans ?_ (quiet_closeClientSocket _ _ _ _)
        exact .of_eq (fun _ => rfl) rfl

theorem quiet_rebuildHostTunnelClient (s : Room) (channelId : ℕ) : Quiet s (s.rebuildHostTunnelClient channelId) := by
  unfold rebuildHostTunnelClient
  split
  · exact .refl s
  · split
    · exact quiet_closeClientSocket _ _ _ _
    · rename_i tunnel htunnel
      exact quiet_channels htunnel _ _ s.clientSockets

def Grows (s s' : Room) : Prop := ∀ hostId g g', s.generationOf hostId = some g → s'.generationOf hostId = some g' → g ≤ g'

/-- A registered tunnel's socket carries the tunnel's registration. -/
def Mirrored (s : Room) : Prop :=
  ∀ hostId tunnel, s.tunnel hostId = some tunnel → s.attachmentOf tunnel.socket = some (hostTunnelAttachment tunnel)

theorem generationOf_eq_some {g : ℕ} :
    s.generationOf hostId = some g ↔ ∃ tunnel, s.tunnel hostId = some tunnel ∧ tunnel.generation = g :=
  Option.map_eq_some_iff

theorem Quiet.grows (h : Quiet s s') : Grows s s' := by
  intro hostId g g' hg hg'
  obtain ⟨tunnel, htunnel, rfl⟩ := generationOf_eq_some.mp hg
  obtain ⟨tunnel', htunnel', rfl⟩ := generationOf_eq_some.mp hg'
  obtain ⟨before, hbefore, -, hattachment⟩ := h.tunnels hostId tunnel' htunnel'
  obtain rfl := Option.some.inj (htunnel.symm.trans hbefore)
  exact Nat.le_of_eq (congrArg HostTunnelAttachment.generation hattachment).symm

theorem Quiet.mirrored (h : Quiet s s') (hm : Mirrored s) : Mirrored s' := by
  intro hostId tunnel' htunnel'
  obtain ⟨tunnel, htunnel, hsocket, hattachment⟩ := h.tunnels hostId tunnel' htunnel'
  rw [hsocket, hattachment]
  exact h.attachments _ _ (hm hostId tunnel htunnel)

theorem attachmentOf_attach (tunnel : HostTunnel) (s : Room) (socket : ℕ) : (s.attach tunnel).attachmentOf socket =
    if tunnel.socket = socket then (s.hostSockets[socket]?).map fun _ => hostTunnelAttachment tunnel
    else s.attachmentOf socket := by
  rw [attachmentOf, attach, List.getElem?_modify]
  split
  · rcases s.hostSockets[socket]? with _ | host <;> rfl
  · rw [attachmentOf]
    rcases s.hostSockets[socket]? with _ | host <;> rfl

/-- A tunnel whose registration is written again, on its own socket. -/
theorem Mirrored.replace (hm : Mirrored s) (h : s.tunnel hostId = some tunnel) (hhost : tunnel'.hostId = tunnel.hostId)
    (hsocket : tunnel'.socket = tunnel.socket) :
    Mirrored ((s.putTunnel tunnel').attach tunnel') := by
  have hattached := hm hostId tunnel h
  intro hostId' other hother
  change (s.putTunnel tunnel').tunnel hostId' = some other at hother
  rw [tunnel_putTunnel] at hother
  rw [attachmentOf_attach]
  split at hother
  · obtain rfl := Option.some.inj hother
    rw [if_pos rfl, hsocket]
    change (s.hostSockets[tunnel.socket]?).map _ = _
    rcases hhostSocket : s.hostSockets[tunnel.socket]? with _ | host
    · rw [attachmentOf, hhostSocket] at hattached
      cases hattached
    · rfl
  · rename_i hne
    have hotherAttached := hm hostId' other hother
    rw [if_neg, ← hotherAttached]
    · rfl
    · intro heq
      rw [← heq, hsocket, hattached] at hotherAttached
      have hhosts : tunnel.hostId = other.hostId := congrArg HostTunnelAttachment.hostId (Option.some.inj hotherAttached)
      rw [tunnel_hostId hother, ← hhost] at hhosts
      exact hne hhosts

theorem Grows.replace (h : s.tunnel hostId = some tunnel) (hhost : tunnel'.hostId = tunnel.hostId)
    (hle : tunnel.generation ≤ tunnel'.generation) :
    Grows s ((s.putTunnel tunnel').attach tunnel') := by
  intro hostId' g g' hg hg'
  change (s.putTunnel tunnel').generationOf hostId' = some g' at hg'
  rw [generationOf, tunnel_putTunnel] at hg'
  split at hg'
  · rename_i heq
    rw [hhost, tunnel_hostId h] at heq
    subst heq
    rw [generationOf, h] at hg
    obtain rfl := Option.some.inj hg
    obtain rfl := Option.some.inj hg'
    exact hle
  · exact Nat.le_of_eq (Option.some.inj (hg.symm.trans hg'))

/-- What every step does for generations and, where sockets hibernate, for what they carry. -/
structure Kept (options : RoomOptions) (s s' : Room) : Prop where
  grows : Grows s s'
  mirrored : options.hibernation = true → Mirrored s → Mirrored s'

variable {options : RoomOptions}

theorem Quiet.kept (h : Quiet s s') : Kept options s s' := ⟨h.grows, fun _ => h.mirrored⟩

/-- A registration that is written again, on its own socket and at no lower generation. -/
theorem Kept.replace (h : s.tunnel hostId = some tunnel) (hhost : tunnel'.hostId = tunnel.hostId)
    (hsocket : tunnel'.socket = tunnel.socket) (hle : tunnel.generation ≤ tunnel'.generation) :
    Kept options s ((s.putTunnel tunnel').attach tunnel') :=
  ⟨Grows.replace h hhost hle, fun _ hm => hm.replace h hhost hsocket⟩

theorem attachmentOf_append (host : HostSocket) (socket : ℕ) (s : Room) :
    ({ s with hostSockets := s.hostSockets ++ [host] } : Room).attachmentOf socket =
      if socket = s.hostSockets.length then host.attachment else s.attachmentOf socket := by
  unfold attachmentOf
  dsimp only
  rcases Nat.lt_trichotomy socket s.hostSockets.length with hlt | heq | hgt
  · rw [if_neg (by omega), List.getElem?_append_left hlt]
  · rw [if_pos heq, heq, List.getElem?_concat_length, Option.bind_some]
  · rw [if_neg (by omega), List.getElem?_eq_none (by rw [List.length_append, List.length_singleton]; omega),
      List.getElem?_eq_none (by omega)]

theorem quiet_accept (host : HostSocket) (s : Room) : Quiet s { s with hostSockets := s.hostSockets ++ [host] } := by
  refine ⟨fun socket attachment h => ?_, fun _ tunnel h => ⟨tunnel, h, rfl, rfl⟩⟩
  rw [attachmentOf_append, if_neg]
  · exact h
  · rintro rfl
    rw [attachmentOf, List.getElem?_eq_none (Nat.le_refl _)] at h
    cases h

/-- A tunnel comes to be registered on a socket that carries its registration. -/
theorem Mirrored.put (hm : Mirrored s) {tunnel : HostTunnel}
    (h : s.attachmentOf tunnel.socket = some (hostTunnelAttachment tunnel)) : Mirrored (s.putTunnel tunnel) := by
  intro hostId other hother
  rw [tunnel_putTunnel] at hother
  split at hother
  · obtain rfl := Option.some.inj hother
    exact h
  · exact hm hostId other hother

/-- A tunnel takes the place of one that does not outrank it. -/
theorem Kept.put {tunnel : HostTunnel} (hquiet : Quiet s s')
    (hrank : ∀ g, s.generationOf tunnel.hostId = some g → g ≤ tunnel.generation)
    (hattached : options.hibernation = true → s'.attachmentOf tunnel.socket = some (hostTunnelAttachment tunnel)) :
    Kept options s (s'.putTunnel tunnel) := by
  refine ⟨fun hostId g g' hg hg' => ?_, fun hhibernation hm => (hquiet.mirrored hm).put (hattached hhibernation)⟩
  rw [generationOf, tunnel_putTunnel] at hg'
  split at hg'
  · rename_i heq
    subst heq
    obtain rfl := Option.some.inj hg'
    exact hrank g hg
  · exact hquiet.grows hostId g g' hg hg'

theorem kept_admitHostTunnel (hostId : String) (workspaceIds : List String) (claims : HostTunnelTokenClaims) (now : ℕ)
    (s : Room) : Kept options s (s.admitHostTunnel options hostId workspaceIds claims now) := by
  unfold admitHostTunnel
  dsimp only
  split
  · exact (Quiet.refl s).kept
  · rename_i hrank
    have hrank' : ∀ g, s.generationOf hostId = some g → g ≤ claims.generation := by
      intro g hg
      obtain ⟨previous, hprevious, rfl⟩ := generationOf_eq_some.mp hg
      rw [hprevious, Option.any_some, hostTunnelIncumbentOutranks, decide_eq_true_eq] at hrank
      omega
    generalize hhost : ({ hostId := hostId, attachment := _ } : HostSocket) = host
    have haccepted := quiet_accept host s
    have hattached : options.hibernation = true →
        ({ s with hostSockets := s.hostSockets ++ [host] } : Room).attachmentOf s.hostSockets.length =
          some { hostId := hostId, workspaceIds := workspaceIds, connectedAt := now, enrollmentId := claims.enrollmentId,
                 generation := claims.generation } := by
      intro hhibernation
      rw [attachmentOf_append, if_pos rfl, ← hhost]
      exact if_pos hhibernation
    rcases s.tunnel hostId with _ | previous <;> dsimp only
    · exact .put haccepted hrank' hattached
    · have hreplaced := (quiet_cleanupTunnelResources previous "Host tunnel replaced"
        { s with hostSockets := s.hostSockets ++ [host] }).trans (quiet_closeHostSocket previous.socket 1012 "Host tunnel replaced" _)
      exact .put (haccepted.trans hreplaced) hrank' fun h => hreplaced.attachments _ _ (hattached h)

theorem kept_applyRegistrationUpdate {workspaceIds : List String} {claims : HostTunnelTokenClaims} {answer : GenerationAnswer}
    (hr : Outranks s answer (.update hostId socket workspaceIds (.lookup claims))) :
    Kept options s (s.applyRegistrationUpdate hostId socket workspaceIds claims answer) := by
  unfold applyRegistrationUpdate
  rcases hcurrent : s.current hostId socket with _ | tunnel <;> dsimp only
  · exact (Quiet.refl s).kept
  · rcases hdecision : checkHostTunnelGeneration answer claims.generation with _ | ⟨retryable, code, reason⟩ <;> dsimp only
    · exact .replace (current_eq_some.mp hcurrent).1 rfl rfl (hr hdecision tunnel hcurrent)
    · exact (quiet_refuse _ _ _ _ _).kept

theorem kept_recheckHostGeneration (generation : ℕ) (answer : GenerationAnswer) (s : Room) :
    Kept options s (s.recheckHostGeneration options hostId socket generation answer) := by
  unfold recheckHostGeneration
  rcases hcurrent : s.current hostId socket with _ | tunnel <;> dsimp only
  · exact (Quiet.refl s).kept
  · have htunnel := (current_eq_some.mp hcurrent).1
    rcases checkHostTunnelGeneration answer generation with _ | ⟨_ | _, code, reason⟩ <;> dsimp only
    · split
      · exact (Quiet.refl s).kept
      · exact .replace htunnel rfl rfl (Nat.le_refl _)
    · exact (quiet_refuse _ _ _ _ _).kept
    · split
      · exact .replace htunnel rfl rfl (Nat.le_refl _)
      · exact (quiet_refuse _ _ _ _ _).kept

theorem kept_proceed {handler : Handler} {answer : Answer}
    (hr : ∀ generation, answer = .generation generation → Outranks s generation handler) :
    Kept options s (s.proceed options handler answer) := by
  unfold proceed
  split
  · exact (quiet_verifiedUpdate _ _ _ _ _).kept
  · exact kept_applyRegistrationUpdate (hr _ rfl)
  · exact kept_recheckHostGeneration _ _ _
  · exact (quiet_deliverHostFrame _ _ _ _ _ _).kept
  · exact (quiet_deliverClientFrame _ _ _ _ _ _).kept
  · exact ((quiet_sweepClient _ _ _).trans (quiet_start _ _)).kept
  · exact (Quiet.refl s).kept

/-- The tunnel a wake registers for a host was found on a listed socket, and no other listed socket of the host connected
later. -/
structure Rebuilt (sockets : List HostSocket) (hosts : List ℕ) (tunnels : List HostTunnel) : Prop where
  found : ∀ hostId tunnel, Table.get HostTunnel.hostId hostId tunnels = some tunnel → tunnel.socket ∈ hosts ∧
    (sockets[tunnel.socket]?).bind HostSocket.attachment = some (hostTunnelAttachment tunnel)
  latest : ∀ socket ∈ hosts, ∀ attachment, (sockets[socket]?).bind HostSocket.attachment = some attachment →
    ∃ tunnel, Table.get HostTunnel.hostId attachment.hostId tunnels = some tunnel ∧
      attachment.connectedAt ≤ tunnel.connectedAt

theorem rebuilt_foldl (sockets : List HostSocket) (hosts : List ℕ) :
    Rebuilt sockets hosts (hosts.foldl (rebuildHostTunnel sockets) []) := by
  induction hosts using List.reverseRecOn with
  | nil => exact ⟨(fun _ _ h => by cases h), (fun _ h => by cases h)⟩
  | append_singleton hosts socket ih =>
    rw [List.foldl_append, List.foldl_cons, List.foldl_nil]
    generalize hosts.foldl (rebuildHostTunnel sockets) [] = tunnels at ih
    have hkept : ∀ hostId tunnel, Table.get HostTunnel.hostId hostId tunnels = some tunnel → tunnel.socket ∈ hosts ++ [socket] ∧
        (sockets[tunnel.socket]?).bind HostSocket.attachment = some (hostTunnelAttachment tunnel) :=
      fun hostId tunnel h => ⟨List.mem_append_left _ (ih.found hostId tunnel h).1, (ih.found hostId tunnel h).2⟩
    unfold rebuildHostTunnel
    rcases hattachment : (sockets[socket]?).bind HostSocket.attachment with _ | attachment <;> dsimp only
    · refine ⟨hkept, fun other hother a ha => ?_⟩
      rcases List.mem_append.mp hother with hother | hother
      · exact ih.latest other hother a ha
      · rw [List.mem_singleton.mp hother, hattachment] at ha
        cases ha
    · split
      · rename_i hlater
        refine ⟨hkept, fun other hother a ha => ?_⟩
        rcases List.mem_append.mp hother with hother | hother
        · exact ih.latest other hother a ha
        · rw [List.mem_singleton.mp hother, hattachment] at ha
          obtain rfl := Option.some.inj ha
          rcases hget : Table.get HostTunnel.hostId attachment.hostId tunnels with _ | tunnel
          · rw [hget] at hlater
            cases hlater
          · rw [hget, Option.any_some, decide_eq_true_eq] at hlater
            exact ⟨tunnel, rfl, Nat.le_of_lt hlater⟩
      · rename_i hlater
        refine ⟨fun hostId tunnel h => ?_, fun other hother a ha => ?_⟩
        · rw [Table.get_put] at h
          split at h
          · obtain rfl := Option.some.inj h
            exact ⟨List.mem_append_right _ (List.mem_singleton_self socket), hattachment⟩
          · exact hkept hostId tunnel h
        · rw [Table.get_put]
          by_cases hhost : (attachment.tunnel socket).hostId = a.hostId
          · rw [if_pos hhost]
            refine ⟨_, rfl, ?_⟩
            rcases List.mem_append.mp hother with hother | hother
            · obtain ⟨tunnel, hget, hle⟩ := ih.latest other hother a ha
              rw [← hhost] at hget
              change Table.get HostTunnel.hostId attachment.hostId tunnels = some tunnel at hget
              rw [hget, Option.any_some, decide_eq_true_eq] at hlater
              exact Nat.le_trans hle (Nat.le_of_not_lt hlater)
            · rw [List.mem_singleton.mp hother, hattachment] at ha
              obtain rfl := Option.some.inj ha
              exact Nat.le_refl _
          · rw [if_neg hhost]
            rcases List.mem_append.mp hother with hother | hother
            · exact ih.latest other hother a ha
            · rw [List.mem_singleton.mp hother, hattachment] at ha
              obtain rfl := Option.some.inj ha
              exact absurd rfl hhost

theorem kept_rebuild {hosts clients : List ℕ} (hm : Mirrored s) (hr : Ranked s (.rebuild hosts clients)) :
    Grows s (s.rebuildHibernatedSockets hosts clients) ∧ Mirrored (s.rebuildHibernatedSockets hosts clients) := by
  have hrebuilt := rebuilt_foldl s.hostSockets hosts
  unfold rebuildHibernatedSockets
  generalize hosts.foldl (rebuildHostTunnel s.hostSockets) [] = tunnels at hrebuilt ⊢
  have hquiet := quiet_foldl quiet_rebuildHostTunnelClient clients
    { s with hostTunnels := tunnels, clients := [], handlers := [] }
  refine ⟨fun hostId g g' hg hg' => ?_, hquiet.mirrored fun hostId tunnel h => (hrebuilt.found hostId tunnel h).2⟩
  obtain ⟨tunnel, htunnel, rfl⟩ := generationOf_eq_some.mp hg
  obtain ⟨after, hafter, rfl⟩ := generationOf_eq_some.mp hg'
  obtain ⟨tunnel', htunnel', hsocket', hattachment'⟩ := hquiet.tunnels hostId after hafter
  obtain ⟨hlisted, hattached⟩ := hrebuilt.found hostId tunnel' htunnel'
  have hgeneration : after.generation = tunnel'.generation := congrArg HostTunnelAttachment.generation hattachment'
  have hhost : tunnel'.hostId = tunnel.hostId := by rw [(Table.mem_of_get htunnel').2, tunnel_hostId htunnel]
  rw [hgeneration]
  obtain ⟨hown, hother⟩ := hr tunnel (Table.mem_of_get htunnel).1 tunnel'.socket hlisted _ hattached hhost
  by_cases hsame : tunnel'.socket = tunnel.socket
  · have hattached' := hm hostId tunnel htunnel
    rw [← hsame, attachmentOf, hattached] at hattached'
    exact Nat.le_of_eq (congrArg HostTunnelAttachment.generation (Option.some.inj hattached')).symm
  · obtain ⟨latest, hlatest, hle⟩ := hrebuilt.latest tunnel.socket hown _ (hm hostId tunnel htunnel)
    change Table.get HostTunnel.hostId tunnel.hostId tunnels = some latest at hlatest
    rw [← hhost, (Table.mem_of_get htunnel').2] at hlatest
    obtain rfl := Option.some.inj (htunnel'.symm.trans hlatest)
    exact hother hsame hle

theorem step_grows {event : RoomEvent} (hm : options.hibernation = true → Mirrored s) (hr : Ranked s event) :
    Grows s (roomStep options s event) ∧ (options.hibernation = true → Mirrored (roomStep options s event)) := by
  have hkept : ∀ {s'}, Kept options s s' → Grows s s' ∧ (options.hibernation = true → Mirrored s') :=
    fun h => ⟨h.grows, fun hhibernation => h.mirrored hhibernation (hm hhibernation)⟩
  cases event with
  | admitHostTunnel hostId workspaceIds claims now => exact hkept (kept_admitHostTunnel _ _ _ _ _)
  | hostSocketClosed hostId socket code reason =>
    simp only [roomStep]
    split
    · exact hkept ((quiet_closeHostSocket _ _ _ _).trans (quiet_cleanupHostTunnel _ _ _ _)).kept
    · exact hkept (quiet_cleanupHostTunnel _ _ _ _).kept
  | hostSocketFailed hostId socket => exact hkept (quiet_cleanupHostTunnel _ _ _ _).kept
  | tunnelMessage hostId socket message => exact hkept (quiet_handleTunnelMessage _ _ _ _).kept
  | admitClient hostId activeHost opened => exact hkept (quiet_admitHostTunnelClient _ _ _ _ _).kept
  | clientMessage channelId =>
    simp only [roomStep]
    split
    · exact hkept (Quiet.refl s).kept
    · exact hkept (quiet_start _ _).kept
  | clientSocketClosed channelId code reason =>
    simp only [roomStep]
    split
    · exact hkept ((quiet_closeClientSocket _ _ _ _).trans (quiet_cleanupHostTunnelClient _ _ _ _)).kept
    · exact hkept (quiet_cleanupHostTunnelClient _ _ _ _).kept
  | clientSocketFailed channelId =>
    simp only [roomStep]
    split
    · exact hkept (quiet_cleanupHostTunnelClient _ _ _ _).kept
    · exact hkept (Quiet.refl s).kept
  | answered i answer =>
    simp only [roomStep]
    rcases hhandler : s.handlers[i]? with _ | handler <;> dsimp only
    · exact hkept (Quiet.refl s).kept
    · have hranks : ∀ generation, answer = .generation generation → Outranks s generation handler := by
        rintro generation rfl
        exact hr handler hhandler
      have htaken : Kept options { s with handlers := s.handlers.eraseIdx i } _ := kept_proceed hranks
      exact hkept ⟨htaken.grows, htaken.mirrored⟩
  | recheck hostId =>
    simp only [roomStep]
    split
    · exact hkept (Quiet.refl s).kept
    · exact hkept (quiet_start _ _).kept
  | alarm =>
    simp only [roomStep]
    split
    · exact hkept (quiet_start _ _).kept
    · exact hkept (Quiet.refl s).kept
  | watched channelId code reason =>
    simp only [roomStep]
    split
    · exact hkept (Quiet.refl s).kept
    · exact hkept (quiet_closeClientSocket _ _ _ _).kept
  | drain draining =>
    simp only [roomStep]
    split
    · exact hkept (quiet_closeActiveSocketsForDrain _).kept
    · exact hkept (Quiet.refl s).kept
  | rebuild hosts clients =>
    simp only [roomStep]
    split
    · rename_i hhibernation
      obtain ⟨hgrows, hmirrored⟩ := kept_rebuild (hm hhibernation) hr
      exact ⟨hgrows, fun _ => hmirrored⟩
    · exact hkept (Quiet.refl s).kept

end Room

open Room

theorem generationKept_step {options : RoomOptions} {s : Room} {event : RoomEvent}
    (hm : options.hibernation = true → s.Mirrored) (hr : Ranked s event) :
    GenerationKept s event (roomStep options s event) := by
  refine ⟨(step_grows hm hr).1, ?_, ?_⟩
  · rintro hostId socket message rfl hcurrent
    simp only [roomStep, handleTunnelMessage, hcurrent]
  · rintro i answer hostId socket workspaceIds stage rfl hhandler hcurrent
    have hcurrent' : ({ s with handlers := s.handlers.eraseIdx i } : Room).current hostId socket = none := hcurrent
    simp only [roomStep, hhandler]
    cases stage with
    | verify => cases answer <;> simp only [proceed, verifiedUpdate, hcurrent', and_self]
    | lookup claims => cases answer <;> simp only [proceed, applyRegistrationUpdate, hcurrent', and_self]

theorem generationsKept_of_ranked (options : RoomOptions) (events : List RoomEvent)
    (h : Meets (roomStep options) Ranked {} events) : GenerationsKept options events := by
  intro before event after hevents
  subst hevents
  obtain ⟨hbefore, hr, -⟩ := (meets_append _ _ _ _ _).mp h
  have hempty : options.hibernation = true → Mirrored {} := fun _ hostId tunnel htunnel => by cases htunnel
  have hm := invariant_of_meets (fun s => options.hibernation = true → s.Mirrored) (fun s event hs hr => (step_grows hs hr).2)
    hempty hbefore
  exact generationKept_step hm hr

/-- A tunnel is updated to the next generation, a later one connects in its place, and the room wakes to both sockets. -/
theorem generationsKept_rebuilt : GenerationsKept { hibernation := true }
    [.admitHostTunnel "host" ["w"] ⟨"e", 1⟩ 10, .tunnelMessage "host" 0 (.registrationUpdate ["w"]),
      .answered 0 (.claims (some ⟨"e", 2⟩)), .answered 0 (.generation (.found 2 false)),
      .admitHostTunnel "host" ["w"] ⟨"e", 2⟩ 20, .rebuild [1, 0] []] :=
  generationsKept_of_ranked _ _ (by decide)

/-- Two updates are verified against the same generation, and the lower of the two lands last. -/
theorem not_generationsKept : ¬ GenerationsKept { hibernation := true }
    [.admitHostTunnel "host" ["w"] ⟨"e", 1⟩ 10, .tunnelMessage "host" 0 (.registrationUpdate ["w"]),
      .tunnelMessage "host" 0 (.registrationUpdate ["w"]), .answered 0 (.claims (some ⟨"e", 2⟩)),
      .answered 0 (.claims (some ⟨"e", 3⟩)), .answered 1 (.generation (.found 3 false)),
      .answered 0 (.generation (.found 2 false))] := by
  intro h
  have hgrows := (h [.admitHostTunnel "host" ["w"] ⟨"e", 1⟩ 10, .tunnelMessage "host" 0 (.registrationUpdate ["w"]),
      .tunnelMessage "host" 0 (.registrationUpdate ["w"]), .answered 0 (.claims (some ⟨"e", 2⟩)),
      .answered 0 (.claims (some ⟨"e", 3⟩)), .answered 1 (.generation (.found 3 false))] _ [] rfl).grows "host" 3 2
    (by decide) (by decide)
  exact absurd hgrows (by decide)

end Claxedo.Relay

import Mathlib.Tactic
import Claxedo.Lib.Run
import Claxedo.Lib.Table

/-! The close codes and reasons that a relay and a host may put on a WebSocket. -/

namespace Claxedo.Relay

/-- A close code a server may send; anything else becomes `fallback`. -/
def closeCode (code : Option ℤ) (fallback : ℤ := 1011) : ℤ :=
  match code with
  | none => fallback
  | some code => if 1000 ≤ code ∧ code ≤ 4999 ∧ code ∉ [1004, 1005, 1006] then code else fallback

def CLOSE_REASON_MAX_BYTES : ℕ := 123

/-- As much of `chars` as fits behind `bytes` bytes. -/
def cutReason (bytes : ℕ) : List Char → List Char
  | [] => []
  | char :: chars =>
    if CLOSE_REASON_MAX_BYTES < bytes + char.utf8Size then [] else char :: cutReason (bytes + char.utf8Size) chars

/-- A close reason cut to the bytes a close frame carries. -/
def closeReason (reason : String) : String :=
  if reason.utf8ByteSize ≤ CLOSE_REASON_MAX_BYTES then reason else String.ofList (cutReason 0 reason.toList)

/-! The relay room of one workspace: the host tunnels registered in it, the client channels each of them carries, and the
handlers that are in the middle of an await. A socket is its place in the order of acceptance; a tunnel or client object is
told by its socket, and the token drawn for a channel is the number of its client's socket. -/

open Claxedo.Lib

def hostTunnelIncumbentOutranks (incumbentGeneration candidateGeneration : ℕ) : Bool :=
  candidateGeneration < incumbentGeneration

/-- What the lookup of a host's serving generation answers. -/
inductive GenerationAnswer where
  | unconfigured
  | threw (message : String)
  | unknown
  | found (generation : ℕ) (revoked : Bool)
  deriving DecidableEq

inductive HostTunnelGenerationDecision where
  | ok
  | refused (retryable : Bool) (code reason : String)
  deriving DecidableEq

def checkHostTunnelGeneration (answer : GenerationAnswer) (generation : ℕ) : HostTunnelGenerationDecision :=
  match answer with
  | .unconfigured => .refused false "host_generation_unverifiable"
      "Host tunnel generation cannot be verified by a relay without a host-generation resolver"
  | .threw message => .refused true "host_generation_lookup_unavailable" ("Host generation lookup is unavailable: " ++ message)
  | .unknown => .refused false "host_enrollment_unknown" "Host enrollment is unknown"
  | .found serving revoked =>
    if revoked then .refused false "host_enrollment_revoked" "Host enrollment was revoked"
    else if generation < serving then .refused false "host_generation_superseded" "Host tunnel generation was superseded"
    else if serving < generation then
      .refused false "host_generation_unknown" "Host tunnel generation is ahead of the control plane"
    else .ok

/-- The enrolment and generation that a host tunnel token names. -/
structure HostTunnelTokenClaims where
  enrollmentId : String
  generation : ℕ
  deriving DecidableEq

structure HostTunnelClient where
  channelId : ℕ
  hostId : String
  deriving DecidableEq

structure HostTunnel where
  hostId : String
  workspaceIds : List String
  connectedAt : ℕ
  enrollmentId : String
  generation : ℕ
  generationCheckFailures : ℕ := 0
  socket : ℕ
  channels : List HostTunnelClient := []
  deriving DecidableEq

/-- What a tunnel's socket keeps through hibernation. -/
structure HostTunnelAttachment where
  hostId : String
  workspaceIds : List String
  connectedAt : ℕ
  enrollmentId : String
  generation : ℕ
  generationCheckFailures : ℕ := 0

def hostTunnelAttachment (tunnel : HostTunnel) : HostTunnelAttachment where
  hostId := tunnel.hostId
  workspaceIds := tunnel.workspaceIds
  connectedAt := tunnel.connectedAt
  enrollmentId := tunnel.enrollmentId
  generation := tunnel.generation
  generationCheckFailures := tunnel.generationCheckFailures

/-- A tunnel as a wake finds it on its socket. -/
def HostTunnelAttachment.tunnel (attachment : HostTunnelAttachment) (socket : ℕ) : HostTunnel where
  hostId := attachment.hostId
  workspaceIds := attachment.workspaceIds
  connectedAt := attachment.connectedAt
  enrollmentId := attachment.enrollmentId
  generation := attachment.generation
  generationCheckFailures := attachment.generationCheckFailures
  socket := socket

/-- What the relay tells a host of a channel. -/
inductive ToHost where
  | wsOpen (channelId : ℕ)
  | wsFrame (channelId : ℕ)
  | wsClose (channelId : ℕ) (code : ℤ) (reason : String)

/-- A tunnel's socket: its attachment, the close the relay made of it, and what was sent on it. -/
structure HostSocket where
  hostId : String
  attachment : Option HostTunnelAttachment := none
  closed : Option (ℤ × String) := none
  told : List ToHost := []

/-- A client's socket, by the host that its target names. -/
structure ClientSocket where
  hostId : String
  attachment : Option String := none
  closed : Option (ℤ × String) := none

inductive UpdateStage where
  | verify
  | lookup (claims : HostTunnelTokenClaims)

inductive ClientFrameStage where
  | token
  | target
  | frame
  deriving DecidableEq

/-- A handler between two awaits; `hostId` and `socket` name the tunnel it holds on to. -/
inductive Handler where
  | update (hostId : String) (socket : ℕ) (workspaceIds : List String) (stage : UpdateStage)
  | recheck (hostId : String) (socket : ℕ) (generation : ℕ)
  | hostFrame (hostId : String) (socket : ℕ) (client : HostTunnelClient)
  | clientFrame (hostId : String) (socket : ℕ) (client : HostTunnelClient) (stage : ClientFrameStage)
  | sweep (clients : List HostTunnelClient)

/-- A room. `hostClosed` is kept for the proofs only: the channels a host closed itself, by the tunnel's socket. -/
structure Room where
  hostTunnels : List HostTunnel := []
  clients : List HostTunnelClient := []
  hostSockets : List HostSocket := []
  clientSockets : List ClientSocket := []
  handlers : List Handler := []
  hostClosed : List (ℕ × ℕ) := []

structure RoomOptions where
  hibernation : Bool
  tunnelChannelCap : ℕ := 16
  resolverOutageGraceAttempts : ℕ := 3

namespace Room

def tunnel (s : Room) (hostId : String) : Option HostTunnel := Table.get HostTunnel.hostId hostId s.hostTunnels

def putTunnel (tunnel : HostTunnel) (s : Room) : Room :=
  { s with hostTunnels := Table.put HostTunnel.hostId tunnel s.hostTunnels }

/-- The tunnel that is registered for a host, as long as it is the one on this socket. -/
def current (s : Room) (hostId : String) (socket : ℕ) : Option HostTunnel :=
  (s.tunnel hostId).filter (·.socket = socket)

def tell (socket : ℕ) (message : ToHost) (s : Room) : Room :=
  { s with hostSockets := s.hostSockets.modify socket fun host => { host with told := host.told ++ [message] } }

/-- A socket is closed once; a later close finds it closed. -/
def closeHostSocket (socket : ℕ) (code : ℤ) (reason : String) (s : Room) : Room :=
  { s with hostSockets := s.hostSockets.modify socket fun host =>
      { host with closed := some (host.closed.getD (code, closeReason reason)) } }

def closeClientSocket (channelId : ℕ) (code : ℤ) (reason : String) (s : Room) : Room :=
  { s with clientSockets := s.clientSockets.modify channelId fun client =>
      { client with closed := some (client.closed.getD (code, closeReason reason)) } }

def attach (tunnel : HostTunnel) (s : Room) : Room :=
  { s with hostSockets := s.hostSockets.modify tunnel.socket fun host =>
      { host with attachment := some (hostTunnelAttachment tunnel) } }

def start (handler : Handler) (s : Room) : Room := { s with handlers := s.handlers ++ [handler] }

/-- The tunnel lets go of a channel, and so does the room. -/
def deleteChannel (hostId : String) (socket : ℕ) (client : HostTunnelClient) (s : Room) : Room :=
  let s := { s with clients := s.clients.filter (· ≠ client) }
  match s.current hostId socket with
  | none => s
  | some tunnel => s.putTunnel { tunnel with channels := tunnel.channels.filter (·.channelId ≠ client.channelId) }

def cleanupTunnelResources (tunnel : HostTunnel) (reason : String) (s : Room) : Room :=
  tunnel.channels.foldl (fun s client => s.closeClientSocket client.channelId 1011 reason)
    { s with clients := s.clients.filter (· ∉ tunnel.channels) }

def cleanupHostTunnel (hostId : String) (socket : ℕ) (reason : String) (s : Room) : Room :=
  match s.current hostId socket with
  | none => s
  | some tunnel =>
    let s := s.cleanupTunnelResources tunnel reason
    { s with hostTunnels := s.hostTunnels.filter (·.hostId ≠ hostId) }

def dropHostTunnelChannel (hostId : String) (socket : ℕ) (client : HostTunnelClient) (code : ℤ) (reason : String)
    (s : Room) : Room :=
  ((s.deleteChannel hostId socket client).closeClientSocket client.channelId code reason).tell socket
    (.wsClose client.channelId code reason)

/-- The tunnel and client of a channel that is held. -/
def activeHostTunnelClient (s : Room) (channelId : ℕ) : Option (HostTunnel × HostTunnelClient) :=
  s.hostTunnels.findSome? fun tunnel => (tunnel.channels.find? (·.channelId = channelId)).map (tunnel, ·)

def cleanupHostTunnelClient (channelId : ℕ) (code : Option ℤ) (reason : Option String) (s : Room) : Room :=
  match s.activeHostTunnelClient channelId with
  | none => s
  | some (tunnel, client) =>
    (s.deleteChannel tunnel.hostId tunnel.socket client).tell tunnel.socket
      (.wsClose channelId (closeCode code 1000) (reason.getD "Client WebSocket closed"))

/-- A tunnel whose token verified and whose generation is being served. -/
def admitHostTunnel (options : RoomOptions) (hostId : String) (workspaceIds : List String) (claims : HostTunnelTokenClaims)
    (now : ℕ) (s : Room) : Room :=
  let previous := s.tunnel hostId
  if previous.any fun tunnel => hostTunnelIncumbentOutranks tunnel.generation claims.generation then s
  else
    let tunnel : HostTunnel := {
      hostId := hostId, workspaceIds := workspaceIds, connectedAt := now, enrollmentId := claims.enrollmentId,
      generation := claims.generation, socket := s.hostSockets.length }
    let accepted : HostSocket := {
      hostId := hostId, attachment := if options.hibernation then some (hostTunnelAttachment tunnel) else none }
    let s := { s with hostSockets := s.hostSockets ++ [accepted] }
    let s := match previous with
      | none => s
      | some previous => (s.cleanupTunnelResources previous "Host tunnel replaced").closeHostSocket previous.socket 1012
          "Host tunnel replaced"
    s.putTunnel tunnel

/-- A client whose target is a host; `opened` is whether the tunnel's socket took the `ws.open`. -/
def admitHostTunnelClient (options : RoomOptions) (hostId : String) (activeHost opened : Bool) (s : Room) : Room :=
  match s.tunnel hostId with
  | none => s
  | some tunnel =>
    if !activeHost || options.tunnelChannelCap ≤ tunnel.channels.length then s
    else
      let client : HostTunnelClient := { channelId := s.clientSockets.length, hostId := hostId }
      let accepted : ClientSocket := { hostId := hostId, attachment := if options.hibernation then some hostId else none }
      let s := { s with clientSockets := s.clientSockets ++ [accepted] }
      if opened then
        ({ s with clients := s.clients ++ [client] }.putTunnel { tunnel with channels := tunnel.channels ++ [client] }).tell
          tunnel.socket (.wsOpen client.channelId)
      else s.closeClientSocket client.channelId 1011 "Host tunnel unavailable"

/-- The tunnel that a wake makes of one of the sockets it finds: none where a later one of the host is there. -/
def rebuildHostTunnel (sockets : List HostSocket) (tunnels : List HostTunnel) (socket : ℕ) : List HostTunnel :=
  match (sockets[socket]?).bind HostSocket.attachment with
  | none => tunnels
  | some attachment =>
    let incumbent := Table.get HostTunnel.hostId attachment.hostId tunnels
    if incumbent.any fun incumbent => attachment.connectedAt < incumbent.connectedAt then tunnels
    else Table.put HostTunnel.hostId (attachment.tunnel socket) tunnels

def rebuildHostTunnelClient (s : Room) (channelId : ℕ) : Room :=
  match (s.clientSockets[channelId]?).bind ClientSocket.attachment with
  | none => s
  | some hostId =>
    match s.tunnel hostId with
    | none => s.closeClientSocket channelId 1011 "Host tunnel unavailable"
    | some tunnel =>
      let client : HostTunnelClient := { channelId := channelId, hostId := hostId }
      { s with clients := Table.put HostTunnelClient.channelId client s.clients }.putTunnel
        { tunnel with channels := Table.put HostTunnelClient.channelId client tunnel.channels }

/-- A wake, from the sockets that are still there in the order they are listed. -/
def rebuildHibernatedSockets (hosts clients : List ℕ) (s : Room) : Room :=
  clients.foldl rebuildHostTunnelClient
    { s with
      hostTunnels := hosts.foldl (rebuildHostTunnel s.hostSockets) []
      clients := []
      handlers := [] }

/-- Presence is removed with the refusal: a close the relay makes brings no close event where sockets hibernate. -/
def refuse (hostId : String) (socket : ℕ) (code : ℤ) (reason : String) (s : Room) : Room :=
  (s.cleanupHostTunnel hostId socket reason).closeHostSocket socket code reason

/-- A registration update whose token answered; it goes on to the lookup. -/
def verifiedUpdate (hostId : String) (socket : ℕ) (workspaceIds : List String) (claims : Option HostTunnelTokenClaims)
    (s : Room) : Room :=
  match s.current hostId socket with
  | none => s
  | some tunnel =>
    match claims with
    | none => s.refuse hostId socket 1008 "Host tunnel registration update denied"
    | some claims =>
      if hostTunnelIncumbentOutranks tunnel.generation claims.generation then
        s.refuse hostId socket 1008 "Host tunnel registration update superseded"
      else s.start (.update hostId socket workspaceIds (.lookup claims))

/-- A registration update whose generation was looked up. -/
def applyRegistrationUpdate (hostId : String) (socket : ℕ) (workspaceIds : List String) (claims : HostTunnelTokenClaims)
    (answer : GenerationAnswer) (s : Room) : Room :=
  match s.current hostId socket with
  | none => s
  | some tunnel =>
    match checkHostTunnelGeneration answer claims.generation with
    | .refused retryable _ reason =>
      s.refuse hostId socket (if retryable then 1012 else 1008) (if retryable then "Host generation check unavailable" else reason)
    | .ok =>
      let tunnel := { tunnel with
        workspaceIds := workspaceIds, enrollmentId := claims.enrollmentId, generation := claims.generation }
      (s.putTunnel tunnel).attach tunnel

/-- A re-check of the generation, answered. -/
def recheckHostGeneration (options : RoomOptions) (hostId : String) (socket generation : ℕ) (answer : GenerationAnswer)
    (s : Room) : Room :=
  match s.current hostId socket with
  | none => s
  | some tunnel =>
    match checkHostTunnelGeneration answer generation with
    | .ok =>
      if tunnel.generationCheckFailures = 0 then s
      else
        let tunnel := { tunnel with generationCheckFailures := 0 }
        (s.putTunnel tunnel).attach tunnel
    | .refused true _ _ =>
      let tunnel := { tunnel with generationCheckFailures := tunnel.generationCheckFailures + 1 }
      if tunnel.generationCheckFailures < options.resolverOutageGraceAttempts then (s.putTunnel tunnel).attach tunnel
      else s.refuse hostId socket 1012 "Host generation check unavailable"
    | .refused false _ reason => s.refuse hostId socket 1008 reason

end Room

/-- Whether a client's token is active. -/
inductive TokenActive where
  | active
  | inactive (reason : String) (unreachable : Bool)
  | threw
  deriving DecidableEq

/-- What an await answers. -/
inductive Answer where
  /-- The claims of a registration update's token, none where it does not verify. -/
  | claims (claims : Option HostTunnelTokenClaims)
  | generation (answer : GenerationAnswer)
  /-- Whether the token is active, and where a frame is sent at once, whether the socket took it. -/
  | token (token : TokenActive) (sent : Bool)
  /-- Whether the target is still this host, none where the lookup throws. -/
  | target (active : Option Bool)
  /-- The frame read from the message, where it can be, and whether the tunnel's socket took it. -/
  | frame (readable : Option Bool) (sent : Bool)
  deriving DecidableEq

/-- A tunnel message that concerns a registration or a channel. -/
inductive FromHost where
  | registrationUpdate (workspaceIds : List String)
  | wsFrame (channelId : ℕ)
  | wsClose (channelId : ℕ) (code : Option ℤ) (reason : Option String)
  | channelError (channelId : ℕ) (message : String)

namespace Room

def reportFrameHandlerFailure : String := "Workspace relay failed to process a frame"

/-- The host closes a channel itself. -/
def hostClosesChannel (tunnel : HostTunnel) (channelId : ℕ) (code : ℤ) (reason : String) (s : Room) : Room :=
  match tunnel.channels.find? (·.channelId = channelId) with
  | none => s
  | some client =>
    let s := (s.deleteChannel tunnel.hostId tunnel.socket client).closeClientSocket channelId code reason
    { s with hostClosed := s.hostClosed ++ [(tunnel.socket, channelId)] }

/-- A message is the live tunnel's only where it arrived on the live tunnel's socket. -/
def handleTunnelMessage (hostId : String) (socket : ℕ) (message : FromHost) (s : Room) : Room :=
  match s.current hostId socket with
  | none => s
  | some tunnel =>
    match message with
    | .registrationUpdate workspaceIds => s.start (.update hostId socket (firsts workspaceIds) .verify)
    | .wsFrame channelId =>
      match tunnel.channels.find? (·.channelId = channelId) with
      | none => s
      | some client => s.start (.hostFrame hostId socket client)
    | .wsClose channelId code reason => s.hostClosesChannel tunnel channelId (closeCode code) (reason.getD "")
    | .channelError channelId message => s.hostClosesChannel tunnel channelId 1011 message

/-- A frame from the host, once its client's token answered. -/
def deliverHostFrame (hostId : String) (socket : ℕ) (client : HostTunnelClient) (token : TokenActive) (sent : Bool)
    (s : Room) : Room :=
  match token with
  | .active =>
    if sent then s
    else s.dropHostTunnelChannel hostId socket client 1013 "Client WebSocket delivery failed"
  | .inactive reason _ => (s.deleteChannel hostId socket client).closeClientSocket client.channelId 1008 reason
  | .threw => s.closeHostSocket socket 1011 reportFrameHandlerFailure

/-- A frame from a client goes through its three awaits and on to the tunnel it was admitted to. -/
def deliverClientFrame (hostId : String) (socket : ℕ) (client : HostTunnelClient) (stage : ClientFrameStage) (answer : Answer)
    (s : Room) : Room :=
  match stage, answer with
  | .token, .token .active _ => s.start (.clientFrame hostId socket client .target)
  | .token, .token (.inactive reason _) _ => s.closeClientSocket client.channelId 1008 reason
  | .token, .token .threw _ => s.closeClientSocket client.channelId 1011 reportFrameHandlerFailure
  | .target, .target (some true) => s.start (.clientFrame hostId socket client .frame)
  | .target, .target (some false) =>
    s.closeClientSocket client.channelId 1011 "The machine serving this workspace is offline"
  | .target, .target none => s.closeClientSocket client.channelId 1011 reportFrameHandlerFailure
  | .frame, .frame (some true) sent =>
    if sent then s.tell socket (.wsFrame client.channelId)
    else s.closeClientSocket client.channelId 1011 "Host tunnel unavailable"
  | .frame, .frame (some false) _ => s
  | .frame, .frame none _ => s.closeClientSocket client.channelId 1011 reportFrameHandlerFailure
  | _, _ => s

/-- The sweep closes and forgets a client, and tells its host where it has one. -/
def revoke (client : HostTunnelClient) (reason : String) (s : Room) : Room :=
  match s.activeHostTunnelClient client.channelId with
  | some (tunnel, _) => s.dropHostTunnelChannel tunnel.hostId tunnel.socket client 1008 reason
  | none =>
    let s := s.closeClientSocket client.channelId 1008 reason
    { s with clients := s.clients.filter (· ≠ client) }

def sweepClient (client : HostTunnelClient) (token : TokenActive) (s : Room) : Room :=
  match token with
  | .inactive reason unreachable => if unreachable then s else s.revoke client reason
  | .active => s
  | .threw => s

/-- What a handler does with the answer it waited for. -/
def proceed (options : RoomOptions) (handler : Handler) (answer : Answer) (s : Room) : Room :=
  match handler, answer with
  | .update hostId socket workspaceIds .verify, .claims claims => s.verifiedUpdate hostId socket workspaceIds claims
  | .update hostId socket workspaceIds (.lookup claims), .generation answer =>
    s.applyRegistrationUpdate hostId socket workspaceIds claims answer
  | .recheck hostId socket generation, .generation answer => s.recheckHostGeneration options hostId socket generation answer
  | .hostFrame hostId socket client, .token token sent => s.deliverHostFrame hostId socket client token sent
  | .clientFrame hostId socket client stage, answer => s.deliverClientFrame hostId socket client stage answer
  | .sweep (client :: clients), .token token _ => (s.sweepClient client token).start (.sweep clients)
  | _, _ => s

def closeActiveSocketsForDrain (s : Room) : Room :=
  let s := s.hostTunnels.foldl (fun s tunnel => s.closeHostSocket tunnel.socket 1012 "Workspace relay is draining") s
  s.clients.foldl (fun s client => s.closeClientSocket client.channelId 1012 "Workspace relay is draining") s

end Room

/-- A request that comes while the room drains is refused and is no event; what came in before lands whenever it gets there. -/
inductive RoomEvent where
  /-- A host tunnel whose token verified and whose generation is served comes to be registered. -/
  | admitHostTunnel (hostId : String) (workspaceIds : List String) (claims : HostTunnelTokenClaims) (now : ℕ)
  /-- A tunnel's socket closes, the code and reason being the event's. -/
  | hostSocketClosed (hostId : String) (socket : ℕ) (code : Option ℤ) (reason : Option String)
  | hostSocketFailed (hostId : String) (socket : ℕ)
  | tunnelMessage (hostId : String) (socket : ℕ) (message : FromHost)
  | admitClient (hostId : String) (activeHost opened : Bool)
  | clientMessage (channelId : ℕ)
  /-- A client's socket closes, or fails where it does not hibernate. -/
  | clientSocketClosed (channelId : ℕ) (code : Option ℤ) (reason : Option String)
  | clientSocketFailed (channelId : ℕ)
  | answered (handler : ℕ) (answer : Answer)
  /-- The generation of a host's tunnel is looked up again, by its timer or by the sweep. -/
  | recheck (hostId : String)
  | alarm
  /-- A watcher, of a room that does not hibernate, finds a client's token or target inactive. -/
  | watched (channelId : ℕ) (code : ℤ) (reason : String)
  | drain (draining : Bool)
  | rebuild (hosts clients : List ℕ)

open Room in
def roomStep (options : RoomOptions) (s : Room) : RoomEvent → Room
  | .admitHostTunnel hostId workspaceIds claims now => s.admitHostTunnel options hostId workspaceIds claims now
  | .hostSocketClosed hostId socket code reason =>
    let s := if options.hibernation then s.closeHostSocket socket (closeCode code 1000) (reason.getD "") else s
    s.cleanupHostTunnel hostId socket "Host tunnel disconnected"
  | .hostSocketFailed hostId socket => s.cleanupHostTunnel hostId socket "Host tunnel disconnected"
  | .tunnelMessage hostId socket message => s.handleTunnelMessage hostId socket message
  | .admitClient hostId activeHost opened => s.admitHostTunnelClient options hostId activeHost opened
  | .clientMessage channelId =>
    match s.activeHostTunnelClient channelId with
    | none => s
    | some (tunnel, client) => s.start (.clientFrame tunnel.hostId tunnel.socket client .token)
  | .clientSocketClosed channelId code reason =>
    let s := if options.hibernation then s.closeClientSocket channelId (closeCode code 1000) (reason.getD "") else s
    s.cleanupHostTunnelClient channelId code reason
  | .clientSocketFailed channelId =>
    if options.hibernation then s.cleanupHostTunnelClient channelId (some 1011) (some "WebSocket error") else s
  | .answered i answer =>
    match s.handlers[i]? with
    | none => s
    | some handler => { s with handlers := s.handlers.eraseIdx i }.proceed options handler answer
  | .recheck hostId =>
    match s.tunnel hostId with
    | none => s
    | some tunnel => s.start (.recheck hostId tunnel.socket tunnel.generation)
  | .alarm => if options.hibernation then s.start (.sweep s.clients) else s
  | .watched channelId code reason => if options.hibernation then s else s.closeClientSocket channelId code reason
  | .drain draining => if draining then s.closeActiveSocketsForDrain else s
  | .rebuild hosts clients => if options.hibernation then s.rebuildHibernatedSockets hosts clients else s

end Claxedo.Relay

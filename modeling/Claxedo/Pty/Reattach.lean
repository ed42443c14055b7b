import Claxedo.Pty.Terminal

/-! A client that reattaches with a cursor is replayed the output from there on, whole, and then sent every chunk
that comes, once: as long as the buffer still reaches back to the cursor it names. -/

namespace Claxedo.Pty

open Lib

variable {E : Type} (env : PtyEnv E) (modeTracker : E) (restored : Text)

/-- A session after some of its life. -/
def sessionAfter (events : List SessionEvent) : ActiveSession E :=
  run (sessionStep env) (createdSession env modeTracker restored) events

def SessionEvent.chunks : SessionEvent → List Text
  | .output data _ => [data]
  | _ => []

/-- The output as it came, chunk by chunk. -/
def chunksOf (events : List SessionEvent) : List Text := events.flatMap SessionEvent.chunks

/-- All the output there has been: what was restored, and what came since. -/
def written (events : List SessionEvent) : Text := restored ++ (chunksOf events).flatten

def Frame.chunk? : Frame → Option Text
  | .text data => some data
  | .metaFrame _ _ => none

/-- The texts among the frames a client was sent. -/
def texts (frames : List Frame) : List Text := frames.filterMap Frame.chunk?

/-- What a client that attached at `cursor` is to have been sent once `events` have followed: a checkpoint first; or
the output from `cursor` up to where the session then was, filtered, with the modes before it, and after that the
chunks that followed, each once, all of them for as long as it is subscribed. -/
def WholeOrCheckpoint (before : List SessionEvent) (cursor : ℕ) (after : List SessionEvent) (client : Client) : Prop :=
  let session := sessionAfter env modeTracker restored before
  let replayed := (written restored before).drop cursor
  (∃ checkpoint, client.sent.head? = some (.metaFrame session.cursor (some checkpoint))) ∨
  ∃ later, client.sent = (replayChunks (env.emulator.buildPreamble session.modeTracker ++
        if replayed = [] then [] else env.sanitizeReplay replayed) 0).map .text ++
      .metaFrame session.cursor none :: later ∧
    texts later <+: chunksOf after ∧ (client.subscribed = true → texts later = chunksOf after)

/-- Whoever attached with a cursor the session had reached, and was answered, has been sent the whole of it. -/
def ReattachesWhole (events : List SessionEvent) : Prop :=
  ∀ before (cursor : ℕ) sockets after, events = before ++ .connect (some (cursor : ℤ)) sockets :: after →
    let session := sessionAfter env modeTracker restored before
    0 < cursor → cursor ≤ session.cursor →
    (attach env (some (cursor : ℤ)) (sockets session.clients.length) session).2 = true →
    ∃ client ∈ (sessionAfter env modeTracker restored events).clients[session.clients.length]?,
      WholeOrCheckpoint env modeTracker restored before cursor after client

/-- The buffer reaches back to the cursor a client names. -/
def Retained (session : ActiveSession E) : SessionEvent → Prop
  | .connect (some cursor) _ => 0 < cursor → cursor ≤ session.cursor → session.bufferCursor ≤ cursor
  | _ => True

/-- The buffer is the end of the output, and the cursors say which. -/
structure Buffered (output : Text) (session : ActiveSession E) : Prop where
  cursor : session.cursor = output.length
  buffer : session.buffer = output.drop session.bufferCursor
  within : session.bufferCursor ≤ output.length

section chunks

@[simp] theorem chunksOf_nil : chunksOf [] = [] := rfl

@[simp] theorem chunksOf_append (events more : List SessionEvent) : chunksOf (events ++ more) = chunksOf events ++ chunksOf more :=
  List.flatMap_append

@[simp] theorem chunksOf_cons (event : SessionEvent) (events : List SessionEvent) :
    chunksOf (event :: events) = event.chunks ++ chunksOf events := List.flatMap_cons

@[simp] theorem texts_nil : texts [] = [] := rfl

@[simp] theorem texts_append (frames more : List Frame) : texts (frames ++ more) = texts frames ++ texts more :=
  List.filterMap_append

@[simp] theorem texts_map_text (data : List Text) : texts (data.map .text) = data := by
  unfold texts
  rw [List.filterMap_map]
  exact List.filterMap_some

theorem replayChunks_of_le {replay : Text} {i : ℕ} (h : replay.length ≤ i) : replayChunks replay i = [] := by
  rw [replayChunks, if_neg (by omega)]

theorem flatten_replayChunks (replay : Text) (i : ℕ) : (replayChunks replay i).flatten = replay.drop i := by
  induction hn : replay.length - i using Nat.strong_induction_on generalizing i with
  | _ n ih =>
    by_cases h : i < replay.length
    · have hlt := lt_replayStop h
      have hle := replayStop_le replay i
      have hrest := ih (replay.length - replayStop replay i) (by omega) (replayStop replay i) rfl
      have hsplit : replay = replay.take (replayStop replay i) ++ replay.drop (replayStop replay i) :=
        (List.take_append_drop _ _).symm
      rw [replayChunks, if_pos h, List.flatten_cons, hrest]
      conv_rhs => rw [hsplit, List.drop_append_of_le_length (by rw [List.length_take]; omega)]
    · rw [replayChunks_of_le (by omega), List.drop_eq_nil_of_le (by omega), List.flatten_nil]

end chunks

section received

/-- What a client was sent over some events: of their chunks the first few, and all of them while it is subscribed. -/
structure Received (chunks : List Text) (client client' : Client) : Prop where
  sent : ∃ more, client'.sent = client.sent ++ more ∧ texts more <+: chunks ∧
    (client'.subscribed = true → texts more = chunks) ∧ (client.subscribed = false → more = [])
  subscribed : client'.subscribed = true → client.subscribed = true

theorem Received.refl (client : Client) : Received [] client client :=
  ⟨⟨[], by simp, List.prefix_refl _, fun _ => rfl, fun _ => rfl⟩, id⟩

theorem Received.trans {chunks chunks' : List Text} {a b c : Client} (h : Received chunks a b) (h' : Received chunks' b c) :
    Received (chunks ++ chunks') a c := by
  obtain ⟨more, hsent, hprefix, hall, hnone⟩ := h.sent
  obtain ⟨more', hsent', hprefix', hall', hnone'⟩ := h'.sent
  refine ⟨⟨more ++ more', by rw [hsent', hsent, List.append_assoc], ?_, fun hc => ?_, fun ha => ?_⟩,
      fun hc => h.subscribed (h'.subscribed hc)⟩
  · rw [texts_append]
    cases hb : b.subscribed with
    | true =>
      rw [hall hb]
      exact (List.prefix_append_right_inj _).mpr hprefix'
    | false =>
      rw [hnone' hb, texts_nil, List.append_nil]
      exact hprefix.trans (List.prefix_append _ _)
  · rw [texts_append, hall (h'.subscribed hc), hall' hc]
  · have hb : b.subscribed = false := by
      cases hb : b.subscribed with
      | false => rfl
      | true => rw [h.subscribed hb] at ha; cases ha
    rw [hnone ha, hnone' hb, List.append_nil]

/-- Letting go of a client sends it nothing. -/
theorem Received.dropped {client client' : Client} (hsent : client'.sent = client.sent) (hsubscribed : client'.subscribed = false)
    (chunks : List Text) : Received chunks client client' :=
  ⟨⟨[], by rw [hsent, List.append_nil], List.nil_prefix, by simp [hsubscribed], fun _ => rfl⟩, by simp [hsubscribed]⟩

/-- A send that is answered has sent the frame, and one that is not has sent nothing. -/
theorem sendWebSocketWithBackpressure_cases (max : ℕ) (socket : Socket) (data : Frame) (ws : Client) :
    (sendWebSocketWithBackpressure max socket data ws).2 = true ∧
      (sendWebSocketWithBackpressure max socket data ws).1 = { ws with sent := ws.sent ++ [data] } ∨
    (sendWebSocketWithBackpressure max socket data ws).2 = false ∧
      (sendWebSocketWithBackpressure max socket data ws).1.sent = ws.sent := by
  unfold sendWebSocketWithBackpressure
  dsimp only
  split_ifs
  · exact .inr ⟨rfl, rfl⟩
  · exact .inr ⟨rfl, rfl⟩
  · exact .inr ⟨rfl, rfl⟩
  · exact .inl ⟨rfl, rfl⟩

variable {env}

/-- Every client there was has been sent what it was due. -/
def Served (chunks : List Text) (session session' : ActiveSession E) : Prop :=
  ∀ id : ℕ, ∀ client ∈ session.clients[id]?, ∃ client' ∈ session'.clients[id]?, Received chunks client client'

theorem Served.refl (session : ActiveSession E) : Served [] session session :=
  fun _ client hclient => ⟨client, hclient, .refl client⟩

variable {a b : ActiveSession E}

theorem Served.trans {chunks chunks' : List Text} {c : ActiveSession E} (h : Served chunks a b) (h' : Served chunks' b c) :
    Served (chunks ++ chunks') a c := by
  intro id client hclient
  obtain ⟨client₁, hclient₁, hreceived₁⟩ := h id client hclient
  obtain ⟨client₂, hclient₂, hreceived₂⟩ := h' id client₁ hclient₁
  exact ⟨client₂, hclient₂, hreceived₁.trans hreceived₂⟩

theorem Served.of_clients (h : b.clients = a.clients) : Served [] a b := by
  intro id client hclient
  exact ⟨client, by rw [h]; exact hclient, .refl client⟩

theorem served_safeBroadcast (sockets : ℕ → Socket) (data : Frame) (session : ActiveSession E) :
    Served data.chunk?.toList session (safeBroadcast env sockets data session) := by
  intro id client hclient
  unfold safeBroadcast
  rw [List.getElem?_mapIdx, hclient]
  refine ⟨_, rfl, ?_⟩
  cases hsubscribed : client.subscribed with
  | false => simpa only [hsubscribed, Bool.false_eq_true, if_false] using .dropped rfl hsubscribed _
  | true =>
    simp only [hsubscribed, if_true]
    rcases sendWebSocketWithBackpressure_cases env.websocketBufferedAmountMax (sockets id) data client with
      ⟨hsent, hclient'⟩ | ⟨hsent, hclient'⟩
    · refine ⟨⟨[data], by simp [hclient'], ?_, fun _ => ?_, by simp [hsubscribed]⟩, fun _ => hsubscribed⟩
      · cases data <;> exact List.prefix_refl _
      · cases data <;> rfl
    · exact .dropped (by exact hclient') (by exact hsent) _

theorem served_closeSubscribers (chunks : List Text) (session : ActiveSession E) :
    Served chunks session (closeSubscribers session) := by
  intro id client hclient
  unfold closeSubscribers
  rw [List.getElem?_map, hclient]
  refine ⟨_, rfl, ?_⟩
  cases hsubscribed : client.subscribed with
  | false => simpa only [hsubscribed, Bool.false_eq_true, if_false] using .dropped rfl hsubscribed _
  | true =>
    simp only [hsubscribed, if_true]
    exact .dropped (by rfl) (by rfl) _

/-- What is done between two chunks: the buffer stays, and no client is sent a text. -/
structure Quiet (session session' : ActiveSession E) : Prop where
  buffer : session'.buffer = session.buffer
  bufferCursor : session'.bufferCursor = session.bufferCursor
  cursor : session'.cursor = session.cursor
  served : Served [] session session'

theorem Quiet.refl (session : ActiveSession E) : Quiet session session := ⟨rfl, rfl, rfl, .refl session⟩

theorem Quiet.trans {c : ActiveSession E} (h : Quiet a b) (h' : Quiet b c) : Quiet a c :=
  ⟨h'.buffer.trans h.buffer, h'.bufferCursor.trans h.bufferCursor, h'.cursor.trans h.cursor, h.served.trans h'.served⟩

theorem Quiet.buffered {output : Text} {session session' : ActiveSession E} (h : Quiet session session')
    (hbuffered : Buffered output session) : Buffered output session' :=
  ⟨h.cursor.trans hbuffered.cursor, by rw [h.buffer, h.bufferCursor, hbuffered.buffer],
    h.bufferCursor.symm ▸ hbuffered.within⟩

theorem quiet_onResize (sockets : ℕ → Socket) (session : ActiveSession E) : Quiet session (onResize env sockets session) := by
  unfold onResize
  split
  · exact ⟨rfl, rfl, rfl, served_safeBroadcast sockets _ session⟩
  · exact ⟨rfl, rfl, rfl, served_closeSubscribers [] session⟩

theorem quiet_flushOperation (sockets : ℕ → Socket) (session : ActiveSession E) (operation : QueuedOperation) :
    Quiet session (flushOperation env sockets session operation) := by
  cases operation with
  | write data => exact ⟨rfl, rfl, rfl, .of_clients rfl⟩
  | resize cols rows =>
    refine Quiet.trans ?_ (quiet_onResize sockets _)
    exact ⟨rfl, rfl, rfl, .of_clients rfl⟩

theorem quiet_flushWriteQueue (sockets : ℕ → Socket) (session : ActiveSession E) :
    Quiet session (flushWriteQueue env sockets session) := by
  unfold flushWriteQueue
  split
  · have hfold : ∀ (queue : List QueuedOperation) (session : ActiveSession E),
        Quiet session (queue.foldl (flushOperation env sockets) session) := by
      intro queue
      induction queue with
      | nil => exact .refl
      | cons operation queue ih => exact fun session => (quiet_flushOperation sockets session operation).trans (ih _)
    refine Quiet.trans ?_ (hfold _ _)
    exact ⟨rfl, rfl, rfl, .of_clients rfl⟩
  · exact .refl session

theorem quiet_enqueueWrite (operation : QueuedOperation) (session : ActiveSession E) :
    Quiet session (enqueueWrite env operation session) := by
  unfold enqueueWrite
  dsimp only
  split_ifs
  · exact .refl session
  · exact ⟨rfl, rfl, rfl, .of_clients rfl⟩
  · exact ⟨rfl, rfl, rfl, .of_clients rfl⟩

theorem served_snoc {session session' : ActiveSession E} {ws : Client} (h : session'.clients = session.clients ++ [ws]) :
    Served [] session session' := by
  intro id client hclient
  refine ⟨client, ?_, .refl client⟩
  rw [h, List.getElem?_append_left (List.getElem?_eq_some_iff.mp hclient).1]
  exact hclient

theorem quiet_connect (cursor : Option ℤ) (sockets : ℕ → Socket) (session : ActiveSession E) :
    Quiet session (connect env cursor sockets session) := by
  unfold connect
  split
  · refine Quiet.trans ?_ (quiet_flushWriteQueue sockets _)
    exact ⟨rfl, rfl, rfl, served_snoc rfl⟩
  · exact ⟨rfl, rfl, rfl, served_snoc rfl⟩

theorem quiet_onClose (id : ℕ) (session : ActiveSession E) : Quiet session (sessionStep env session (.onClose id)) := by
  refine ⟨rfl, rfl, rfl, fun id' client hclient => ?_⟩
  unfold sessionStep
  rw [List.getElem?_modify, hclient]
  refine ⟨_, rfl, ?_⟩
  split_ifs
  · exact .dropped (by rfl) (by rfl) _
  · exact .refl client

end received

section output

variable {env}

theorem trimBuffer_clients (session : ActiveSession E) : (trimBuffer session).clients = session.clients := by
  unfold trimBuffer
  split
  · rfl
  · rfl

variable {out : Text} {session : ActiveSession E}

theorem buffered_trimBuffer (h : Buffered out session) :
    Buffered out (trimBuffer session) := by
  unfold trimBuffer
  split
  · have hcut := safeStartIndex_le session.buffer (session.buffer.length - BUFFER_LIMIT)
    have hlength : session.buffer.length = out.length - session.bufferCursor := by rw [h.buffer, List.length_drop]
    refine ⟨h.cursor, ?_, ?_⟩
    · dsimp only
      rw [← List.drop_drop, ← h.buffer]
    · have hwithin := h.within
      dsimp only
      omega
  · exact h

theorem served_output (data : Text) (sockets : ℕ → Socket) (session : ActiveSession E) :
    Served [data] session (output env data sockets session) := by
  intro id client hclient
  unfold output
  rw [trimBuffer_clients]
  exact served_safeBroadcast sockets (.text data) _ id client hclient

theorem buffered_output (h : Buffered out session) (data : Text) (sockets : ℕ → Socket) :
    Buffered (out ++ data) (output env data sockets session) := by
  refine buffered_trimBuffer ⟨?_, ?_, ?_⟩
  · simp [safeBroadcast, h.cursor]
  · simp only [safeBroadcast]
    rw [h.buffer, List.drop_append_of_le_length h.within]
  · simp only [safeBroadcast, List.length_append]
    exact Nat.le_add_right_of_le h.within

theorem quiet_closeSubscribers (session : ActiveSession E) : Quiet session (closeSubscribers session) :=
  ⟨rfl, rfl, rfl, served_closeSubscribers [] session⟩

theorem quiet_step {event : SessionEvent} (h : ∀ data sockets, event ≠ .output data sockets) (session : ActiveSession E) :
    Quiet session (sessionStep env session event) := by
  cases event with
  | output data sockets => exact absurd rfl (h data sockets)
  | connect cursor sockets => exact quiet_connect cursor sockets session
  | resize cols rows sockets =>
    simp only [sessionStep]
    split
    · exact (quiet_enqueueWrite _ session).trans (quiet_flushWriteQueue sockets _)
    · exact .refl session
  | write data =>
    simp only [sessionStep]
    split
    · exact quiet_enqueueWrite _ session
    · exact .refl session
  | onClose id => exact quiet_onClose id session
  | exited => exact ⟨rfl, rfl, rfl, .of_clients rfl⟩
  | cleanup remove =>
    simp only [sessionStep]
    split
    · refine (quiet_closeSubscribers session).trans ?_
      exact ⟨rfl, rfl, rfl, .of_clients rfl⟩
    · exact quiet_closeSubscribers session

theorem chunks_eq_nil {event : SessionEvent} (h : ∀ data sockets, event ≠ .output data sockets) : event.chunks = [] := by
  cases event with
  | output data sockets => exact absurd rfl (h data sockets)
  | _ => rfl

theorem output_or (event : SessionEvent) :
    (∃ data sockets, event = .output data sockets) ∨ ∀ data sockets, event ≠ .output data sockets := by
  by_cases h : ∃ data sockets, event = .output data sockets
  · exact .inl h
  · exact .inr fun data sockets he => h ⟨data, sockets, he⟩

theorem served_step (session : ActiveSession E) (event : SessionEvent) :
    Served event.chunks session (sessionStep env session event) := by
  rcases output_or event with ⟨data, sockets, rfl⟩ | h
  · exact served_output data sockets session
  · rw [chunks_eq_nil h]
    exact (quiet_step h session).served

theorem buffered_step (hbuffered : Buffered out session) (event : SessionEvent) :
    Buffered (out ++ event.chunks.flatten) (sessionStep env session event) := by
  rcases output_or event with ⟨data, sockets, rfl⟩ | h
  · rw [SessionEvent.chunks, List.flatten_singleton]
    exact buffered_output hbuffered data sockets
  · rw [chunks_eq_nil h, List.flatten_nil, List.append_nil]
    exact (quiet_step h session).buffered hbuffered

theorem served_run (session : ActiveSession E) (events : List SessionEvent) :
    Served (chunksOf events) session (run (sessionStep env) session events) := by
  induction events generalizing session with
  | nil => exact .refl session
  | cons event events ih =>
    rw [run_cons, chunksOf_cons]
    exact (served_step session event).trans (ih _)

/-- The cursors say where in the output the buffer stands, at every step. -/
theorem buffered_sessionAfter (env : PtyEnv E) (modeTracker : E) (restored : Text) (events : List SessionEvent) :
    Buffered (written restored events) (sessionAfter env modeTracker restored events) := by
  induction events using List.reverseRecOn with
  | nil => exact ⟨by simp [sessionAfter, written, createdSession], by simp [sessionAfter, written, createdSession], Nat.zero_le _⟩
  | append_singleton events event ih =>
    have hwritten : written restored (events ++ [event]) = written restored events ++ event.chunks.flatten := by
      simp [written, List.append_assoc]
    rw [hwritten, sessionAfter, run_snoc]
    exact buffered_step ih event

end output

section attach

variable {env}

theorem sendChunks_sent {socket : Socket} {chunks : List Text} {ws ws' : Client}
    (h : sendChunks env socket chunks ws = (ws', true)) :
    ws'.sent = ws.sent ++ chunks.map .text ∧ ws'.subscribed = ws.subscribed := by
  induction chunks generalizing ws with
  | nil =>
    cases h
    simp
  | cons chunk chunks ih =>
    rw [sendChunks] at h
    rcases sendWebSocketWithBackpressure_cases env.websocketBufferedAmountMax socket (.text chunk) ws with
      ⟨hsent, hws⟩ | ⟨hsent, hws⟩
    · rw [← Prod.eta (sendWebSocketWithBackpressure _ _ _ _), hsent, hws] at h
      obtain ⟨hrest, hsubscribed⟩ := ih h
      exact ⟨by simp [hrest], hsubscribed⟩
    · rw [← Prod.eta (sendWebSocketWithBackpressure _ _ _ _), hsent] at h
      cases h

theorem replayFrom_eq (cursor stop : ℕ) : replayFrom (some cursor) stop = cursor ∨ replayFrom (some cursor) stop = 0 := by
  unfold replayFrom
  dsimp only
  rw [if_neg (by omega)]
  split_ifs
  · exact .inl (Int.toNat_natCast cursor)
  · exact .inr rfl

theorem replayData_eq {out : Text} {session : ActiveSession E} (h : Buffered out session) {cursor : ℕ}
    (hfrom : replayFrom (some cursor) session.cursor = cursor) (hretained : session.bufferCursor ≤ cursor) :
    replayData env (some cursor) session = if out.drop cursor = [] then [] else env.sanitizeReplay (out.drop cursor) := by
  have hlength : session.buffer.length = out.length - session.bufferCursor := by rw [h.buffer, List.length_drop]
  have hcursor := h.cursor
  have hdrop : session.buffer.drop (cursor - session.bufferCursor) = out.drop cursor := by
    rw [h.buffer, List.drop_drop, Nat.add_sub_cancel' hretained]
  unfold replayData
  dsimp only
  rw [hfrom, hdrop]
  by_cases hend : out.length ≤ cursor
  · rw [List.drop_eq_nil_of_le hend, if_pos rfl]
    split_ifs <;> first | rfl | omega
  · have hsome : out.drop cursor ≠ [] := by
      rw [Ne, List.drop_eq_nil_iff]
      exact hend
    have hbuffer : session.buffer ≠ [] := by
      rw [← List.length_pos_iff, hlength]
      omega
    rw [if_neg hsome, if_neg hbuffer, if_neg (by omega), if_neg (by omega)]

/-- A client whose attach was answered was sent a checkpoint, or the replay from its cursor on and where it ends. -/
theorem attach_sent {out : Text} {session : ActiveSession E} (h : Buffered out session) {cursor : ℕ}
    (hretained : session.bufferCursor ≤ cursor) {socket : Socket} {ws : Client}
    (hattach : attach env (some cursor) socket session = (ws, true)) :
    (∃ checkpoint, ws.sent = [.metaFrame session.cursor (some checkpoint)]) ∨
    ws.sent = (replayChunks (env.emulator.buildPreamble session.modeTracker ++
      if out.drop cursor = [] then [] else env.sanitizeReplay (out.drop cursor)) 0).map .text ++
        [.metaFrame session.cursor none] := by
  unfold attach at hattach
  dsimp only at hattach
  split at hattach
  · split at hattach
    · rename_i checkpoint _
      rcases sendWebSocketWithBackpressure_cases env.websocketBufferedAmountMax socket
        (.metaFrame session.cursor (some checkpoint)) {} with ⟨_, hws⟩ | ⟨hsent, _⟩
      · rw [hattach] at hws
        exact .inl ⟨checkpoint, congrArg Client.sent hws⟩
      · rw [hattach] at hsent
        cases hsent
    · cases hattach
  · rename_i hfrom
    rw [replayData_eq h ((replayFrom_eq cursor session.cursor).resolve_right hfrom) hretained] at hattach
    split at hattach
    · rename_i sent hsafe
      rcases sendWebSocketWithBackpressure_cases env.websocketBufferedAmountMax socket (.metaFrame session.cursor none) sent with
        ⟨_, hws⟩ | ⟨hsent, _⟩
      · rw [hattach] at hws
        refine .inr ((congrArg Client.sent hws).trans ?_)
        dsimp only
        rw [(sendChunks_sent hsafe).1, List.nil_append]
      · rw [hattach] at hsent
        cases hsent
    · cases hattach

end attach

section whole

variable {env modeTracker restored}

/-- Who was answered stays among the clients, with what it was sent. -/
theorem connect_client {cursor : Option ℤ} {sockets : ℕ → Socket} {session : ActiveSession E} {ws : Client}
    (h : attach env cursor (sockets session.clients.length) session = (ws, true)) :
    ∃ client ∈ (connect env cursor sockets session).clients[session.clients.length]?, Received [] ws client := by
  have hquiet : Quiet { session with clients := session.clients ++ [ws], ready := true }
      (flushWriteQueue env sockets { session with clients := session.clients ++ [ws], ready := true }) :=
          quiet_flushWriteQueue sockets _
  have hserved := hquiet.served session.clients.length ws
  unfold connect
  rw [h]
  exact hserved (by rw [List.getElem?_append_right (Nat.le_refl _), Nat.sub_self]; rfl)

theorem wholeOrCheckpoint_of_retained {before : List SessionEvent} {cursor : ℕ} {sockets : ℕ → Socket} {after : List SessionEvent}
    (hretained : (sessionAfter env modeTracker restored before).bufferCursor ≤ cursor)
    (hattach : (attach env (some cursor) (sockets (sessionAfter env modeTracker restored before).clients.length)
      (sessionAfter env modeTracker restored before)).2 = true) :
    ∃ client ∈ (sessionAfter env modeTracker restored
        (before ++ .connect (some cursor) sockets :: after)).clients[(sessionAfter env modeTracker restored before).clients.length]?,
      WholeOrCheckpoint env modeTracker restored before cursor after client := by
  have hbuffered := buffered_sessionAfter env modeTracker restored before
  obtain ⟨ws, hws⟩ : ∃ ws, attach env (some (cursor : ℤ)) (sockets (sessionAfter env modeTracker restored before).clients.length)
      (sessionAfter env modeTracker restored before) = (ws, true) := ⟨_, Prod.ext rfl hattach⟩
  obtain ⟨connected, hconnected, hreceived⟩ := connect_client hws
  obtain ⟨client, hclient, hserved⟩ := served_run (connect env (some cursor) sockets (sessionAfter env modeTracker restored before))
    after _ connected hconnected
  refine ⟨client, ?_, ?_⟩
  · rw [sessionAfter, run_append, run_cons]
    exact hclient
  · obtain ⟨later, hsent, hprefix, hall, -⟩ := (hreceived.trans hserved).sent
    rw [List.nil_append] at hprefix hall
    rcases attach_sent hbuffered hretained hws with ⟨checkpoint, hcheckpoint⟩ | hreplay
    · exact .inl ⟨checkpoint, by rw [hsent, hcheckpoint]; rfl⟩
    · exact .inr ⟨later, by rw [hsent, hreplay, List.append_assoc]; rfl, hprefix, hall⟩

/-- What holds of a session's life: its cursors agree, and whoever reattaches gets the whole or a checkpoint. -/
def Reattachable (env : PtyEnv E) (modeTracker : E) (restored : Text) (events : List SessionEvent) : Prop :=
  let session := sessionAfter env modeTracker restored events
  session.bufferCursor + session.buffer.length = session.cursor ∧ ReattachesWhole env modeTracker restored events

theorem reattachable_of_retained (env : PtyEnv E) (modeTracker : E) (restored : Text) (events : List SessionEvent)
    (h : Meets (sessionStep env) Retained (createdSession env modeTracker restored) events) :
    Reattachable env modeTracker restored events := by
  refine ⟨?_, ?_⟩
  · have hbuffered := buffered_sessionAfter env modeTracker restored events
    have hwithin := hbuffered.within
    rw [hbuffered.cursor, hbuffered.buffer, List.length_drop]
    omega
  · intro before cursor sockets after hevents session hpos hcursor hattach
    subst hevents
    have hretained := ((meets_append _ _ _ _ _).mp h).2.1
    exact wholeOrCheckpoint_of_retained (Int.ofNat_le.mp (hretained (by omega) (by exact_mod_cast hcursor))) hattach

end whole

section trimmed

variable {env}

/-- A client whose cursor the buffer no longer reaches is replayed the buffer alone. -/
theorem replayData_of_trimmed {out : Text} {session : ActiveSession E} (h : Buffered out session) {cursor : ℕ}
    (hfrom : replayFrom (some cursor) session.cursor = cursor) (htrimmed : cursor ≤ session.bufferCursor)
    (hbuffer : session.buffer ≠ []) : replayData env (some cursor) session = env.sanitizeReplay session.buffer := by
  have hpos := List.length_pos_iff.mpr hbuffer
  have hlength : session.buffer.length = out.length - session.bufferCursor := by rw [h.buffer, List.length_drop]
  have hcursor := h.cursor
  unfold replayData
  dsimp only
  rw [hfrom, if_neg hbuffer, if_neg (by omega), Nat.sub_eq_zero_of_le htrimmed, if_neg (by omega), List.drop_zero]

/-- A socket that is open and takes everything. -/
def openSocket : Socket := fun _ => {}

theorem send_openSocket (max : ℕ) (data : Frame) {ws : Client} (h : ws.closed = false) :
    sendWebSocketWithBackpressure max openSocket data ws = ({ ws with sent := ws.sent ++ [data] }, true) := by
  simp [sendWebSocketWithBackpressure, openSocket, h]

theorem sendChunks_openSocket (chunks : List Text) {ws : Client} (h : ws.closed = false) :
    sendChunks env openSocket chunks ws = ({ ws with sent := ws.sent ++ chunks.map .text }, true) := by
  induction chunks generalizing ws with
  | nil => simp [sendChunks]
  | cons chunk chunks ih =>
    rw [sendChunks, send_openSocket _ _ h]
    have hrest := @ih { ws with sent := ws.sent ++ [.text chunk] } h
    refine hrest.trans ?_
    simp

theorem attach_openSocket {cursor : Option ℤ} {session : ActiveSession E} (h : replayFrom cursor session.cursor ≠ 0) :
    attach env cursor openSocket session =
      ({ sent := (replayChunks (env.emulator.buildPreamble session.modeTracker ++ replayData env cursor session) 0).map .text ++
          [.metaFrame session.cursor none] }, true) := by
  unfold attach safeReplay
  dsimp only
  rw [if_neg h, sendChunks_openSocket _ rfl]
  dsimp only
  rw [send_openSocket _ _ rfl, List.nil_append]

/-- An emulator that never has a mode to say, and a filter that lets printable text through as it is. -/
def plainEnv : PtyEnv Unit where
  emulator := { feed := fun _ _ => (), resize := fun _ _ _ => (), buildPreamble := fun _ => [], checkpoint := fun _ => none }
  sanitizeReplay := id

/-- A session of whose output only `data` has come, more of it than the buffer takes before it is cut back. -/
structure Flooded (data : Text) : Prop where
  long : BUFFER_TRIM_AT < data.length
  escapes : ∀ code ∈ data, code ≠ ESC
  surrogates : ∀ code ∈ data, isLowSurrogate code = false

def floodedSession (data : Text) : ActiveSession Unit := sessionAfter plainEnv () [] [.output data fun _ => openSocket]

theorem buffered_floodedSession (data : Text) : Buffered data (floodedSession data) := by
  have h := buffered_sessionAfter plainEnv () [] [.output data fun _ => openSocket]
  have hwritten : written [] [.output data fun _ => openSocket] = data := List.append_nil data
  rwa [hwritten] at h

theorem floodedSession_eq (data : Text) :
    floodedSession data = trimBuffer { buffer := data, cursor := data.length, modeTracker := () } := by
  simp [floodedSession, sessionAfter, createdSession, sessionStep, output, safeBroadcast, plainEnv]

variable {data : Text}

theorem Flooded.bufferCursor (h : Flooded data) :
    (floodedSession data).bufferCursor = data.length - BUFFER_LIMIT := by
  have hlong := h.long
  have hcut : safeStartIndex data (data.length - BUFFER_LIMIT) = data.length - BUFFER_LIMIT :=
    safeStartIndex_of_plain (by unfold BUFFER_TRIM_AT BUFFER_LIMIT at *; omega) h.escapes h.surrogates
  rw [floodedSession_eq, trimBuffer, if_pos hlong]
  dsimp only
  rw [hcut, Nat.zero_add]

/-- What the first client to name position 1 is sent then: the buffer, and no more. -/
def trimmedReplay (data : Text) : List Frame :=
  (replayChunks (floodedSession data).buffer 0).map .text ++ [.metaFrame (floodedSession data).cursor none]

theorem Flooded.length_buffer (h : Flooded data) : (floodedSession data).buffer.length = BUFFER_LIMIT := by
  have hlong := h.long
  rw [(buffered_floodedSession data).buffer, List.length_drop, h.bufferCursor]
  unfold BUFFER_TRIM_AT BUFFER_LIMIT at *
  omega

theorem Flooded.attach (h : Flooded data) :
    attach plainEnv (some ((1 : ℕ) : ℤ)) openSocket (floodedSession data) = ({ sent := trimmedReplay data }, true) := by
  have hlong := h.long
  have hfrom : replayFrom (some ((1 : ℕ) : ℤ)) (floodedSession data).cursor = 1 := by
    simp [replayFrom, MAX_SAFE_INTEGER]
  have hbuffer : (floodedSession data).buffer ≠ [] := by
    rw [← List.length_pos_iff, h.length_buffer]
    decide
  have hdata : replayData plainEnv (some ((1 : ℕ) : ℤ)) (floodedSession data) = (floodedSession data).buffer :=
    replayData_of_trimmed (buffered_floodedSession data) hfrom
      (by rw [h.bufferCursor]; unfold BUFFER_TRIM_AT BUFFER_LIMIT at *; omega) hbuffer
  rw [attach_openSocket (by rw [hfrom]; decide), hdata]
  rfl

theorem Flooded.not_reattachesWhole (h : Flooded data) :
    ¬ ReattachesWhole plainEnv () [] [.output data fun _ => openSocket, .connect (some ((1 : ℕ) : ℤ)) fun _ => openSocket] := by
  intro hwhole
  have hlong := h.long
  have hlength := h.length_buffer
  have hcursor : (floodedSession data).cursor = data.length := (buffered_floodedSession data).cursor
  obtain ⟨client, hclient, hshape⟩ := hwhole [.output data fun _ => openSocket] 1 (fun _ => openSocket) [] rfl Nat.one_pos
    (by change 1 ≤ (floodedSession data).cursor; rw [hcursor]; omega) (congrArg Prod.snd h.attach)
  obtain ⟨connected, hconnected, hreceived⟩ : ∃ connected ∈ (connect plainEnv (some ((1 : ℕ) : ℤ)) (fun _ => openSocket)
      (floodedSession data)).clients[(floodedSession data).clients.length]?, Received [] { sent := trimmedReplay data } connected :=
    connect_client h.attach
  obtain rfl : client = connected := Option.mem_unique hclient hconnected
  obtain ⟨more, hsent, hmore, -⟩ := hreceived.sent
  have hnone : texts more = [] := List.prefix_nil.mp hmore
  have hchunks : (replayChunks (floodedSession data).buffer 0).flatten.length = BUFFER_LIMIT := by
    rw [flatten_replayChunks, List.drop_zero, hlength]
  rcases hshape with ⟨checkpoint, hhead⟩ | ⟨later, hreplay, hlater, -⟩
  · rw [hsent] at hhead
    cases hpieces : replayChunks (floodedSession data).buffer 0 with
    | nil =>
      rw [hpieces] at hchunks
      exact absurd hchunks (by decide)
    | cons chunk chunks =>
      simp [trimmedReplay, hpieces] at hhead
  · have hwritten : written [] [SessionEvent.output data fun _ => openSocket] = data := List.append_nil data
    have hlater' : texts later = [] := List.prefix_nil.mp hlater
    have hdropped : data.drop 1 ≠ [] := by
      rw [Ne, List.drop_eq_nil_iff]
      unfold BUFFER_TRIM_AT BUFFER_LIMIT at hlong
      omega
    rw [hwritten, if_neg hdropped] at hreplay
    have hmeta : ∀ cursor frames, texts (.metaFrame cursor none :: frames) = texts frames := fun _ _ => rfl
    have htexts := congrArg texts (hsent.symm.trans hreplay)
    rw [trimmedReplay, texts_append, texts_append, texts_append, texts_map_text, texts_map_text, hnone, hmeta, hmeta, hlater',
      texts_nil, List.append_nil, List.append_nil, List.append_nil] at htexts
    have hpieces : replayChunks (floodedSession data).buffer 0 = replayChunks (data.drop 1) 0 := htexts
    rw [hpieces, flatten_replayChunks, List.drop_zero, List.length_drop] at hchunks
    unfold BUFFER_TRIM_AT BUFFER_LIMIT at *
    omega

theorem reattachable_echo : Reattachable plainEnv () []
    [.output [0x6c, 0x73] fun _ => openSocket, .connect (some 1) fun _ => openSocket, .output [0x0a] fun _ => openSocket] :=
  reattachable_of_retained plainEnv () [] _ ⟨trivial, fun _ _ => by decide, trivial, trivial⟩

/-- One unit more than the buffer holds before it is cut back. -/
def flood : Text := List.replicate (BUFFER_TRIM_AT + 1) 0x78

theorem flooded_flood : Flooded flood := by
  refine ⟨?_, ?_, ?_⟩
  · unfold flood
    rw [List.length_replicate]
    exact Nat.lt_succ_self _
  · intro code hcode
    rw [List.eq_of_mem_replicate hcode]
    decide
  · intro code hcode
    rw [List.eq_of_mem_replicate hcode]
    decide

theorem not_reattachable : ¬ Reattachable plainEnv () []
    [.output flood fun _ => openSocket, .connect (some 1) fun _ => openSocket] :=
  fun h => flooded_flood.not_reattachesWhole h.2

end trimmed

end Claxedo.Pty

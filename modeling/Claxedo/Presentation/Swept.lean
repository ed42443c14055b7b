import Claxedo.Presentation.Trace

/-! The sweep that ends a turn: what it leaves of the tool calls the turn has shown. -/

namespace Claxedo.Presentation

open Claxedo.Lib

/-- The last part published of a call. -/
def lastPart (c : String) (events : List Payload) : Option ToolPart :=
  ((toolParts events).filter fun part => part.callID = c).getLast?

/-- A sweep now would leave every call that was shown finished, leave nothing to a second one, and not publish a finished
call again. -/
structure SweepsClean (options : Options) (turn : Turn) : Prop where
  ends : ∀ error now c part, lastPart c (turn.step options (.terminalizeOpenTools error now)).published = some part →
    part.state.shown.finished = true
  once : ∀ error now error' now',
    toolParts (terminalize options (turn.step options (.terminalizeOpenTools error now)).state error' now').2 = []
  spares : ∀ error now c part, lastPart c turn.published = some part → part.state.shown.finished = true →
    ∀ q ∈ toolParts (terminalize options turn.state error now).2, q.callID ≠ c

/-- A content or terminal report is on a call whose status is kept, a location on one that is still open. -/
def FollowsStatus (s : State) : Call → Prop
  | .ingest (.toolContent c ..) _ | .ingest (.toolTerminal c _) _ => (statusOf s c).isSome = true
  | .ingest (.toolLocation c _) _ => (statusOf s c).any isOpen = true
  | _ => True

theorem shownOf_eq (c : String) (events : List Payload) :
    shownOf c events = ((toolParts events).filter fun part => part.callID = c).map fun part => part.state.shown := by
  unfold shownOf toolShown
  rw [List.filter_map, List.map_map]
  rfl

theorem getLast?_shownOf (c : String) (events : List Payload) :
    (shownOf c events).getLast? = (lastPart c events).map fun part => part.state.shown := by
  rw [shownOf_eq, List.getLast?_map, lastPart]

theorem shownOf_eq_nil {c : String} {events : List Payload} (h : shownOf c events = []) :
    ∀ q ∈ toolParts events, q.callID ≠ c := by
  rintro q hq rfl
  rw [shownOf_eq, List.map_eq_nil_iff, List.filter_eq_nil_iff] at h
  exact h q hq (decide_eq_true rfl)

section
variable {known : Finset String} {options : Options} {turn : Turn} {calls : List Call}

theorem within_turnOf (hknown : known.card ≤ RETAINED_TOOL_CALLS_MAX)
    (hcalls : ∀ cl ∈ calls, ∀ c, cl.toolCallId? = some c → c ∈ known) : Within known (turnOf options calls).state := by
  induction calls using List.reverseRecOn with
  | nil => exact within_start known options
  | append_singleton calls cl ih =>
    obtain ⟨hrest, hcl⟩ := List.forall_mem_append.mp hcalls
    rw [turnOf, run_snoc]
    exact (traceOf_step options "" cl hknown (ih hrest) (hcl cl (List.mem_singleton_self cl))).1

theorem traceOf_sweep (hknown : known.card ≤ RETAINED_TOOL_CALLS_MAX) (hs : Within known turn.state) (error : String)
    (now : ℕ) (c : String) :
    traceOf (turn.step options (.terminalizeOpenTools error now)) c = (traceOf turn c).step (.close error) :=
  (traceOf_step options c (.terminalizeOpenTools error now) hknown hs (fun _ h => by cases h)).2

theorem within_sweep (hknown : known.card ≤ RETAINED_TOOL_CALLS_MAX) (hs : Within known turn.state) (error : String)
    (now : ℕ) : Within known (turn.step options (.terminalizeOpenTools error now)).state :=
  (traceOf_step options "" (.terminalizeOpenTools error now) hknown hs (fun _ h => by cases h)).1

/-- A sweep publishes nothing of a call that is not open. -/
theorem shownOf_terminalize (hknown : known.card ≤ RETAINED_TOOL_CALLS_MAX) (hs : Within known turn.state) {c : String}
    (h : (recordOf turn.state c).isOpen = false) (error : String) (now : ℕ) :
    shownOf c (terminalize options turn.state error now).2 = [] := by
  have hshown := (answers_call options (.terminalizeOpenTools error now) hknown hs (fun _ h => by cases h)).tells.shown c
  refine hshown.trans ?_
  change ((recordOf turn.state c).report (.close error)).2.toList = []
  simp [CallRecord.report, h]

theorem sweepsClean_iff (hknown : known.card ≤ RETAINED_TOOL_CALLS_MAX) (hs : Within known turn.state)
    (hended : ∀ c, CallTrace.Ended (traceOf turn c)) :
    SweepsClean options turn ↔ ∀ c, CallTrace.Tracks (traceOf turn c) := by
  constructor
  · intro h c
    refine (CallTrace.finished_of_close_iff "").mp fun x hx => ?_
    rw [← @traceOf_sweep _ options _ hknown hs "" 0] at hx
    obtain ⟨part, hpart, rfl⟩ := Option.map_eq_some_iff.mp ((getLast?_shownOf _ _).symm.trans hx)
    exact h.ends "" 0 c part hpart
  · intro h
    refine ⟨fun error now c part hpart => ?_, fun error now error' now' => ?_, fun error now c part hpart hfin => ?_⟩
    · refine (CallTrace.finished_of_close_iff error).mpr (h c) _ ?_
      rw [← @traceOf_sweep _ options _ hknown hs error now]
      exact (getLast?_shownOf _ _).trans (congrArg (Option.map _) hpart)
    · refine List.eq_nil_iff_forall_not_mem.mpr fun q hq => ?_
      have hclosed : (recordOf (turn.step options (.terminalizeOpenTools error now)).state q.callID).isOpen = false := by
        have htrace := @traceOf_sweep _ options _ hknown hs error now q.callID
        exact (congrArg (fun t => t.record.isOpen) htrace).trans (CallTrace.isOpen_close error)
      exact shownOf_eq_nil (shownOf_terminalize hknown (within_sweep hknown hs error now) hclosed error' now') q hq rfl
    · refine shownOf_eq_nil (shownOf_terminalize hknown hs (hended c _ ?_ hfin) error now)
      exact (getLast?_shownOf _ _).trans (congrArg (Option.map _) hpart)

theorem follows_of_sweeps {s : State} {error : String} {withdrawn : Option Withdrawn} (c : String) (rep : Report)
    (h : sweeps error withdrawn c = some rep) : (recordOf s c).Follows rep := by
  unfold sweeps at h
  split_ifs at h
  obtain rfl := Option.some.inj h
  trivial

theorem any_isOpen (s : State) (c : String) : (statusOf s c).any isOpen = (recordOf s c).isOpen := by
  change _ = (statusOf s c = some .pending || statusOf s c = some .running : Bool)
  rcases statusOf s c with _ | status
  · rfl
  · cases status <;> rfl

theorem followsStatus_iff (s : State) (cl : Call) :
    (∀ c rep, cl.told s c = some rep → (recordOf s c).Follows rep) ↔ FollowsStatus s cl := by
  cases cl with
  | thrown => simp [Call.told, FollowsStatus]
  | terminalizeOpenTools error now => exact iff_of_true follows_of_sweeps trivial
  | ingest event now =>
    cases event with
    | toolStart | toolStatus | toolContent | toolOutput | toolError | toolTerminal => exact forall_only
    | toolLocation =>
      rw [FollowsStatus, any_isOpen]
      exact forall_only
    | toolInput c input display metadata =>
      simp only [Call.told, told]
      cases carriesNothing s c input display metadata with
      | true => simp [FollowsStatus]
      | false => exact forall_only
    | responseRetracted responseIds reason => exact iff_of_true follows_of_sweeps trivial
    | _ => simp [Call.told, told, FollowsStatus]

/-- A call of the projection keeps every tool call as it was last shown exactly where it allows. -/
theorem tracks_step_iff (hknown : known.card ≤ RETAINED_TOOL_CALLS_MAX) (hs : Within known turn.state) {cl : Call}
    (hcl : ∀ c, cl.toolCallId? = some c → c ∈ known) (h : ∀ c, CallTrace.Tracks (traceOf turn c)) :
    (∀ c, CallTrace.Tracks (traceOf (turn.step options cl) c)) ↔ FollowsStatus turn.state cl := by
  rw [← followsStatus_iff]
  refine forall_congr' fun c => ?_
  rw [(traceOf_step options c cl hknown hs hcl).2]
  rcases cl.told turn.state c with _ | rep
  · simpa using h c
  · simp only [Option.toList_some, run_cons, run_nil, Option.some.injEq, forall_eq']
    constructor
    · intro htracks
      by_contra hnot
      exact CallTrace.not_tracks_step hnot htracks
    · exact fun hfollows => CallTrace.tracks_step hfollows (h c)

theorem tracks_turnOf_iff (hknown : known.card ≤ RETAINED_TOOL_CALLS_MAX)
    (hcalls : ∀ cl ∈ calls, ∀ c, cl.toolCallId? = some c → c ∈ known) :
    (∀ before, before <+: calls → ∀ c, CallTrace.Tracks (traceOf (turnOf options before) c)) ↔
      Meets (Turn.step options) (fun turn cl => FollowsStatus turn.state cl) (Turn.start options) calls := by
  induction calls using List.reverseRecOn with
  | nil =>
    refine iff_of_true (fun before hbefore c x hx => ?_) trivial
    rw [List.prefix_nil.mp hbefore] at hx
    cases hx
  | append_singleton calls cl ih =>
    obtain ⟨hrest, hcl⟩ := List.forall_mem_append.mp hcalls
    have hstep (h : ∀ c, CallTrace.Tracks (traceOf (turnOf options calls) c)) :
        (∀ c, CallTrace.Tracks (traceOf (turnOf options (calls ++ [cl])) c)) ↔ FollowsStatus (turnOf options calls).state cl := by
      rw [turnOf, run_snoc]
      exact tracks_step_iff hknown (within_turnOf hknown hrest) (hcl cl (List.mem_singleton_self cl)) h
    rw [meets_append, ← ih hrest]
    constructor
    · intro h
      have hbefore before (hbefore : before <+: calls) := h before (hbefore.trans (List.prefix_append _ _))
      exact ⟨hbefore, (hstep (hbefore calls (List.prefix_refl _))).mp (h _ (List.prefix_refl _)), trivial⟩
    · rintro ⟨h, hfollows, -⟩ before hbefore
      rcases List.prefix_concat_iff.mp hbefore with rfl | hbefore
      · exact (hstep (h calls (List.prefix_refl _))).mpr hfollows
      · exact h before hbefore

end

/-- At every point of a turn the sweep leaves no tool running exactly as long as no call is shown past its status. -/
theorem sweepsClean_iff_follows (options : Options) (calls : List Call)
    (hcalls : (toolCalls calls).card ≤ RETAINED_TOOL_CALLS_MAX) :
    (∀ before, before <+: calls → SweepsClean options (turnOf options before)) ↔
      Meets (Turn.step options) (fun turn cl => FollowsStatus turn.state cl) (Turn.start options) calls := by
  rw [← tracks_turnOf_iff hcalls mem_toolCalls]
  refine forall_congr' fun before => forall_congr' fun hbefore => ?_
  have hknown : ∀ cl ∈ before, ∀ c, cl.toolCallId? = some c → c ∈ toolCalls calls :=
    fun cl hcl => mem_toolCalls cl (hbefore.subset hcl)
  refine sweepsClean_iff hcalls (within_turnOf hcalls hknown) fun c => ?_
  have htrace : traceOf (turnOf options before) c = _ := traceOf_run hcalls hknown (within_start _ options)
  rw [htrace]
  exact CallTrace.ended_run _

/-- A command that ran, one that was stopped, and what they point to. -/
def pointedOnceOpen : List Call :=
  [.ingest (.toolStart "tool-1" "bash" none none) 100, .ingest (.toolTerminal "tool-1" "pty-1") 100,
   .ingest (.toolOutput "tool-1" (.str "done") [] none none) 100, .ingest (.toolStart "tool-2" "read" none none) 101,
   .ingest (.toolLocation "tool-2" [⟨"src/index.ts", some 3⟩]) 102]

theorem sweeps_pointedOnceOpen :
    SweepsClean (.beside "session-1" "msg_turn_1_r") (turnOf (.beside "session-1" "msg_turn_1_r") pointedOnceOpen) := by
  refine (sweepsClean_iff_follows _ pointedOnceOpen (by decide)).mpr ⟨trivial, ?_, trivial, trivial, ?_, trivial⟩ _
    (List.prefix_refl _)
  · change Option.isSome _ = true
    decide +kernel
  · change Option.any isOpen _ = true
    decide +kernel

/-- A place in a file before the call it is about has started. -/
def locatedEarly : List Call := [.ingest (.toolLocation "tool-1" [⟨"src/index.ts", some 3⟩]) 100]

theorem location_never_swept :
    ¬ ∀ (options : Options) (calls : List Call), (toolCalls calls).card ≤ RETAINED_TOOL_CALLS_MAX →
      SweepsClean options (turnOf options calls) := by
  intro h
  have hclean := h (.beside "session-1" "msg_turn_1_r") locatedEarly (by decide)
  have hlast := hclean.ends "prompt failed" 101 "tool-1"
  have hrunning : ((lastPart "tool-1" ((turnOf (.beside "session-1" "msg_turn_1_r") locatedEarly).step
      (.beside "session-1" "msg_turn_1_r") (.terminalizeOpenTools "prompt failed" 101)).published).map
      fun part => part.state.shown) = some .running := by decide +kernel
  obtain ⟨part, hpart, hshown⟩ := Option.map_eq_some_iff.mp hrunning
  exact absurd (hlast part hpart) (by rw [hshown]; decide)

/-! Who wrote what in a turn: a ledger of the responses, kept from the turn's events and its envelopes alone, and what a
retraction has to name by it. -/

/-- The response being written, and what came under each: `wrote` has every part whose delta did, `live` those of the
responses not retracted since, `started` the calls started under these. -/
structure Ledger where
  current : Option String
  live : List (String × String)
  wrote : List (String × String)
  started : List (String × String)

namespace Ledger

def start : Ledger := ⟨none, [], [], []⟩

/-- The parts whose deltas an envelope brings. -/
def deltaOf : Payload → Option String
  | .partDelta _ partID _ => some partID
  | _ => none

def entries (l : Ledger) (ids : List String) : List (String × String) :=
  match l.current with
  | some current => ids.map fun id => (current, id)
  | none => []

/-- The ledger after a call of the projection that published `events`. -/
def after (l : Ledger) (cl : Call) (events : List Payload) : Ledger :=
  match cl with
  | .ingest (.responseStart responseId) _ => { l with current := some responseId }
  | .ingest (.responseRetracted responseIds _) _ =>
    { l with
      current := l.current.filter fun current => current ∉ responseIds
      live := l.live.filter fun entry => entry.1 ∉ responseIds
      started := l.started.filter fun entry => entry.1 ∉ responseIds }
  | .ingest event _ =>
    { l with
      live := l.live ++ l.entries (events.filterMap deltaOf)
      wrote := l.wrote ++ l.entries (events.filterMap deltaOf)
      started := l.started ++ l.entries (startedCall event) }
  | _ => l

end Ledger

/-- A turn and its ledger. -/
structure Watched where
  turn : Turn
  ledger : Ledger

namespace Watched

def start (options : Options) : Watched := ⟨.start options, .start⟩

def step (options : Options) (w : Watched) (cl : Call) : Watched :=
  ⟨w.turn.step options cl, w.ledger.after cl (call options w.turn.state cl).2⟩

/-- The call was last shown unfinished. -/
def stillOpen (w : Watched) (c : String) : Prop :=
  (shownOf c w.turn.published).getLast?.any (fun x => !x.finished) = true

end Watched

def watch (options : Options) (calls : List Call) : Watched := Lib.run (Watched.step options) (Watched.start options) calls

def retractionOf : Payload → Option (String × List PartRef)
  | .partRetracted reason parts => some (reason, parts)
  | _ => none

def retractions (events : List Payload) : List (String × List PartRef) := events.filterMap retractionOf

/-- A retraction names the parts written under its responses, each once and none that another response wrote, and
withdraws the calls started under them that are still open. -/
structure Withdraws (w : Watched) (responseIds : List String) (reason : String) (events : List Payload) : Prop where
  named : ∃ parts : List PartRef, retractions events = (if parts = [] then [] else [(reason, parts)]) ∧
    (parts.map PartRef.partID).Nodup ∧
    ∀ id, id ∈ parts.map PartRef.partID ↔ ∃ r ∈ responseIds, (r, id) ∈ w.ledger.live
  others : ∀ parts ∈ (retractions events).map Prod.snd, ∀ part ∈ parts, ∀ r, (r, part.partID) ∈ w.ledger.wrote → r ∈ responseIds
  once : ((toolParts events).map ToolPart.callID).Nodup
  tools : ∀ c, c ∈ (toolParts events).map ToolPart.callID ↔ (∃ r ∈ responseIds, (r, c) ∈ w.ledger.started) ∧ w.stillOpen c
  marked : ∀ part ∈ toolParts events, part.state.shown = .error WITHDRAWN_TOOL ∧ part.retracted = some reason

/-- Whatever is retracted next is withdrawn exactly. -/
def RetractsExactly (options : Options) (w : Watched) : Prop :=
  ∀ responseIds reason now,
    Withdraws w responseIds reason (call options w.turn.state (.ingest (.responseRetracted responseIds reason) now)).2

/-- The kind of the delta an event brings. -/
def deltaKind (s : State) : RuntimeEvent → Option DeltaKind
  | .textDelta _ | .proposedPlanDelta _ => some .text
  | .thinkingDelta _ => some .reasoning
  | .proposedPlanComplete planMarkdown => if planDelta s planMarkdown = "" then none else some .text
  | _ => none

/-- The key of the part a delta goes to. -/
def targetKey (s : State) (kind : DeltaKind) : String := partKey (splitPart s kind) kind

/-- The id of the part a delta goes to. -/
def targetId (s : State) (kind : DeltaKind) : String := (seqId s (targetKey s kind) (targetKey s kind)).2

def partsOf (s : State) (responseId : String) : List String :=
  ((Assoc.lookup responseId s.responses.members).map fun members => members.parts.map PartRef.partID).getD []

def callsOf (s : State) (responseId : String) : List String :=
  ((Assoc.lookup responseId s.responses.members).map ResponseMembers.toolCallIds).getD []

/-- The part a delta goes to under a response is one the response wrote, or a new one under an id no other response
wrote. -/
def WritesOwn (w : Watched) (r : String) (kind : DeltaKind) : Prop :=
  if seen w.turn.state (targetKey w.turn.state kind) then targetId w.turn.state kind ∈ partsOf w.turn.state r
  else ∀ entry ∈ w.ledger.wrote, entry.2 = targetId w.turn.state kind → entry.1 = r

instance (w : Watched) (r : String) (kind : DeltaKind) : Decidable (WritesOwn w r kind) := inferInstanceAs (Decidable (ite _ _ _))

/-- A response starts with no reasoning open but its own; a delta goes to a part of the response it comes under; and a
call started under a response has no location once it is finished. -/
def StaysOwn (w : Watched) : Call → Prop
  | .ingest (.responseStart r) _ =>
    ∀ part, w.turn.state.openReasoning = some part → part.partId ∈ partsOf w.turn.state r
  | .ingest (.toolLocation c _) _ => (∃ r, (r, c) ∈ w.ledger.started) → (statusOf w.turn.state c).any isOpen = true
  | .ingest event _ =>
    ∀ r kind, w.turn.state.responses.current = some r → deltaKind w.turn.state event = some kind → WritesOwn w r kind
  | _ => True

/-- The responses a run enters. -/
def Call.responseId? : Call → Option String
  | .ingest (.responseStart r) _ => some r
  | _ => none

def responses (calls : List Call) : Finset String := (calls.filterMap Call.responseId?).toFinset

end Claxedo.Presentation

import Claxedo.Lib.Run
import Claxedo.Usage.TurnMeter

/-! A turn that was stopped, steered away or lost keeps that verdict, and a settled one is not provisional again, while no
`message.completed` finds its message with a verdict and known usage: its guard reads the settlement alone, where every
sibling's reads the status. -/

namespace Claxedo.Usage

open Claxedo.Lib
open Claxedo.Store (nonEmpty)

/-- What a revision of a message that comes after `f` has to leave standing. -/
def Keeps (f g : TurnUsageRevision) : Prop :=
  (f.status = .stopped ∨ f.status = .interruptedBySteer ∨ f.status = .processLost →
    g.status ≠ .completed ∧ g.status ≠ .error ∧ g.status ≠ .running) ∧
  (f.settlement ≠ .provisional → g.settlement ≠ .provisional)

instance (f g : TurnUsageRevision) : Decidable (Keeps f g) := by unfold Keeps; infer_instance

/-- Every accepted revision leaves standing what was accepted of its message before it, and what its message was read back
with. -/
structure KeepsVerdicts (m : TurnMeter) : Prop where
  accepted : m.accepted.Pairwise fun f g => f.message = g.message → Keeps f g
  read : ∀ message f, Assoc.lookup message m.read = some f → ∀ g ∈ m.accepted, g.message = message → Keeps f g

theorem isVerdict_iff (status : TurnUsageStatus) :
    status.isVerdict = true ↔ status = .stopped ∨ status = .interruptedBySteer ∨ status = .processLost := by
  cases status <;> simp [TurnUsageStatus.isVerdict]

theorem isVerdict_iff_ne (status : TurnUsageStatus) :
    status.isVerdict = true ↔ status ≠ .completed ∧ status ≠ .error ∧ status ≠ .running := by
  cases status <;> simp [TurnUsageStatus.isVerdict]

theorem keeps_iff (f g : TurnUsageRevision) :
    Keeps f g ↔ (f.status.isVerdict = true → g.status.isVerdict = true) ∧
      (f.settlement ≠ .provisional → g.settlement ≠ .provisional) := by
  rw [Keeps, ← isVerdict_iff, ← isVerdict_iff_ne]

/-! What a state in the map says of the revisions of its message. -/

namespace TurnState

/-- A state with a settlement has a revision, and is provisional while its turn runs. -/
structure Coherent (c : TurnState) : Prop where
  revision : 0 ≤ c.revision
  settled : c.settlement ≠ none → 1 ≤ c.revision
  both : c.settlement = none ↔ c.status = none
  running : c.settlement = some .provisional ↔ c.status = some .running

/-- The state knows of a revision that has a verdict, or is settled, that there is one. -/
structure Shows (c : TurnState) (f : TurnUsageRevision) : Prop where
  filed : c.settlement ≠ none
  verdict : f.status.isVerdict = true → c.hasVerdict = true
  settled : f.settlement ≠ .provisional → c.settlement ≠ some .provisional

/-- The same turn, as far as its revisions go. -/
structure Same (c d : TurnState) : Prop where
  message : d.message = c.message
  revision : d.revision = c.revision
  settlement : d.settlement = c.settlement
  status : d.status = c.status

/-- What a state allows to be written next of its message. -/
structure Permits (c : TurnState) (settlement : TurnUsageSettlement) (status : TurnUsageStatus) : Prop where
  running : settlement = .provisional ↔ status = .running
  verdict : c.hasVerdict = true → status.isVerdict = true
  settled : c.settlement ≠ none → c.settlement ≠ some .provisional → settlement ≠ .provisional

variable {c d : TurnState}

theorem Same.hasVerdict (h : Same c d) : d.hasVerdict = c.hasVerdict := by
  rw [TurnState.hasVerdict, TurnState.hasVerdict, h.status]

theorem Same.permits (h : Same c d) {settlement : TurnUsageSettlement} {status : TurnUsageStatus}
    (hc : c.Permits settlement status) : d.Permits settlement status where
  running := hc.running
  verdict := by rw [h.hasVerdict]; exact hc.verdict
  settled := by rw [h.settlement]; exact hc.settled

theorem Same.coherent (h : Same c d) (hc : c.Coherent) : d.Coherent where
  revision := by rw [h.revision]; exact hc.revision
  settled := by rw [h.settlement, h.revision]; exact hc.settled
  both := by rw [h.settlement, h.status]; exact hc.both
  running := by rw [h.settlement, h.status]; exact hc.running

theorem same_failed (c : TurnState) (error : Option HarnessError) : Same c (c.failed error) := ⟨rfl, rfl, rfl, rfl⟩

theorem same_observed (c : TurnState) (observation : Store.RuntimeUsageObservation) (model : Option String)
    (account : Option TurnUsageCredential) (now : ℤ) : Same c (c.observed observation model account now) :=
  ⟨rfl, rfl, rfl, rfl⟩

theorem same_updated (c : TurnState) (info : MessageInfo) (now : ℤ) : Same c (c.updated info now) := by
  unfold updated
  dsimp only
  split
  · exact ⟨rfl, rfl, rfl, rfl⟩
  · split_ifs <;> exact ⟨rfl, rfl, rfl, rfl⟩

theorem Coherent.not_verdict_of_provisional (h : c.Coherent) (hs : c.settlement = none ∨ c.settlement = some .provisional) :
    c.hasVerdict = false := by
  rcases hs with hs | hs
  · rw [hasVerdict, h.both.mp hs]
    rfl
  · rw [hasVerdict, h.running.mp hs]
    rfl

theorem landed_coherent (c : TurnState) {fact : TurnUsageRevision} (hrevision : 1 ≤ fact.revision)
    (hrunning : fact.settlement = .provisional ↔ fact.status = .running) : (c.landed fact).Coherent where
  revision := le_trans zero_le_one hrevision
  settled := fun _ => hrevision
  both := ⟨nofun, nofun⟩
  running := by
    simp only [landed, Option.some.injEq]
    exact hrunning

theorem landed_shows (c : TurnState) {f fact : TurnUsageRevision}
    (hkeeps : (f.status.isVerdict = true → fact.status.isVerdict = true) ∧
      (f.settlement ≠ .provisional → fact.settlement ≠ .provisional)) : (c.landed fact).Shows f where
  filed := nofun
  verdict := hkeeps.1
  settled := fun hs h => hkeeps.2 hs (Option.some.inj h)

theorem coherent_created (sessionId messageId : String) : (createdState sessionId messageId).Coherent :=
  ⟨le_refl 0, fun h => absurd rfl h, ⟨fun _ => rfl, fun _ => rfl⟩, ⟨nofun, nofun⟩⟩

end TurnState

section
variable (fact : TurnUsageRevision) (saved : Option Store.UsageStreams)

theorem coherent_hydratedState (h : fact.Metered) : (hydratedState fact saved).Coherent where
  revision := le_trans zero_le_one h.1
  settled := fun _ => h.1
  both := ⟨nofun, nofun⟩
  running := by
    simp only [hydratedState, Option.some.injEq]
    exact h.2

theorem shows_hydratedState : (hydratedState fact saved).Shows fact where
  filed := nofun
  verdict := id
  settled := fun h h' => h (Option.some.inj h')

end

/-! The invariant of the calls: every state stands for its message, and shows what was filed and read of it. -/

namespace TurnMeter

open TurnState (Coherent Shows Same Permits)

structure Sound (m : TurnMeter) : Prop where
  states : ∀ message c, Assoc.lookup message m.states = some c → c.message = message ∧ c.Coherent
  accepted : ∀ f ∈ m.accepted, ∃ c, Assoc.lookup f.message m.states = some c ∧ c.Shows f
  read : ∀ message f, Assoc.lookup message m.read = some f → ∃ c, Assoc.lookup message m.states = some c ∧ c.Shows f
  metered : ∀ f ∈ m.accepted, f.Metered
  keeps : KeepsVerdicts m

/-- A state in hand that is the map's own, as far as its message's revisions go. -/
structure Held (m : TurnMeter) (c : TurnState) : Prop where
  coherent : c.Coherent
  mapped : ∃ d, Assoc.lookup c.message m.states = some d ∧ d.settlement = c.settlement ∧ d.status = c.status

variable {m : TurnMeter} {c : TurnState}

theorem sound_empty : Sound {} where
  states := by
    intro message c hc
    rw [show Assoc.lookup message _ = none from rfl] at hc
    cases hc
  accepted := fun f hf => absurd hf List.not_mem_nil
  read := by
    intro message f hf
    rw [show Assoc.lookup message _ = none from rfl] at hf
    cases hf
  metered := fun f hf => absurd hf List.not_mem_nil
  keeps := by
    refine ⟨List.Pairwise.nil, fun message f hf g hg => ?_⟩
    exact absurd hg List.not_mem_nil

theorem Sound.held (h : m.Sound) {message : Message} (hc : Assoc.lookup message m.states = some c) : m.Held c := by
  obtain ⟨hmessage, hcoherent⟩ := h.states _ _ hc
  exact ⟨hcoherent, c, by rw [hmessage]; exact hc, rfl, rfl⟩

theorem Held.same (h : m.Held c) {d : TurnState} (hsame : Same c d) : m.Held d := by
  obtain ⟨e, he, hsettlement, hstatus⟩ := h.mapped
  exact ⟨hsame.coherent h.coherent, e, by rw [hsame.message]; exact he, hsettlement.trans hsame.settlement.symm,
    hstatus.trans hsame.status.symm⟩

theorem Held.shows (h : m.Held c) {f : TurnUsageRevision}
    (hf : ∃ d, Assoc.lookup c.message m.states = some d ∧ d.Shows f) : c.Shows f := by
  obtain ⟨d, hd, hsettlement, hstatus⟩ := h.mapped
  obtain ⟨e, he, hshows⟩ := hf
  obtain rfl : d = e := Option.some.inj (hd.symm.trans he)
  refine ⟨hsettlement ▸ hshows.filed, fun hv => ?_, fun hs => hsettlement ▸ hshows.settled hs⟩
  rw [TurnState.hasVerdict, ← hstatus]
  exact hshows.verdict hv

theorem lookup_put (m : TurnMeter) (c : TurnState) (message : Message) :
    Assoc.lookup message (m.put c).states = if c.message = message then some c else Assoc.lookup message m.states :=
  Assoc.lookup_assign _ _ _ _

theorem Sound.put (h : m.Sound) (hc : m.Held c) : (m.put c).Sound := by
  have hlookup := fun message => lookup_put m c message
  have hshown : ∀ message f, (∃ d, Assoc.lookup message m.states = some d ∧ d.Shows f) →
      ∃ d, Assoc.lookup message (m.put c).states = some d ∧ d.Shows f := by
    intro message f hf
    rw [hlookup]
    split_ifs with hm
    · subst hm
      exact ⟨c, rfl, hc.shows hf⟩
    · exact hf
  refine ⟨fun message d hd => ?_, fun f hf => hshown _ f (h.accepted f hf), fun message f hf => hshown _ f (h.read _ f hf),
    h.metered, ⟨h.keeps.accepted, h.keeps.read⟩⟩
  rw [hlookup] at hd
  split_ifs at hd with hm
  · obtain rfl := Option.some.inj hd
    exact ⟨hm, hc.coherent⟩
  · exact h.states _ _ hd

theorem Sound.activate (h : m.Sound) (sessionId messageId : String) : (m.activate sessionId messageId).Sound :=
  ⟨h.states, h.accepted, h.read, h.metered, ⟨h.keeps.accepted, h.keeps.read⟩⟩

variable {fact : TurnUsageRevision}

/-- What the message's state showed before, a permitted revision leaves standing. -/
theorem Held.keeps (hc : m.Held c) {f : TurnUsageRevision} (hpermits : c.Permits fact.settlement fact.status)
    (hf : ∃ e, Assoc.lookup c.message m.states = some e ∧ e.Shows f) : Keeps f fact := by
  have hshows := hc.shows hf
  exact (keeps_iff f fact).mpr ⟨fun hv => hpermits.verdict (hshows.verdict hv),
    fun hs => hpermits.settled hshows.filed (hshows.settled hs)⟩

theorem Sound.landed (h : m.Sound) (hc : m.Held c) (hmessage : fact.message = c.message) (hrevision : 1 ≤ fact.revision)
    (hpermits : c.Permits fact.settlement fact.status) (active : List (String × String)) :
    Sound { m.put (c.landed fact) with activeBySession := active, accepted := m.accepted ++ [fact] } := by
  have hlookup := fun message => lookup_put m (c.landed fact) message
  have hshown : ∀ message f, (∃ e, Assoc.lookup message m.states = some e ∧ e.Shows f) →
      ∃ e, Assoc.lookup message (m.put (c.landed fact)).states = some e ∧ e.Shows f := by
    intro message f hf
    rw [hlookup]
    split_ifs with hm
    · subst hm
      exact ⟨_, rfl, c.landed_shows ((keeps_iff f fact).mp (hc.keeps hpermits hf))⟩
    · exact hf
  refine ⟨fun message e he => ?_, fun f hf => ?_, fun message f hf => hshown _ f (h.read _ f hf), fun f hf => ?_,
    ⟨?_, ?_⟩⟩
  · replace he := (hlookup message).symm.trans he
    split_ifs at he with hm
    · obtain rfl := Option.some.inj he
      exact ⟨hm, c.landed_coherent hrevision hpermits.running⟩
    · exact h.states _ _ he
  · rcases List.mem_append.mp hf with hf | hf
    · exact hshown _ f (h.accepted f hf)
    · obtain rfl := List.mem_singleton.mp hf
      exact ⟨c.landed f, (hlookup _).trans (if_pos hmessage.symm), c.landed_shows ⟨id, id⟩⟩
  · rcases List.mem_append.mp hf with hf | hf
    · exact h.metered f hf
    · obtain rfl := List.mem_singleton.mp hf
      exact ⟨hrevision, hpermits.running⟩
  · refine List.pairwise_append.mpr ⟨h.keeps.accepted, List.pairwise_singleton _ _, fun f hf g hg hfg => ?_⟩
    obtain rfl := List.mem_singleton.mp hg
    refine hc.keeps hpermits ?_
    rw [← hmessage, ← hfg]
    exact h.accepted f hf
  · intro message f hf g hg hgm
    rcases List.mem_append.mp hg with hg | hg
    · exact h.keeps.read _ f hf g hg hgm
    · obtain rfl := List.mem_singleton.mp hg
      refine hc.keeps hpermits ?_
      rw [← hmessage, hgm]
      exact h.read _ f hf

theorem Sound.land (h : m.Sound) (hc : m.Held c) (hmessage : fact.message = c.message) (hrevision : 1 ≤ fact.revision)
    (hpermits : c.Permits fact.settlement fact.status) (result : Option UsageRevisionWriteResult) :
    (m.land c fact result).Sound := by
  rcases result with _ | _ | _ | n | n
  · exact h.put hc
  · exact h.landed hc hmessage hrevision hpermits _
  · exact h.landed hc hmessage hrevision hpermits _
  · exact h.put hc
  · exact h.put hc

theorem answer_stale {durable : Durable} {item : TurnUsageRevision} {n : ℤ} (h : durable.answer item = some (.stale n)) :
    item.revision < n := by
  rcases durable with _ | _ | ⟨revision, same⟩
  · cases h
  · cases h
  · simp only [Durable.answer] at h
    split_ifs at h with hlt heq hsame <;> cases h
    exact hlt

theorem Sound.persist (h : m.Sound) (hc : m.Held c) {terminal : Option Terminal}
    (hpermits : c.Permits ((terminal.map Terminal.settlement).getD .provisional) ((terminal.map Terminal.status).getD .running))
    (context : Option TurnContext) (writes : Writes) (now : ℤ) : (m.persist c terminal context writes now).Sound := by
  unfold TurnMeter.persist
  split
  · exact h.put hc
  · rename_i context _
    have hsame : Same c { c with context := some context } := ⟨rfl, rfl, rfl, rfl⟩
    have hnext : 1 ≤ c.revision + 1 := by
      have := hc.coherent.revision
      omega
    dsimp only
    split
    · -- the ledger's own revision is later than the one refused
      rename_i n hn
      have hlt : c.revision + 1 < n := answer_stale hn
      have hheld : Held m { c with context := some context, revision := n } := by
        refine ⟨⟨?_, fun _ => ?_, hc.coherent.both, hc.coherent.running⟩, hc.mapped⟩ <;> dsimp only <;> omega
      have hallowed : Permits { c with context := some context, revision := n } _ _ :=
        ⟨hpermits.running, hpermits.verdict, hpermits.settled⟩
      refine h.land hheld rfl ?_ hallowed _
      change 1 ≤ n + 1
      omega
    · exact h.land (hc.same hsame) rfl hnext (hsame.permits hpermits) _

/-! A call on one message's state writes that state and no other, and leaves the meter initialized or not. -/

section
variable (m : TurnMeter) (c : TurnState)

theorem land_frame (fact : TurnUsageRevision) (result : Option UsageRevisionWriteResult) :
    (m.land c fact result).initialized = m.initialized ∧
      ∀ message, message ≠ c.message →
        Assoc.lookup message (m.land c fact result).states = Assoc.lookup message m.states := by
  have hput : ∀ d : TurnState, d.message = c.message → ∀ message, message ≠ c.message →
      Assoc.lookup message (m.put d).states = Assoc.lookup message m.states :=
    fun d hd message hm => (lookup_put m d message).trans (if_neg fun h => hm (h.symm.trans hd))
  rcases result with _ | _ | _ | n | n
  · exact ⟨rfl, hput c rfl⟩
  · exact ⟨rfl, hput (c.landed fact) rfl⟩
  · exact ⟨rfl, hput (c.landed fact) rfl⟩
  · exact ⟨rfl, hput c rfl⟩
  · exact ⟨rfl, hput c rfl⟩

theorem persist_frame (terminal : Option Terminal) (context : Option TurnContext) (writes : Writes) (now : ℤ) :
    (m.persist c terminal context writes now).initialized = m.initialized ∧
      ∀ message, message ≠ c.message →
        Assoc.lookup message (m.persist c terminal context writes now).states = Assoc.lookup message m.states := by
  unfold TurnMeter.persist
  split
  · exact ⟨rfl, fun message hm => (lookup_put m c message).trans (if_neg (Ne.symm hm))⟩
  · dsimp only
    split <;> exact land_frame m _ _ _

end

/-- Reading a message back of which this meter has had nothing accepted. -/
theorem Sound.hydrate (h : m.Sound) (hmetered : fact.Metered) (hnone : ∀ f ∈ m.accepted, f.message ≠ fact.message)
    (saved : Option Store.UsageStreams) : (m.hydrate fact saved).Sound := by
  have hlookup := fun message => lookup_put m (hydratedState fact saved) message
  have hread : ∀ message, Assoc.lookup message (m.hydrate fact saved).read =
      if fact.message = message then some fact else Assoc.lookup message m.read := fun message => Assoc.lookup_assign _ _ _ _
  refine ⟨fun message c hc => ?_, fun f hf => ?_, fun message f hf => ?_, h.metered,
    ⟨h.keeps.accepted, fun message f hf g hg hgm => ?_⟩⟩
  · replace hc := (hlookup message).symm.trans hc
    split_ifs at hc with hm
    · obtain rfl := Option.some.inj hc
      exact ⟨hm, coherent_hydratedState fact saved hmetered⟩
    · exact h.states _ _ hc
  · obtain ⟨c, hc, hshows⟩ := h.accepted f hf
    exact ⟨c, ((hlookup _).trans (if_neg (hnone f hf).symm)).trans hc, hshows⟩
  · rw [hread] at hf
    split_ifs at hf with hm
    · obtain rfl := Option.some.inj hf
      exact ⟨_, (hlookup message).trans (if_pos hm), shows_hydratedState fact saved⟩
    · obtain ⟨c, hc, hshows⟩ := h.read _ _ hf
      exact ⟨c, ((hlookup _).trans (if_neg hm)).trans hc, hshows⟩
  · rw [hread] at hf
    split_ifs at hf with hm
    · exact absurd (hgm.trans hm.symm) (hnone g hg)
    · exact h.keeps.read _ _ hf g hg hgm

variable (options : MeterOptions)

/-! Initialization. -/

/-- What the loop over the facts leaves: their states, where none threw, and every other message's as it was. -/
theorem hydrateRows_spec (start : StartAnswers) (facts : List TurnUsageRevision) (h : m.Sound) (hnone : m.accepted = [])
    (hmetered : ∀ fact ∈ facts, fact.Metered) (hsingle : (facts.map TurnUsageRevision.message).Nodup) :
    (hydrateRows options start facts m).1.Sound ∧
      (hydrateRows options start facts m).1.accepted = [] ∧
      (hydrateRows options start facts m).1.initialized = m.initialized ∧
      (∀ message, message ∉ facts.map TurnUsageRevision.message →
        Assoc.lookup message (hydrateRows options start facts m).1.states = Assoc.lookup message m.states) ∧
      ((hydrateRows options start facts m).2 = true → ∀ fact ∈ facts, options.currentFilter fact = true →
        ∀ saved, load options (start.saved fact.message) = some saved →
          Assoc.lookup fact.message (hydrateRows options start facts m).1.states = some (hydratedState fact saved)) := by
  induction facts generalizing m with
  | nil => exact ⟨h, hnone, rfl, fun _ _ => rfl, fun _ fact hfact => absurd hfact List.not_mem_nil⟩
  | cons fact facts ih =>
    rw [List.map_cons, List.nodup_cons] at hsingle
    unfold hydrateRows
    by_cases hfilter : options.currentFilter fact = true
    · rw [if_pos hfilter]
      split
      · rename_i hload
        refine ⟨h, hnone, rfl, fun _ _ => rfl, nofun⟩
      · rename_i saved hload
        -- activation touches no state
        have hnext : ∀ m' : TurnMeter, (m' = m.hydrate fact saved ∨
            m' = (m.hydrate fact saved).activate fact.sessionId fact.messageId) →
            m'.Sound ∧ m'.accepted = [] ∧ m'.initialized = m.initialized ∧ m'.states = (m.hydrate fact saved).states := by
          have hhydrate : (m.hydrate fact saved).Sound :=
            h.hydrate (hmetered fact List.mem_cons_self) (by rw [hnone]; exact fun f hf => absurd hf List.not_mem_nil) saved
          rintro m' (rfl | rfl)
          · exact ⟨hhydrate, hnone, rfl, rfl⟩
          · exact ⟨hhydrate.activate _ _, hnone, rfl, rfl⟩
        dsimp only
        obtain ⟨hsound, haccepted, hinitialized, hstates⟩ :=
          hnext (if fact.settlement = .provisional then (m.hydrate fact saved).activate fact.sessionId fact.messageId
            else m.hydrate fact saved) (by split_ifs <;> simp)
        obtain ⟨ihsound, ihaccepted, ihinitialized, ihothers, ihstates⟩ :=
          ih hsound haccepted (fun f hf => hmetered f (List.mem_cons_of_mem _ hf)) hsingle.2
        refine ⟨ihsound, ihaccepted, ihinitialized.trans hinitialized, fun message hm => ?_,
            fun hdone f hf hfilter' saved' hload' => ?_⟩
        · rw [List.map_cons, List.mem_cons, not_or] at hm
          rw [ihothers message hm.2, hstates]
          exact (lookup_put m (hydratedState fact saved) message).trans (if_neg (Ne.symm hm.1))
        · rcases List.mem_cons.mp hf with rfl | hf
          · rw [hload] at hload'
            obtain rfl := Option.some.inj hload'
            rw [ihothers f.message hsingle.1, hstates]
            exact (lookup_put m (hydratedState f saved) f.message).trans (if_pos rfl)
          · exact ihstates hdone f hf hfilter' saved' hload'
    · rw [if_neg hfilter]
      obtain ⟨ihsound, ihaccepted, ihinitialized, ihothers, ihstates⟩ :=
        ih h hnone (fun f hf => hmetered f (List.mem_cons_of_mem _ hf)) hsingle.2
      refine ⟨ihsound, ihaccepted, ihinitialized, fun message hm => ?_, fun hdone f hf hfilter' => ?_⟩
      · rw [List.map_cons, List.mem_cons, not_or] at hm
        exact ihothers message hm.2
      · rcases List.mem_cons.mp hf with rfl | hf
        · exact absurd hfilter' hfilter
        · exact ihstates hdone f hf hfilter'

theorem permits_processLost (c : TurnState) {settlement : TurnUsageSettlement} (h : settlement ≠ .provisional) :
    c.Permits settlement .processLost :=
  ⟨⟨fun h' => absurd h' h, nofun⟩, fun _ => rfl, fun _ _ => h⟩

/-- Every fact still to be reconciled has its hydrated state in the map, so each is written with its own. -/
theorem Sound.reconciled (start : StartAnswers) (facts : List TurnUsageRevision) (h : m.Sound)
    (hsingle : (facts.map TurnUsageRevision.message).Nodup)
    (hstates : ∀ fact ∈ facts, ∀ saved, load options (start.saved fact.message) = some saved →
      Assoc.lookup fact.message m.states = some (hydratedState fact saved)) :
    (facts.foldl (reconcile options start) m).Sound ∧
      (facts.foldl (reconcile options start) m).initialized = m.initialized := by
  induction facts generalizing m with
  | nil => exact ⟨h, rfl⟩
  | cons fact facts ih =>
    rw [List.map_cons, List.nodup_cons] at hsingle
    rw [List.foldl_cons]
    have hstep : (reconcile options start m fact).Sound ∧ (reconcile options start m fact).initialized = m.initialized ∧
        ∀ message, message ≠ fact.message →
          Assoc.lookup message (reconcile options start m fact).states = Assoc.lookup message m.states := by
      unfold reconcile
      split
      · exact ⟨h, rfl, fun _ _ => rfl⟩
      · rename_i saved hload
        have hheld := h.held (hstates fact List.mem_cons_self saved hload)
        have hsettlement : (if (hydratedState fact saved).hasUsage = true then TurnUsageSettlement.partialUsage else .unavailable) ≠
            .provisional := by split_ifs <;> nofun
        exact ⟨h.persist hheld (permits_processLost _ hsettlement) _ _ _, persist_frame m _ _ _ _ _⟩
    obtain ⟨hsound, hinitialized, hothers⟩ := hstep
    obtain ⟨ihsound, ihinitialized⟩ := ih hsound hsingle.2 fun f hf saved hload => by
      rw [hothers f.message fun hm => hsingle.1 (hm ▸ List.mem_map_of_mem hf)]
      exact hstates f (List.mem_cons_of_mem _ hf) saved hload
    exact ⟨ihsound, ihinitialized.trans hinitialized⟩

theorem startRows_sublist (rows : CurrentRows) : (startRows options rows).Sublist rows.rows := by
  unfold startRows
  split_ifs
  · exact List.filter_sublist
  · exact List.Sublist.refl _

/-- Between calls: nothing is accepted before the meter is initialized. -/
structure Ready (m : TurnMeter) : Prop where
  sound : m.Sound
  fresh : m.initialized = false → m.accepted = []

theorem ready_empty : Ready {} := ⟨sound_empty, fun _ => rfl⟩

theorem Sound.initialized (h : m.Sound) : Sound { m with initialized := true } :=
  ⟨h.states, h.accepted, h.read, h.metered, ⟨h.keeps.accepted, h.keeps.read⟩⟩

theorem Ready.initializeMeter (h : m.Ready) (start : StartAnswers) :
    (m.initializeMeter options start).1.Ready ∧
      ((m.initializeMeter options start).2 = true → (m.initializeMeter options start).1.initialized = true) := by
  unfold TurnMeter.initializeMeter
  by_cases hinitialized : m.initialized = true
  · rw [if_pos hinitialized]
    exact ⟨h, fun _ => hinitialized⟩
  rw [if_neg hinitialized]
  by_cases hreader : options.reader = true
  · rw [if_pos hreader]
    split
    · exact ⟨h, nofun⟩
    · rename_i rows _
      have hnone : m.accepted = [] := h.fresh (by simpa using hinitialized)
      have hsub := startRows_sublist options rows
      have hsingle := rows.single.sublist (hsub.map TurnUsageRevision.message)
      obtain ⟨hsound, haccepted, -, -, hstates⟩ := hydrateRows_spec options start (startRows options rows) h.sound hnone
        (fun fact hfact => rows.metered fact (hsub.subset hfact)) hsingle
      split
      · rename_i m' hm'
        rw [hm'] at hsound haccepted
        exact ⟨⟨hsound, fun _ => haccepted⟩, nofun⟩
      · rename_i m' hm'
        rw [hm'] at hsound haccepted hstates
        dsimp only at hsound haccepted hstates ⊢
        refine ⟨⟨Sound.initialized ?_, nofun⟩, fun _ => rfl⟩
        split_ifs
        · refine (hsound.reconciled options start _ (hsingle.sublist (List.filter_sublist.map _)) fun fact hfact => ?_).1
          obtain ⟨hmem, hpasses⟩ := List.mem_filter.mp hfact
          exact hstates rfl fact hmem (of_decide_eq_true hpasses).1
        · exact hsound
  · rw [if_neg hreader]
    exact ⟨⟨h.sound.initialized, nofun⟩, fun _ => rfl⟩

/-! An event on its message's state. -/

/-- Nothing is filed of a message without a state, and nothing read. -/
theorem Sound.put_new (h : m.Sound) (hc : c.Coherent) (hnone : Assoc.lookup c.message m.states = none) : (m.put c).Sound := by
  have hlookup := fun message => lookup_put m c message
  have hshown : ∀ message f, (∃ e, Assoc.lookup message m.states = some e ∧ e.Shows f) →
      ∃ e, Assoc.lookup message (m.put c).states = some e ∧ e.Shows f := by
    rintro message f ⟨e, he, hshows⟩
    refine ⟨e, ?_, hshows⟩
    rw [hlookup, if_neg]
    · exact he
    · rintro rfl
      rw [hnone] at he
      cases he
  refine ⟨fun message e he => ?_, fun f hf => hshown _ f (h.accepted f hf), fun message f hf => hshown _ f (h.read _ f hf),
    h.metered, ⟨h.keeps.accepted, h.keeps.read⟩⟩
  rw [hlookup] at he
  split_ifs at he with hm
  · obtain rfl := Option.some.inj he
    exact ⟨hm, hc⟩
  · exact h.states _ _ he

theorem held_put (hc : c.Coherent) : (m.put c).Held c :=
  ⟨hc, c, (lookup_put m c c.message).trans (if_pos rfl), rfl, rfl⟩

theorem held_hydrate (hmetered : fact.Metered) (saved : Option Store.UsageStreams) :
    (m.hydrate fact saved).Held (hydratedState fact saved) :=
  ⟨coherent_hydratedState fact saved hmetered, hydratedState fact saved, (lookup_put m _ _).trans (if_pos rfl), rfl, rfl⟩

/-- What a step on a state in hand keeps. -/
structure Keeping (m m' : TurnMeter) : Prop where
  sound : m'.Sound
  initialized : m'.initialized = m.initialized

theorem stateRead_of_rows {rows : CurrentRows} {message : Message}
    (h : rows.rows.find? (fun fact => decide (fact.message = message ∧ options.currentFilter fact = true)) = some fact) :
    fact.message = message ∧ fact.Metered := by
  have hfound := List.find?_some h
  exact ⟨(of_decide_eq_true hfound).1, rows.metered fact (List.mem_of_find?_eq_some h)⟩

theorem Sound.state (h : m.Sound) (sessionId messageId : String) (answers : CallAnswers) :
    m.Keeping (m.state options sessionId messageId answers).1 ∧
      ∀ c, (m.state options sessionId messageId answers).2 = some c →
        (m.state options sessionId messageId answers).1.Held c := by
  unfold TurnMeter.state
  split
  · rename_i existing hexisting
    exact ⟨⟨h, rfl⟩, fun c hc => Option.some.inj hc ▸ h.held hexisting⟩
  rename_i hnone
  have hcoherent := TurnState.coherent_created sessionId messageId
  have hcreated : (m.put (createdState sessionId messageId)).Sound := h.put_new hcoherent hnone
  dsimp only
  by_cases hreads : (options.reader && options.reconcileProvisionalOnStart) = true
  · rw [if_pos hreads]
    split
    · exact ⟨⟨h, rfl⟩, fun c hc => by cases hc⟩
    · split
      · exact ⟨⟨hcreated, rfl⟩, fun c hc => Option.some.inj hc ▸ held_put hcoherent⟩
      · rename_i persisted hpersisted
        obtain ⟨hm, hmetered⟩ := stateRead_of_rows options hpersisted
        split
        · exact ⟨⟨h, rfl⟩, fun c hc => by cases hc⟩
        · refine ⟨⟨h.hydrate hmetered (fun f hf hfm => ?_) _, rfl⟩, fun c hc => Option.some.inj hc ▸ held_hydrate hmetered _⟩
          obtain ⟨c, hc, -⟩ := h.accepted f hf
          rw [hfm, hm, hnone] at hc
          cases hc
  · rw [if_neg hreads]
    exact ⟨⟨hcreated, rfl⟩, fun c hc => Option.some.inj hc ▸ held_put hcoherent⟩

theorem keeping_persist (h : m.Sound) (hc : m.Held c) (terminal : Option Terminal)
    (hpermits : c.Permits ((terminal.map Terminal.settlement).getD .provisional) ((terminal.map Terminal.status).getD .running))
    (context : Option TurnContext) (writes : Writes) (now : ℤ) : m.Keeping (m.persist c terminal context writes now) :=
  ⟨h.persist hc hpermits context writes now, (persist_frame m c terminal context writes now).1⟩

/-- A turn not yet settled can be written as running. -/
theorem Held.permits_running (hc : m.Held c) (hs : c.settlement = none ∨ c.settlement = some .provisional) :
    c.Permits .provisional .running where
  running := ⟨fun _ => rfl, fun _ => rfl⟩
  verdict := fun hv => absurd hv (by rw [hc.coherent.not_verdict_of_provisional hs]; nofun)
  settled := fun hne hne' => absurd hs (not_or.mpr ⟨hne, hne'⟩)

theorem permits_ended (hv : c.hasVerdict = false) {settlement : TurnUsageSettlement} (hsettlement : settlement ≠ .provisional)
    {status : TurnUsageStatus} (hstatus : status ≠ .running) : c.Permits settlement status :=
  ⟨⟨fun h => absurd h hsettlement, fun h => absurd h hstatus⟩, fun h => absurd h (by rw [hv]; nofun), fun _ _ => hsettlement⟩

theorem ended_ne (c : TurnState) : c.ended ≠ .provisional := by
  unfold TurnState.ended
  split_ifs <;> nofun

theorem cut_ne (c : TurnState) : c.cut ≠ .provisional := by
  unfold TurnState.cut
  split_ifs <;> nofun

/-- What usage writes of a settled turn keeps its status. -/
theorem Held.permits_usage (hc : m.Held c) (now : ℤ) :
    c.Permits (((c.usageTerminal now).map Terminal.settlement).getD .provisional)
      (((c.usageTerminal now).map Terminal.status).getD .running) := by
  have hcoherent := hc.coherent
  unfold TurnState.usageTerminal
  rcases hsettlement : c.settlement with _ | settlement
  · exact hc.permits_running (.inl hsettlement)
  by_cases hprovisional : settlement = .provisional
  · subst hprovisional
    exact hc.permits_running (.inr hsettlement)
  obtain ⟨status, hstatus⟩ : ∃ status, c.status = some status :=
    Option.ne_none_iff_exists'.mp fun h => by
      rw [hcoherent.both.mpr h] at hsettlement
      cases hsettlement
  have hrunning : status ≠ .running := by
    rintro rfl
    rw [hcoherent.running.mpr hstatus] at hsettlement
    exact hprovisional (Option.some.inj hsettlement).symm
  have hsettled : (if settlement = .partialUsage ∨ settlement = .unavailable then TurnUsageSettlement.recovered else settlement) ≠
      .provisional := by
    split_ifs
    · nofun
    · exact hprovisional
  have hpermits : c.Permits (if settlement = .partialUsage ∨ settlement = .unavailable then .recovered else settlement) status :=
    ⟨⟨fun h => absurd h hsettled, fun h => absurd h hrunning⟩, fun hv => by simpa [TurnState.hasVerdict, hstatus] using hv,
      fun _ _ => hsettled⟩
  rw [hstatus]
  cases settlement
  · exact absurd rfl hprovisional
  all_goals exact hpermits

theorem Sound.keeping_put (h : m.Sound) (hc : m.Held c) : m.Keeping (m.put c) := ⟨h.put hc, rfl⟩

theorem Held.activate (hc : m.Held c) (sessionId messageId : String) : (m.activate sessionId messageId).Held c :=
  ⟨hc.coherent, hc.mapped⟩

theorem Keeping.of_activate {m' : TurnMeter} {sessionId messageId : String}
    (h : (m.activate sessionId messageId).Keeping m') : m.Keeping m' := ⟨h.sound, h.initialized⟩

theorem Sound.takeUsage (h : m.Sound) (hc : m.Held c) (observation : Store.RuntimeUsageObservation) (model : Option String)
    (account : Option TurnUsageCredential) (answers : CallAnswers) :
    m.Keeping (m.takeUsage c observation model account answers) := by
  unfold TurnMeter.takeUsage
  split_ifs with hrepeated
  · exact ⟨h, rfl⟩
  have hobserved := hc.same (c.same_observed observation model account answers.now)
  have hpermits := hobserved.permits_usage answers.now
  dsimp only
  split_ifs
  · exact (keeping_persist (h.activate _ _) (hobserved.activate _ _) _ hpermits _ _ _).of_activate
  · exact keeping_persist h hobserved _ hpermits _ _ _

theorem Sound.takeUpdated (h : m.Sound) (hc : m.Held c) (info : MessageInfo) (answers : CallAnswers) :
    m.Keeping (m.takeUpdated c info answers) := by
  unfold TurnMeter.takeUpdated
  dsimp only
  have hupdated := hc.same (c.same_updated info answers.now)
  generalize c.updated info answers.now = d at hupdated
  have hsound := h.activate d.sessionId d.messageId
  have hheld := hupdated.activate d.sessionId d.messageId
  suffices hnext : (m.activate d.sessionId d.messageId).Keeping _ from hnext.of_activate
  rcases info.completed with _ | completedAt
  · dsimp only
    split_ifs with hrevision
    · -- a state without a revision is not settled
      have hnone : d.settlement = none := by
        by_contra hsettled
        have := hheld.coherent.settled hsettled
        omega
      exact keeping_persist hsound hheld none (hheld.permits_running (.inl hnone)) _ _ _
    · exact hsound.keeping_put hheld
  · have hstatus : (if info.error.isSome = true then TurnUsageStatus.error else .completed) ≠ .running := by
      split_ifs <;> nofun
    dsimp only
    by_cases hv : d.hasVerdict = true
    · rw [if_pos hv]
      exact hsound.keeping_put hheld
    · have hpermits := permits_ended (by simpa using hv) (ended_ne d) hstatus
      rw [if_neg hv]
      by_cases hfinal : d.settlement = some .final ∧ d.status = some (if info.error.isSome = true then .error else .completed)
      · rw [if_pos hfinal]
        exact hsound.keeping_put hheld
      · rw [if_neg hfinal]
        exact keeping_persist hsound hheld (some ⟨d.ended, _, some completedAt⟩) hpermits _ _ _

theorem Sound.takeError (h : m.Sound) (hc : m.Held c) (error : Option HarnessError) (answers : CallAnswers) :
    m.Keeping (m.takeError c error answers) := by
  unfold TurnMeter.takeError
  split_ifs with hv
  · exact ⟨h, rfl⟩
  · have hsame := c.same_failed error
    exact keeping_persist h (hc.same hsame) (some ⟨_, .error, some answers.now⟩)
      (hsame.permits (permits_ended (by simpa using hv) (ended_ne _) (by nofun))) _ _ _

/-- The one step that reads the settlement and not the status. -/
theorem Sound.takeCompleted (h : m.Sound) (hc : m.Held c) (answers : CallAnswers)
    (hclear : c.hasVerdict = true → c.settlement = some .final ∨ c.settlement = some .unavailable) :
    m.Keeping (m.takeCompleted c answers) := by
  unfold TurnMeter.takeCompleted
  split_ifs with hsettled
  · exact ⟨h, rfl⟩
  · have hv : c.hasVerdict = false := by simpa using fun hv => hsettled (hclear hv)
    exact keeping_persist h hc (some ⟨c.ended, .completed, some answers.now⟩) (permits_ended hv (ended_ne c) (by nofun)) _ _ _

theorem Sound.settleTurn (h : m.Sound) (hc : m.Held c) (verdict : TurnVerdict) (answers : CallAnswers) :
    m.Keeping (m.settleTurn c verdict answers) := by
  refine keeping_persist h hc (some ⟨c.cut, verdict.status, some answers.now⟩) ⟨⟨fun hp => absurd hp (cut_ne c),
      fun hr => ?_⟩, fun _ => verdict.isVerdict_status,
    fun _ _ => cut_ne c⟩ _ _ _
  cases verdict <;> cases hr

theorem Sound.withState (h : m.Sound) (sessionId messageId : String) (answers : CallAnswers) (take : TurnMeter → TurnState → TurnMeter)
    (htake : ∀ (m' : TurnMeter) (c : TurnState), (m.state options sessionId messageId answers).2 = some c → m'.Sound →
        m'.Held c → m'.Keeping (take m' c)) :
    m.Keeping (m.withState options sessionId messageId answers take) := by
  obtain ⟨hkeeping, hheld⟩ := h.state options sessionId messageId answers
  unfold TurnMeter.withState
  generalize m.state options sessionId messageId answers = answered at hkeeping hheld htake
  rcases answered with ⟨m', _ | c⟩
  · exact hkeeping
  · have hnext := htake m' c rfl hkeeping.sound (hheld c rfl)
    exact ⟨hnext.sound, hnext.initialized.trans hkeeping.initialized⟩

/-- A `message.completed` finds its message's turn without a verdict, or settled as far as its guard reads. -/
def CompletesNoVerdict (m : TurnMeter) (sessionId : String) (event : TurnEvent) (answers : CallAnswers) : Prop :=
  match event with
  | .messageCompleted messageId =>
    ∀ c ∈ (m.state options sessionId messageId answers).2, c.hasVerdict = true →
      c.settlement = some .final ∨ c.settlement = some .unavailable
  | _ => True

instance (sessionId : String) (event : TurnEvent) (answers : CallAnswers) :
    Decidable (CompletesNoVerdict options m sessionId event answers) := by
  unfold CompletesNoVerdict
  cases event <;> infer_instance

theorem Sound.consumeEvent (h : m.Sound) (sessionId : String) (event : TurnEvent) (answers : CallAnswers)
    (hclear : CompletesNoVerdict options m sessionId event answers) :
    m.Keeping (m.consumeEvent options sessionId event answers) := by
  rcases event with ⟨messageId, observation, model, account⟩ | ⟨messageId, time⟩ | info | messageId | error | _
  · simp only [TurnMeter.consumeEvent]
    split
    · exact h.withState options _ _ _ _ fun m' c _ hm' hc => hm'.takeUsage hc _ _ _ _
    · exact ⟨h, rfl⟩
  · simp only [TurnMeter.consumeEvent]
    split_ifs
    · refine h.withState options _ _ _ _ fun m' c _ hm' hc => hm'.keeping_put (hc.same ⟨rfl, rfl, rfl, rfl⟩)
    · exact ⟨h, rfl⟩
  · simp only [TurnMeter.consumeEvent]
    split_ifs
    · exact h.withState options _ _ _ _ fun m' c _ hm' hc => hm'.takeUpdated hc _ _
    · exact ⟨h, rfl⟩
  · exact h.withState options _ _ _ _ fun m' c hstate hm' hc => hm'.takeCompleted hc _ (hclear c hstate)
  · simp only [TurnMeter.consumeEvent]
    split
    · exact ⟨h, rfl⟩
    · exact h.withState options _ _ _ _ fun m' c _ hm' hc => hm'.takeError hc _ _
  · exact ⟨h, rfl⟩

theorem Ready.onceInitialized (h : m.Ready) (start : StartAnswers) (next : TurnMeter → TurnMeter)
    (hnext : ∀ m', m.initializeMeter options start = (m', true) → m'.Sound → m'.Keeping (next m')) :
    (m.onceInitialized options start next).Ready := by
  obtain ⟨hready, hinitialized⟩ := h.initializeMeter options start
  unfold TurnMeter.onceInitialized
  generalize m.initializeMeter options start = done at hready hinitialized hnext
  rcases done with ⟨m', _ | _⟩
  · exact hready
  · have hkeeping := hnext m' rfl hready.sound
    refine ⟨hkeeping.sound, fun hfresh => ?_⟩
    rw [show (next m').initialized = true from hkeeping.initialized.trans (hinitialized rfl)] at hfresh
    cases hfresh

/-- The same of a call, in the meter its event finds. -/
def ClearCall (m : TurnMeter) : MeterLabel → Prop
  | .consume start sessionId event answers =>
    (m.initializeMeter options start).2 = true → ∀ session ∈ nonEmpty sessionId,
      CompletesNoVerdict options (m.initializeMeter options start).1 session event answers
  | .start _ | .settle .. => True

instance (label : MeterLabel) : Decidable (ClearCall options m label) := by
  unfold ClearCall
  cases label <;> infer_instance

theorem Ready.step (h : m.Ready) (label : MeterLabel) (hclear : ClearCall options m label) : (m.step options label).Ready := by
  rcases label with start | ⟨start, sessionId, event, answers⟩ | ⟨start, sessionId, messageId, verdict, answers⟩
  · exact h.onceInitialized options start _ fun m' _ hm' => ⟨hm', rfl⟩
  · refine h.onceInitialized options start _ fun m' hdone hm' => ?_
    rcases hsession : nonEmpty sessionId with _ | session
    · exact ⟨hm', rfl⟩
    · rw [ClearCall, hdone] at hclear
      exact hm'.consumeEvent options session event answers (hclear rfl session hsession)
  · exact h.onceInitialized options start _ fun m' _ hm' =>
      hm'.withState options _ _ _ _ fun m'' c _ hm'' hc => hm''.settleTurn hc verdict answers

theorem sound_run {labels : List MeterLabel} (h : Meets (step options) (ClearCall options) {} labels) :
    (run (step options) {} labels).Sound :=
  (invariant_of_meets Ready (fun _ label hm hclear => hm.step options label hclear) ready_empty h).sound

/-- What the reader has once such a run has filed over `rows`. -/
def filedOver (rows : CurrentRows) {labels : List MeterLabel} (h : Meets (step options) (ClearCall options) {} labels) :
    CurrentRows where
  rows := (rows.rows ++ (run (step options) {} labels).accepted).pwFilter (·.message ≠ ·.message)
  single := List.pairwise_map.mpr (List.pairwise_pwFilter _)
  metered := fun fact hfact => (List.mem_append.mp (List.pwFilter_subset _ hfact)).elim (rows.metered fact)
    ((sound_run options h).metered fact)

/-- A turn keeps its verdict, and its settlement, after every run whose `message.completed`s find none with known usage. -/
theorem keepsVerdicts_run (labels : List MeterLabel) (h : Meets (step options) (ClearCall options) {} labels) :
    KeepsVerdicts (run (step options) {} labels) :=
  (sound_run options h).keeps

end TurnMeter

/-! A meter without a reader, and a turn of it that is stopped. -/

section
open TurnMeter

def unread : MeterOptions where
  reader := false
  state := false
  reconcileProvisionalOnStart := false
  currentFilter := fun _ => true

def noStart : StartAnswers where
  rows := none
  saved := fun _ => none
  writes := fun _ => ⟨.failed, .failed⟩
  now := 0

/-- An accepting ledger's answers at a time. -/
def accepting (now : ℤ) : CallAnswers where
  rows := none
  saved := none
  context := some { sessionRef := "ref", hostId := "host", location := .local, harness := "codex" }
  writes := ⟨.absent, .absent⟩
  now := now

def observedTurn (input : ℤ) (now : ℤ) : MeterLabel :=
  .consume noStart (some "s") (.sessionUsage (some "m") (some {
    kind := .cumulative, tokens := { Store.unknownTokenUsage with input := some input } }) none none) (accepting now)

/-- A completion that finds a turn stopped with no known usage leaves it, and usage that lands later recovers it. -/
def stoppedTurn : List MeterLabel :=
  [.settle noStart "s" "m" .stopped (accepting 1), .consume noStart (some "s") (.messageCompleted "m") (accepting 2),
    observedTurn 3 4]

theorem stoppedTurn_clear : Meets (step unread) (ClearCall unread) {} stoppedTurn := by decide +kernel

def reading : MeterOptions where
  reader := true
  state := false
  reconcileProvisionalOnStart := true
  currentFilter := fun _ => true

/-- A meter that starts on what `stoppedTurn` left. -/
def restart : StartAnswers :=
  { noStart with rows := some (filedOver unread ⟨[], List.nodup_nil, fun _ h => absurd h List.not_mem_nil⟩ stoppedTurn_clear) }

/-- More usage of the stopped turn, after a restart. -/
def restartedTurn : List MeterLabel :=
  [.consume restart (some "s") (.sessionUsage (some "m") (some {
    kind := .cumulative, tokens := { Store.unknownTokenUsage with input := some 7 } }) none none)
    { accepting 5 with rows := restart.rows, writes := ⟨.row 2 false, .failed⟩ }]

theorem stoppedTurn_keepsVerdict :
    ((run (step unread) {} stoppedTurn).accepted.map (fun fact => (fact.settlement, fact.status)) =
        [(.unavailable, .stopped), (.recovered, .stopped)] ∧
      KeepsVerdicts (run (step unread) {} stoppedTurn)) ∧
    (run (step reading) {} restartedTurn).accepted.map (fun fact => (fact.revision, fact.settlement, fact.status)) =
        [(3, .recovered, .stopped)] ∧
      KeepsVerdicts (run (step reading) {} restartedTurn) :=
  ⟨⟨by decide +kernel, keepsVerdicts_run unread stoppedTurn stoppedTurn_clear⟩, by decide +kernel,
    keepsVerdicts_run reading restartedTurn (by decide +kernel)⟩

/-- A turn stopped with known usage is partial, and the harness's own completion is then accepted over the stop. -/
theorem completed_over_stopped : ¬ ∀ (options : MeterOptions) (labels : List MeterLabel),
    KeepsVerdicts (run (step options) {} labels) := by
  intro h
  have hkept := (h unread [observedTurn 3 1, .settle noStart "s" "m" .stopped (accepting 2),
    .consume noStart (some "s") (.messageCompleted "m") (accepting 3)]).accepted
  revert hkept
  decide +kernel

end

end Claxedo.Usage

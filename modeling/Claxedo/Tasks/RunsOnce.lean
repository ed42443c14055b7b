import Claxedo.Tasks.Replay

/-! A client request id over every run: one unit runs its command, and what the other calls of it answer. -/

namespace Claxedo.Tasks

open Claxedo.Lib Claxedo.Lib.Program TasksM

/-- The id a unit's receipt is kept under. -/
def UnitWork.requestKey : UnitWork → Option Key
  | .command actor request => some (actor.scopeId, request.clientRequestId)
  | .settle _ => none

/-- A refusal that `execute` takes for the commit of its own request. -/
def Fault.ofRevision : Fault → Bool
  | .raced _ => true
  | .refused detail => detail.code = .staleRevision
  | _ => false

/-- The fault the call's unit ended in. -/
def ExecuteCall.Attempt.faulted : ExecuteCall.Attempt → Option Fault
  | .fault reported => some reported
  | _ => none

/-- The rows a call's reads are answered from, read by read. -/
def ExecuteCall.readsFrom (store : StoreKind) (ledger : Ledger) (call : ExecuteCall) (n : ℕ) : Rows :=
  match store with
  | .memory => ledger.at call.unitAt
  | .d1 => ledger.at (call.moments n)

/-- What refuses a command on such rows: a check of its own, or its request's receipt under another hash. -/
def refusalOn (hashRequest : TasksCommand → String) (store : StoreKind) (ports : ℕ → Ports) (actor : TasksActor)
    (request : TasksCommandRequest) (reads : ℕ → Rows) : Option Fault :=
  match store with
  | .memory =>
    match memoryTransaction ports (commandUnit hashRequest actor request) (reads 0) with
    | .error fault => some fault
    | .ok _ => none
  | .d1 =>
    match d1Work ports reads (commandUnit hashRequest actor request) with
    | .error fault => some fault
    | .ok _ => none

theorem faulted_attempt (hashRequest : TasksCommand → String) (store : StoreKind) (ledger : Ledger) (call : ExecuteCall) :
    (call.attempt hashRequest store ledger).faulted =
      refusalOn hashRequest store call.ports call.actor call.request (call.readsFrom store ledger) := by
  unfold ExecuteCall.attempt refusalOn ExecuteCall.readsFrom
  cases store with
  | memory =>
    dsimp only
    rcases memoryTransaction call.ports (commandUnit hashRequest call.actor call.request) (ledger.at call.unitAt) with
      fault | ⟨_ | result, rows⟩ <;> rfl
  | d1 =>
    dsimp only
    rcases d1Work call.ports (fun n => ledger.at (call.moments n)) (commandUnit hashRequest call.actor call.request) with
      fault | ⟨result, unit⟩
    · rfl
    · dsimp only
      rcases batch (ledger.at call.unitAt) unit.statements with _ | rows
      · rfl
      · cases result <;> rfl

/-- Once the call's request has committed: no check but those of a revision refuses it on the rows its reads are answered from,
and the receipt is there when the call looks for it after its unit. -/
def SeesCommit (hashRequest : TasksCommand → String) (store : StoreKind) (ledger : Ledger) (call : ExecuteCall) : Prop :=
  (ledger.rows.receipt call.key).isSome →
    (∀ fault ∈ refusalOn hashRequest store call.ports call.actor call.request (call.readsFrom store ledger), fault.ofRevision) ∧
      call.committedAlready ledger

instance (hashRequest : TasksCommand → String) (store : StoreKind) (ledger : Ledger) (call : ExecuteCall) :
    Decidable (SeesCommit hashRequest store ledger call) :=
  inferInstanceAs (Decidable ((ledger.rows.receipt call.key).isSome →
    (∀ fault ∈ refusalOn hashRequest store call.ports call.actor call.request (call.readsFrom store ledger), fault.ofRevision) ∧
      call.committedAlready ledger))

/-- Of the units of one client request id one changes the rows; a call that answers it without committing answers
that unit's result, for a command of one hash; and the same command by the same actor is answered so. -/
structure RunsOnce (hashRequest : TasksCommand → String) (store : StoreKind) (calls : List UnitCall) (call : ExecuteCall) : Prop where
  once : ∀ before first middle second after, calls = before ++ first :: (middle ++ second :: after) →
    first.work.requestKey ≠ none → first.work.requestKey = second.work.requestKey →
      (runUnits hashRequest store (before ++ [first])).rows ≠ (runUnits hashRequest store before).rows →
        (runUnits hashRequest store (before ++ first :: (middle ++ [second]))).rows =
          (runUnits hashRequest store (before ++ first :: middle)).rows
  commits : ∀ result, call.execute hashRequest store (runUnits hashRequest store calls) = .ok ⟨result, false⟩ →
    (runUnits hashRequest store calls).past.length ≤ call.unitAt →
      (runUnits hashRequest store (calls ++ [call.unit])).ran call.actor call.request result
  answers : ∀ result, call.execute hashRequest store (runUnits hashRequest store calls) = .ok ⟨result, true⟩ →
    ∃ actor request, (runUnits hashRequest store calls).ran actor request result ∧
      (actor.scopeId, request.clientRequestId) = call.key ∧ hashRequest request.command = hashRequest call.request.command
  replays : ∀ request result, (runUnits hashRequest store calls).ran call.actor request result →
    request.clientRequestId = call.request.clientRequestId → request.command = call.request.command →
      ValidId call.request.clientRequestId → Grants call.replayPorts call.actor →
        (∀ own, call.attempt hashRequest store (runUnits hashRequest store calls) ≠ .commits own) →
          call.execute hashRequest store (runUnits hashRequest store calls) = .ok ⟨result, true⟩

section
variable {hashRequest : TasksCommand → String} {store : StoreKind} {ledger : Ledger} {call : UnitCall}

theorem ran_of_changed (hchronicle : Chronicle ledger) {k : Key} (hkey : call.work.requestKey = some k)
    (hchanged : (ledger.step hashRequest store call).rows ≠ ledger.rows) :
    ledger.rows.receipt k = none ∧ (ledger.step hashRequest store call).rows.receipt k ≠ none := by
  rcases step_cases hchronicle hashRequest store call with hsame | ⟨t, result, rows', hcommit, -, htransacted, -, -⟩
  · rw [hsame] at hchanged
    exact absurd rfl hchanged
  · rw [hcommit] at hchanged ⊢
    rcases hwork : call.work with ⟨actor, request⟩ | settlement
    · rw [hwork] at hkey
      have hfollows := htransacted.follows
      rw [hwork] at hfollows
      obtain ⟨t₁, t₂, committed, rfl, hunit, rfl, rfl⟩ := follows_bind.mp hfollows
      have hserial := htransacted.serial
      rw [List.append_nil] at hserial
      cases commandCommitted hunit hserial with
      | found hrows => exact absurd hrows hchanged
      | ran receipt hreceipt hhash hnew hput hrecorded =>
        have hk : receipt.key = k := hreceipt.trans (Option.some.inj hkey)
        refine ⟨hk ▸ hnew, ?_⟩
        change rows'.receipt k ≠ none
        rw [hput, if_pos hk]
        exact Option.some_ne_none _
    · rw [hwork] at hkey
      cases hkey

theorem receipt_of_run (hashRequest : TasksCommand → String) (store : StoreKind) (hchronicle : Chronicle ledger) {k : Key}
    (hthere : ledger.rows.receipt k ≠ none) (calls : List UnitCall) :
    (run (Ledger.step hashRequest store) ledger calls).rows.receipt k ≠ none := by
  induction calls generalizing ledger with
  | nil => exact hthere
  | cons call calls ih =>
    rw [run_cons]
    refine ih (hchronicle.step hashRequest store call) ?_
    rcases step_cases hchronicle hashRequest store call with hsame | ⟨t, result, rows', hcommit, -, -, heffect, -⟩
    · rw [hsame]
      exact hthere
    · rw [hcommit]
      obtain ⟨receipt, hreceipt⟩ := Option.ne_none_iff_exists'.mp hthere
      change rows'.receipt k ≠ none
      rw [heffect.grows.receipt k receipt hreceipt]
      exact Option.some_ne_none _

theorem runs_once (hashRequest : TasksCommand → String) (store : StoreKind) (before middle : List UnitCall) (first second : UnitCall)
    (hkey : first.work.requestKey ≠ none) (hsame : first.work.requestKey = second.work.requestKey)
    (hchanged : (runUnits hashRequest store (before ++ [first])).rows ≠ (runUnits hashRequest store before).rows) :
    (runUnits hashRequest store (before ++ first :: (middle ++ [second]))).rows =
      (runUnits hashRequest store (before ++ first :: middle)).rows := by
  obtain ⟨k, hk⟩ := Option.ne_none_iff_exists'.mp hkey
  have hsnoc : ∀ calls call, runUnits hashRequest store (calls ++ [call]) =
      (runUnits hashRequest store calls).step hashRequest store call := fun calls call => run_snoc _ _ _ _
  rw [hsnoc] at hchanged
  obtain ⟨-, hput⟩ := ran_of_changed (chronicle_runUnits hashRequest store before) hk hchanged
  rw [← hsnoc] at hput
  have hthere := receipt_of_run hashRequest store (chronicle_runUnits hashRequest store _) hput middle
  by_contra hne
  rw [show before ++ first :: (middle ++ [second]) = (before ++ first :: middle) ++ [second] from by simp, hsnoc] at hne
  obtain ⟨hnone, -⟩ := ran_of_changed (chronicle_runUnits hashRequest store _) (hsame ▸ hk) hne
  rw [show before ++ first :: middle = (before ++ [first]) ++ middle from by simp, runUnits, run_append] at hnone
  exact hthere hnone

end

namespace ExecuteCall

variable {hashRequest : TasksCommand → String} {store : StoreKind} {ledger : Ledger} {call : ExecuteCall}

variable {result : TasksCommandResult}

/-- A replay is the answer of every call that does not commit and answers. -/
theorem replayed_of_execute (h : call.execute hashRequest store ledger = .ok ⟨result, true⟩) :
    call.replayed hashRequest ledger = .ok ⟨result, true⟩ := by
  unfold execute at h
  split_ifs at h
  split at h
  · cases h
  · exact h
  · split at h
    · exact h
    · cases h
    · cases h
  · exact h
  · split_ifs at h
    exact h
  · cases h

theorem commits_of_execute (h : call.execute hashRequest store ledger = .ok ⟨result, false⟩) :
    call.attempt hashRequest store ledger = .commits result := by
  have hreplayed : call.replayed hashRequest ledger ≠ .ok ⟨result, false⟩ := fun hok => by
    obtain ⟨hfalse, -⟩ := replayed_eq_ok hok
    cases hfalse
  unfold execute at h
  split_ifs at h
  split at h
  · cases h
    assumption
  · exact absurd h hreplayed
  · split at h
    · exact absurd h hreplayed
    · cases h
    · cases h
  · exact absurd h hreplayed
  · split_ifs at h
    exact absurd h hreplayed
  · cases h

theorem Attempt.of_eq_commits {committed : Option TasksCommandResult} (h : Attempt.of committed = .commits result) :
    committed = some result := by
  cases committed with
  | none => cases h
  | some committed =>
    cases h
    rfl

/-- A call whose unit goes through now is a unit that the store commits. -/
theorem transact_of_commits (h : call.attempt hashRequest store ledger = .commits result)
    (hnow : ledger.past.length ≤ call.unitAt) :
    ∃ rows', ledger.transact hashRequest store call.unit = some (.command (some result), rows') := by
  have hat := Ledger.at_of_le hnow
  cases store with
  | memory =>
    simp only [attempt, hat, memoryTransaction] at h
    simp only [Ledger.transact, memoryTransaction, unit, UnitWork.program, exec_bind]
    rcases hexec : (commandUnit hashRequest call.actor call.request).exec (memoryHandler call.ports) ⟨ledger.rows, 0⟩ with
      fault | ⟨committed, memory⟩
    · rw [hexec] at h
      cases h
    · rw [hexec] at h
      obtain rfl := Attempt.of_eq_commits h
      exact ⟨memory.rows, rfl⟩
  | d1 =>
    simp only [attempt, hat, d1Work] at h
    simp only [Ledger.transact, d1Commits, d1Work, unit, UnitWork.program, exec_bind]
    rcases hexec : (commandUnit hashRequest call.actor call.request).exec
        (d1Handler call.ports fun n => ledger.at (call.moments n)) {} with fault | ⟨committed, d1Unit⟩
    · rw [hexec] at h
      cases h
    · rw [hexec] at h
      dsimp only at h
      rcases hbatch : batch ledger.rows d1Unit.statements with _ | rows'
      · rw [hbatch] at h
        cases h
      · rw [hbatch] at h
        obtain rfl := Attempt.of_eq_commits h
        refine ⟨rows', ?_⟩
        change (batch ledger.rows d1Unit.statements).map _ = _
        rw [hbatch]
        rfl

/-- A batch that was refused put a receipt of the call's request, and no other. -/
theorem duplicate_of_lost {probes : List TasksConflictProbe} (h : call.attempt hashRequest store ledger = .lost probes) :
    ∃ receipt : TasksCommandReceipt, receipt.key = call.key ∧ duplicate receipt ∈ probes ∧
      ∀ probe ∈ probes, probe.kind = .duplicateReceipt → probe = duplicate receipt := by
  cases store with
  | memory =>
    simp only [attempt] at h
    split at h
    · cases h
    · rename_i committed _ _
      cases committed <;> cases h
  | d1 =>
    simp only [attempt, d1Work] at h
    rcases hexec : (commandUnit hashRequest call.actor call.request).exec
        (d1Handler call.ports fun n => ledger.at (call.moments n)) {} with fault | ⟨committed, d1Unit⟩
    · rw [hexec] at h
      cases h
    · rw [hexec] at h
      dsimp only at h
      rcases hbatch : batch (ledger.at call.unitAt) d1Unit.statements with _ | rows'
      · rw [hbatch] at h
        cases h
        obtain ⟨t, hfollows, htrail⟩ := exec_eq_ok_iff.mp hexec
        rcases summary_commandUnit hfollows with ⟨held, -, -, hsummary⟩ | ⟨t', result, now, hran, -, -, hsummary⟩
        · -- a unit that found its receipt has an empty batch
          rw [d1_quiet htrail hsummary.writes] at hbatch
          cases hbatch
        · obtain ⟨rs, ws, hown⟩ := hran.did.summary
          have hputs : (Trace.writes t).filterMap putReceipt = [⟨call.actor.scopeId, call.request.clientRequestId,
              call.request.command.type, hashRequest call.request.command, result, now⟩] := by
            have hnone : ws.filterMap putReceipt = [] := List.filterMap_eq_nil_iff.mpr fun a ha => by
              have htable := receipts_command hran a (hown.writes ▸ ha)
              obtain ⟨op, answer⟩ := a
              cases op with
              | receiptPut receipt => exact absurd rfl htable
              | _ => rfl
            rw [(hsummary hown).writes, List.filterMap_append, hnone]
            rfl
          obtain ⟨hall, -, hput⟩ := d1_probes htrail
          rw [hputs] at hall hput
          refine ⟨_, rfl, hput _ (List.mem_singleton.mpr rfl), fun probe hprobe hkind => ?_⟩
          rcases hall probe hprobe hkind with hnone | ⟨receipt, hreceipt, rfl⟩
          · cases hnone
          · rw [List.mem_singleton.mp hreceipt]
      · rw [hbatch] at h
        cases committed <;> cases h

/-- Once its request has committed, a call that sees so is answered the committed result. -/
theorem execute_of_ran {request : TasksCommandRequest} (hchronicle : Chronicle ledger) (hreceipted : Receipted hashRequest ledger)
    (hran : ledger.ran call.actor request result) (hid : request.clientRequestId = call.request.clientRequestId)
    (hcommand : request.command = call.request.command) (hvalid : ValidId call.request.clientRequestId)
    (hgrants : Grants call.replayPorts call.actor) (hown : ∀ own, call.attempt hashRequest store ledger ≠ .commits own)
    (hsees : SeesCommit hashRequest store ledger call) :
    call.execute hashRequest store ledger = .ok ⟨result, true⟩ := by
  obtain ⟨receipt, hreceipt, rfl, hhash⟩ := hreceipted.stored call.actor request result hran
  have hkey : (call.actor.scopeId, request.clientRequestId) = call.key := Prod.ext rfl hid
  rw [hkey] at hreceipt
  obtain ⟨hrevision, hseen⟩ := hsees (by rw [hreceipt]; rfl)
  -- the receipt seen after the unit is the one that is there now, and it is there for the replay
  obtain ⟨seen, hat⟩ := Option.isSome_iff_exists.mp hseen
  obtain rfl : seen = receipt := Option.some.inj (((hchronicle.now _).receipt _ _ hat).symm.trans hreceipt)
  have hlater : ∀ m, (ledger.at (call.replayAt m)).receipt call.key = some seen := fun m =>
    (hchronicle.grows _ _ (call.le_replay 0 m)).receipt _ _ hat
  have hrecorded := hreceipted.recorded (call.replayAt 1) call.actor request seen (hkey.symm ▸ hlater 1) hran
  have hreplayed := replayed_ok (hlater 0) (hhash.trans (congrArg hashRequest hcommand)) hrecorded
    ((hreceipted.valid _).recordId hrecorded) hgrants
  unfold execute
  rw [if_neg (by rw [hvalid.1]; exact Bool.false_ne_true), if_neg (not_not.mpr hvalid.2)]
  rcases hattempt : call.attempt hashRequest store ledger with fault | _ | own | probes
  · have hfault := hrevision fault (by rw [← faulted_attempt, hattempt]; rfl)
    cases fault with
    | raced detail => exact hreplayed
    | refused detail =>
      dsimp only
      rw [if_pos ⟨of_decide_eq_true hfault, hseen⟩]
      exact hreplayed
    | conflict kind message => cases hfault
    | error message => cases hfault
  · exact hreplayed
  · exact absurd hattempt (hown own)
  · obtain ⟨put, hputKey, hmem, hall⟩ := duplicate_of_lost hattempt
    have hbroken : ∀ probe ∈ probes, probe.kind = .duplicateReceipt →
        ∃ message, probe.broken (ledger.at (call.after 0)) = some message := fun probe hprobe hkind => by
      rw [hall probe hprobe hkind]
      refine ⟨s!"client request {put.clientRequestId} was committed by another request", ?_⟩
      simp only [duplicate, hputKey, hat, Option.map_some]
    obtain ⟨message, hconflict⟩ := conflict_of_duplicate (fun n => ledger.at (call.after n)) ⟨_, hmem, rfl⟩ hbroken
    dsimp only
    rw [hconflict]
    exact hreplayed

end ExecuteCall

/-- Over every run of either store a client request id runs once, and a call that sees its commit is answered it. -/
theorem runsOnce_of_seesCommit (hashRequest : TasksCommand → String) (store : StoreKind) (calls : List UnitCall) (call : ExecuteCall)
    (hids : ∀ unit ∈ calls, MintsIds unit) (hsees : SeesCommit hashRequest store (runUnits hashRequest store calls) call) :
    RunsOnce hashRequest store calls call where
  once before first middle second after _ hkey hsame hchanged :=
    runs_once hashRequest store before middle first second hkey hsame hchanged
  commits result hexecute hnow := by
    obtain ⟨rows', htransact⟩ := ExecuteCall.transact_of_commits (ExecuteCall.commits_of_execute hexecute) hnow
    have hstep : (runUnits hashRequest store calls).step hashRequest store call.unit =
        (runUnits hashRequest store calls).commit call.unit (.command (some result)) rows' := by
      rw [Ledger.step, htransact]
      rfl
    rw [runUnits, run_snoc]
    change ((runUnits hashRequest store calls).step hashRequest store call.unit).ran _ _ _
    rw [hstep]
    exact ⟨call.unit, List.mem_append_right _ (List.mem_singleton.mpr rfl), rfl⟩
  answers result hexecute := by
    obtain ⟨-, receipt, hreceipt, rfl, hhash⟩ := ExecuteCall.replayed_eq_ok (ExecuteCall.replayed_of_execute hexecute)
    have hnow := ((chronicle_runUnits hashRequest store calls).now _).receipt _ _ hreceipt
    obtain ⟨actor, request, hran, hkey, hcommand⟩ := (receipted_runUnits hashRequest store hids).entry _ _ hnow
    exact ⟨actor, request, hran, hkey, hcommand.symm.trans hhash⟩
  replays request result hran hid hcommand hvalid hgrants hown :=
    ExecuteCall.execute_of_ran (chronicle_runUnits hashRequest store calls) (receipted_runUnits hashRequest store hids) hran hid
      hcommand hvalid hgrants hown hsees

/-- A person's call whose receipt read is answered at one moment and all that follows at a later one. -/
def executeAt (first later : ℕ) (h : first ≤ later) (request : TasksCommandRequest) : ExecuteCall where
  actor := ⟨"s", "o", none⟩
  request := request
  ports := plainHost request.clientRequestId
  moments n := if n = 0 then first else later
  mono n m hnm := by
    dsimp only
    split_ifs <;> omega
  unitAt := later
  after _ := later
  replayPorts := plainHost request.clientRequestId
  replayAt _ := later
  unit_le n := by split_ifs <;> omega
  le_after _ := le_rfl
  after_mono := monotone_const
  le_replay _ _ := le_rfl
  replay_mono := monotone_const

/-- The command `createAt` brings for a child. -/
def childRequest (id parentTaskId : String) : TasksCommandRequest :=
  ⟨id, .taskCreate { projectId := "p", title := "t", description := "", workspaceId := none, parentTaskId := some parentTaskId }⟩

/-- A child is created, and then it and its parent are archived. -/
def archivedFamily : List UnitCall :=
  [createAt 0 "a" none none, createAt 1 "c" none (some "a"), commandAt 2 "x" (.taskArchive ⟨"c", 1⟩),
    commandAt 3 "y" (.taskArchive ⟨"a", 3⟩)]

/-- The child as its create answered it, and its parent. -/
def childResult : TasksCommandResult :=
  .task .taskCreate
    { createdRoot "c" 1 none with childNumber := some 1, parentTaskId := some "a" }
    (some { createdRoot "a" 1 none with revision := 2, childSetRevision := 1 })

/-- What the committed units were asked and answered. -/
def Ledger.answers (ledger : Ledger) : List (TasksActor × TasksCommandRequest × UnitResult) :=
  ledger.committed.filterMap fun entry =>
    match entry.1.work with
    | .command actor request => some (actor, request, entry.2)
    | .settle _ => none

theorem Ledger.ran_of_answers {ledger : Ledger} {actor : TasksActor} {request : TasksCommandRequest} {result : TasksCommandResult}
    (h : (actor, request, .command (some result)) ∈ ledger.answers) : ledger.ran actor request result := by
  obtain ⟨⟨call, committed⟩, hmem, hanswer⟩ := List.mem_filterMap.mp h
  rcases hwork : call.work with ⟨actor', request'⟩ | settlement
  · simp only [hwork, Option.some.injEq, Prod.mk.injEq] at hanswer
    obtain ⟨rfl, rfl, rfl⟩ := hanswer
    exact ⟨call, hmem, hwork⟩
  · simp only [hwork, reduceCtorEq] at hanswer

/-- A second call of the create looks for its receipt before the first commits and for its parent after that was archived:
it is refused the archived parent. -/
theorem not_runsOnce : ¬ RunsOnce (fun _ => "") .d1 archivedFamily (executeAt 1 4 (by decide) (childRequest "c" "a")) := by
  intro h
  have hran : (runUnits (fun _ => "") .d1 archivedFamily).ran ⟨"s", "o", none⟩ (childRequest "c" "a") childResult :=
    Ledger.ran_of_answers (by decide +kernel)
  have hfault : ((executeAt 1 4 (by decide) (childRequest "c" "a")).attempt (fun _ => "") .d1
      (runUnits (fun _ => "") .d1 archivedFamily)).faulted =
        some (.refused (refusal .conflict "Parent task a is archived")) := by decide +kernel
  have hanswer := h.replays _ _ hran rfl rfl (by decide +kernel) (fun _ _ => rfl) fun own hcommits => by
    rw [hcommits] at hfault
    cases hfault
  revert hanswer
  decide +kernel

/-- A call of the same create that comes when it has committed is answered it. -/
theorem runsOnce_later :
    SeesCommit (fun _ => "") .d1 (runUnits (fun _ => "") .d1 archivedFamily) (executeAt 2 4 (by decide) (childRequest "c" "a")) ∧
      RunsOnce (fun _ => "") .d1 archivedFamily (executeAt 2 4 (by decide) (childRequest "c" "a")) :=
  have hsees : SeesCommit (fun _ => "") .d1 (runUnits (fun _ => "") .d1 archivedFamily)
      (executeAt 2 4 (by decide) (childRequest "c" "a")) := by decide +kernel
  ⟨hsees, runsOnce_of_seesCommit (fun _ => "") .d1 archivedFamily _ (by
    have hvalid : ∀ id ∈ ["a", "c", "x", "y"], ValidId id := by decide +kernel
    intro unit hunit n
    simp only [archivedFamily, List.mem_cons, List.not_mem_nil, or_false] at hunit
    rcases hunit with rfl | rfl | rfl | rfl
    · exact ⟨hvalid "a" (by decide), hvalid "a" (by decide)⟩
    · exact ⟨hvalid "c" (by decide), hvalid "c" (by decide)⟩
    · exact ⟨hvalid "x" (by decide), hvalid "x" (by decide)⟩
    · exact ⟨hvalid "y" (by decide), hvalid "y" (by decide)⟩) hsees⟩

end Claxedo.Tasks

import Claxedo.Tasks.Numbers

/-! `execute` of a command, to its answer: the unit, and what a call whose unit did not commit looks at after it. -/

namespace Claxedo.Tasks

open Claxedo.Lib Claxedo.Lib.Program TasksM

/-- The record a receipt committed, resolved again under the caller's authority. -/
def reauthorize (actor : TasksActor) : TasksCommandResult → TasksM Unit
  | .preset _ preset => do
    let _ ← Presets.owned actor preset.id
    pure ()
  | .task _ task _ => do
    let _ ← load actor task.id .write
    pure ()

def replay (hashRequest : TasksCommand → String) (actor : TasksActor) (request : TasksCommandRequest) : TasksM TasksCommandResult := do
  let row ← read (.receiptGet (actor.scopeId, request.clientRequestId))
  let receipt ← found row (refusal .conflict s!"Client request {request.clientRequestId} could not be replayed")
  require (receipt.requestHash = hashRequest request.command)
    (refusal .conflict s!"Client request {request.clientRequestId} already committed a different command")
  reauthorize actor receipt.result
  pure receipt.result

structure TasksCommandResponse where
  result : TasksCommandResult
  replayed : Bool
  deriving DecidableEq

/-- One call of `execute` over a ledger: the moments its unit's operations are answered at, the moment the unit has
the memory store to itself or commits its batch, the moments of its looks after a unit that did not commit, and
those of its replay. -/
structure ExecuteCall where
  actor : TasksActor
  request : TasksCommandRequest
  ports : ℕ → Ports
  moments : ℕ → ℕ
  mono : Monotone moments
  unitAt : ℕ
  after : ℕ → ℕ
  replayPorts : ℕ → Ports
  replayAt : ℕ → ℕ
  unit_le : ∀ n, moments n ≤ unitAt
  le_after : ∀ n, unitAt ≤ after n
  after_mono : Monotone after
  le_replay : ∀ n m, after n ≤ replayAt m
  replay_mono : Monotone replayAt

namespace ExecuteCall

variable (hashRequest : TasksCommand → String) (store : StoreKind) (ledger : Ledger) (call : ExecuteCall)

def key : Key := (call.actor.scopeId, call.request.clientRequestId)

/-- The unit of the call, as a run takes it. -/
def unit : UnitCall where
  work := .command call.actor call.request
  ports := call.ports
  moments := call.moments
  mono := call.mono

/-- What became of the call's unit: a fault, an empty unit over a receipt, a commit, or a batch that was refused. -/
inductive Attempt where
  | fault (fault : Fault)
  | replays
  | commits (result : TasksCommandResult)
  | lost (probes : List TasksConflictProbe)

def Attempt.of : Option TasksCommandResult → Attempt
  | none => .replays
  | some result => .commits result

def attempt : Attempt :=
  match store with
  | .memory =>
    match memoryTransaction call.ports (commandUnit hashRequest call.actor call.request) (ledger.at call.unitAt) with
    | .error fault => .fault fault
    | .ok (result, _) => .of result
  | .d1 =>
    match d1Work call.ports (fun n => ledger.at (call.moments n)) (commandUnit hashRequest call.actor call.request) with
    | .error fault => .fault fault
    | .ok (result, unit) =>
      match batch (ledger.at call.unitAt) unit.statements with
      | some _ => .of result
      | none => .lost unit.probes

/-- `replay`, each read at its moment. -/
def replayed : Except Fault TasksCommandResponse :=
  match (replay hashRequest call.actor call.request).exec
      (d1Handler call.replayPorts fun n => ledger.at (call.replayAt n)) {} with
  | .ok (result, _) => .ok ⟨result, true⟩
  | .error fault => .error fault

/-- `committedAlready`. -/
def committedAlready : Bool := ((ledger.at (call.after 0)).receipt call.key).isSome

/-- The answer of the call. -/
def execute : Except Fault TasksCommandResponse :=
  if isBlank call.request.clientRequestId then
    .error (.refused (invalid "The command is not valid" [⟨"clientRequestId", .required⟩]))
  else if ¬ idWithinBound call.request.clientRequestId then
    .error (.refused (invalid "The command is not valid" [⟨"clientRequestId", .tooLong⟩]))
  else
    match call.attempt hashRequest store ledger with
    | .commits result => .ok ⟨result, false⟩
    | .replays => call.replayed hashRequest ledger
    | .lost probes =>
      match tasksStoreConflict probes fun n => ledger.at (call.after n) with
      | .conflict .duplicateReceipt _ => call.replayed hashRequest ledger
      | .conflict _ message => .error (.refused (refusal .conflict message))
      | fault => .error fault
    | .fault (.raced _) => call.replayed hashRequest ledger
    | .fault (.refused detail) =>
      if detail.code = .staleRevision ∧ call.committedAlready ledger then call.replayed hashRequest ledger
      else .error (.refused detail)
    | .fault fault => .error fault

end ExecuteCall

/-! One client request id, one command: what a receipt in the rows says of the unit that put it there, and what a
call that finds one answers. -/

/-- The record a result names is there for the actor that may resolve it. -/
def Recorded (rows : Rows) (actor : TasksActor) : TasksCommandResult → Prop
  | .preset _ preset => ∃ row, rows.preset (actor.scopeId, preset.id) = some row ∧ row.ownerId = actor.ownerId
  | .task _ task _ => ∃ row, rows.task (actor.scopeId, task.id) = some row

section
variable {rows rows' : Rows} {ws : List (Asked WriteOp)}

theorem receipts_of_writes (h : WritesApply rows ws rows') (hframe : ∀ a ∈ ws, a.op.table ≠ .receipts) :
    rows'.receipts = rows.receipts :=
  Trail.invariant (fun s => s.receipts = rows.receipts)
    (fun a ha _ _ hs hwrite => ((frame_of_write hwrite).2.2 (hframe a ha)).trans hs) rfl h

/-- The task a write leaves. -/
def written : Asked WriteOp → Option Task
  | ⟨.taskInsert task, _⟩ => some task
  | ⟨.taskUpdate task _, true⟩ => some task
  | _ => none

theorem task_stays (h : WritesApply rows ws rows') {k : Key} (hthere : rows.task k ≠ none) : rows'.task k ≠ none := by
  refine Trail.invariant (fun s => s.task k ≠ none) (fun a _ s s' hs hwrite => ?_) hthere h
  obtain ⟨op, answer⟩ := a
  have hput : ∀ task, (s.putTask task).task k ≠ none := fun task => by
    rw [Rows.task_putTask]
    split_ifs
    · exact Option.some_ne_none _
    · exact hs
  have hframe := (frame_of_write hwrite).1
  have hwrote := wrote_of_write hwrite
  cases op with
  | taskInsert task =>
    obtain ⟨-, rfl⟩ := hwrote
    exact hput task
  | taskUpdate task revision =>
    cases answer with
    | true =>
      obtain ⟨-, rfl⟩ := hwrote
      exact hput task
    | false =>
      obtain rfl : s' = s := hwrote
      exact hs
  | _ =>
    rw [Rows.task, hframe fun hne => by cases hne]
    exact hs

theorem task_of_written (h : WritesApply rows ws rows') {a : Asked WriteOp} {task : Task} (ha : a ∈ ws)
    (hwritten : written a = some task) : ∃ row, rows'.task task.key = some row := by
  obtain ⟨ws₁, ws₂, rfl⟩ := List.append_of_mem ha
  obtain ⟨rows₁, -, rows₂, hwrite, hrest⟩ := writesApply_append h
  refine Option.ne_none_iff_exists'.mp (task_stays hrest ?_)
  obtain ⟨op, answer⟩ := a
  have hwrote := wrote_of_write hwrite
  have hself : ∀ rows : Rows, (rows.putTask task).task task.key ≠ none := fun rows => by
    rw [Rows.task_putTask, if_pos rfl]
    exact Option.some_ne_none _
  cases op with
  | taskInsert task' =>
    obtain rfl : task' = task := Option.some.inj hwritten
    obtain ⟨-, rfl⟩ := hwrote
    exact hself _
  | taskUpdate task' revision =>
    cases answer with
    | true =>
      obtain rfl : task' = task := Option.some.inj hwritten
      obtain ⟨-, rfl⟩ := hwrote
      exact hself _
    | false => cases hwritten
  | _ => cases hwritten

theorem presets_of_write {β : Type} {op : WriteOp β} {b : β} (h : rows.write op = .ok (b, rows')) (hne : op.table ≠ .presets) :
    rows'.presets = rows.presets := by
  cases op <;> simp only [Rows.write] at h <;> (try split at h) <;> cases h <;> first | rfl | exact absurd rfl hne

end

section
variable {actor : TasksActor} {t : Trace} {rows rows' : Rows} {command : TasksCommand} {result : TasksCommandResult}

/-- The writes of a task command are of tasks and of their attachments. -/
def TaskWrites (ws : List (Asked WriteOp)) : Prop := ∀ a ∈ ws, a.op.table = .tasks ∨ a.op.table = .attachments

theorem taskWrites_touches (now : ℕ) (parents : List Task) : TaskWrites (touches now parents) := by
  intro a ha
  obtain ⟨q, -, rfl⟩ := mem_touches ha
  exact .inl rfl

theorem TaskWrites.update {task : Task} {revision : ℕ} {answer : Bool} {ws : List (Asked WriteOp)} (h : TaskWrites ws) :
    TaskWrites (⟨.taskUpdate task revision, answer⟩ :: ws) := by
  intro a ha
  rcases List.mem_cons.mp ha with rfl | ha
  · exact .inl rfl
  · exact h a ha

theorem TaskWrites.append {ws ws' : List (Asked WriteOp)} (h : TaskWrites ws) (h' : TaskWrites ws') : TaskWrites (ws ++ ws') :=
  fun a ha => (List.mem_append.mp ha).elim (h a) (h' a)

/-- Every write of a command is of tasks and attachments, or it is one write of a preset. -/
theorem tables_command (h : CommandRan actor t command result) :
    TaskWrites t.writes ∨ (∃ preset, PresetMoves actor t preset) ∨ ∃ preset, Summary t [] [⟨.presetInsert preset, ()⟩] := by
  replace h := h.did
  cases h with
  | presetMade h => exact .inr (.inr ⟨_, summary_presetCreate h⟩)
  | presetMoved h => exact .inr (.inl ⟨_, h⟩)
  | taskMade h =>
    obtain ⟨parent, task, attachments, now, hsummary, -⟩ := summary_create h
    rw [hsummary.writes]
    refine .inl fun a ha => ?_
    rcases List.mem_cons.mp ha with rfl | ha
    · exact .inl rfl
    · rcases List.mem_append.mp ha with ha | ha
      · exact .inr (not_task_attachment ha)
      · exact taskWrites_touches _ _ a ha
  | taskMoved h =>
    obtain ⟨-, revision, rs, now₁, now₂, former, parents, hsummary⟩ := h
    rw [hsummary.writes]
    exact .inl ((taskWrites_touches _ _).append (taskWrites_touches _ _)).update

theorem receipts_command (h : CommandRan actor t command result) : ∀ a ∈ t.writes, a.op.table ≠ .receipts := by
  intro a ha
  rcases tables_command h with hwrites | ⟨preset, c, -, -, -, id, hsummary⟩ | ⟨preset, hsummary⟩
  · rcases hwrites a ha with htable | htable
    · rw [htable]
      exact fun hne => by cases hne
    · rw [htable]
      exact fun hne => by cases hne
  · rw [hsummary.writes] at ha
    obtain rfl := List.mem_singleton.mp ha
    exact fun hne => by cases hne
  · rw [hsummary.writes] at ha
    obtain rfl := List.mem_singleton.mp ha
    exact fun hne => by cases hne

theorem owner_command (h : CommandRan actor t command result) (hs : Serial rows t rows') {k : Key} {c c' : Preset}
    (hc : rows.preset k = some c) (hc' : rows'.preset k = some c') : c'.ownerId = c.ownerId := by
  rcases tables_command h with hwrites | ⟨preset, c₀, ⟨-, -, hsame⟩, hkey, -, id, hsummary⟩ | ⟨preset, hsummary⟩
  · have hkept : rows'.presets = rows.presets :=
      Trail.invariant (fun s => s.presets = rows.presets)
        (fun a ha _ _ hkept hwrite => (presets_of_write hwrite (by
          rcases hwrites a ha with htable | htable
          · rw [htable]
            exact fun hne => by cases hne
          · rw [htable]
            exact fun hne => by cases hne)).trans hkept) rfl hs.writes
    rw [Rows.preset, hkept, ← Rows.preset, hc] at hc'
    rw [Option.some.inj hc']
  · have hget : rows.preset (actor.scopeId, id) = some c₀ := hs.read hsummary List.mem_cons_self rfl
    obtain ⟨-, -, -, hrest⟩ := writesApply_presetUpdate (hs.apply hsummary)
    obtain rfl := writesApply_nil.mp hrest
    rw [Rows.preset_putPreset] at hc'
    split_ifs at hc' with hk
    · obtain rfl := Option.some.inj hc'
      have hself : rows.preset c₀.key = some c₀ := (Rows.preset_key hget).symm ▸ hget
      rw [← hkey, hk, hc] at hself
      rw [hsame, Option.some.inj hself]
    · rw [hc] at hc'
      rw [Option.some.inj hc']
  · obtain ⟨hnew, hrest⟩ := writesApply_presetInsert (hs.apply hsummary)
    obtain rfl := writesApply_nil.mp hrest
    rw [Rows.preset_putPreset] at hc'
    split_ifs at hc' with hk
    · rw [hk, hc] at hnew
      cases hnew
    · rw [hc] at hc'
      rw [Option.some.inj hc']

theorem recorded_update {rs : List (Asked ReadOp)} {row : Task} {a : Asked WriteOp} {ws : List (Asked WriteOp)}
    {type : TasksCommandName} {parent : Option Task} (hs : WritesApply rows t.writes rows') (hsummary : Summary t rs (a :: ws))
    (hrow : written a = some row) (hscope : row.scopeId = actor.scopeId) : Recorded rows' actor (.task type row parent) := by
  rw [hsummary.writes] at hs
  obtain ⟨stored, hstored⟩ := task_of_written hs List.mem_cons_self hrow
  exact ⟨stored, by rw [← hscope]; exact hstored⟩

theorem recorded_presetMoves {preset : Preset} {type : TasksCommandName} (h : PresetMoves actor t preset)
    (hs : WritesApply rows t.writes rows') : Recorded rows' actor (.preset type preset) := by
  obtain ⟨c, ⟨hscope, howner, hsame⟩, hkey, hrevision, id, hsummary⟩ := h
  rw [hsummary.writes] at hs
  obtain ⟨c', -, -, hrest⟩ := writesApply_presetUpdate hs
  obtain rfl := writesApply_nil.mp hrest
  have hself : preset.key = (actor.scopeId, preset.id) := Prod.ext ((congrArg Prod.fst hkey).trans hscope) rfl
  refine ⟨preset, ?_, hsame.trans howner⟩
  rw [Rows.preset_putPreset, if_pos hself]

theorem recorded_command (h : CommandRan actor t command result) (hs : WritesApply rows t.writes rows') :
    Recorded rows' actor result := by
  replace h := h.did
  cases h with
  | @presetMade type input preset h =>
    have hsummary := summary_presetCreate h
    obtain ⟨-, hscope, howner⟩ := minted_presetCreate h
    have hself : preset.key = (actor.scopeId, preset.id) := Prod.ext hscope rfl
    rw [hsummary.writes] at hs
    obtain ⟨-, hrest⟩ := writesApply_presetInsert hs
    obtain rfl := writesApply_nil.mp hrest
    refine ⟨_, ?_, howner⟩
    rw [Rows.preset_putPreset, if_pos hself]
  | presetMoved h => exact recorded_presetMoves h hs
  | taskMade h =>
    obtain ⟨parent, task, attachments, now, hsummary, -, -, hcreated, -, rfl⟩ := summary_create h
    exact recorded_update hs hsummary rfl hcreated.scopeId
  | taskMoved h =>
    obtain ⟨hscope, revision, rs, now₁, now₂, former, parents, hsummary⟩ := h
    exact recorded_update hs hsummary rfl hscope

end

/-! The ids a host mints. -/

/-- An id that a request may name. -/
def ValidId (id : String) : Prop := isBlank id = false ∧ idWithinBound id = true

instance (id : String) : Decidable (ValidId id) := inferInstanceAs (Decidable (_ ∧ _))

structure ValidRows (rows : Rows) : Prop where
  task : ∀ k c, rows.task k = some c → ValidId k.2
  preset : ∀ k p, rows.preset k = some p → ValidId k.2

/-- The id a write brings among the rows. -/
def insertedId : Asked WriteOp → Option String
  | ⟨.presetInsert preset, _⟩ => some preset.id
  | ⟨.taskInsert task, _⟩ => some task.id
  | _ => none

section
variable {actor : TasksActor} {t : Trace} {rows rows' : Rows} {ws : List (Asked WriteOp)}

theorem ValidRows.putTask (h : ValidRows rows) {task : Task} (hid : ValidId task.id) : ValidRows (rows.putTask task) := by
  refine ⟨fun k c hc => ?_, h.preset⟩
  rw [Rows.task_putTask] at hc
  split_ifs at hc with hk
  · rw [← hk]
    exact hid
  · exact h.task k c hc

theorem ValidRows.putPreset (h : ValidRows rows) {preset : Preset} (hid : ValidId preset.id) : ValidRows (rows.putPreset preset) := by
  refine ⟨h.task, fun k c hc => ?_⟩
  rw [Rows.preset_putPreset] at hc
  split_ifs at hc with hk
  · rw [← hk]
    exact hid
  · exact h.preset k c hc

theorem validRows_of_writes (h : WritesApply rows ws rows') (hinserted : ∀ a ∈ ws, ∀ id, insertedId a = some id → ValidId id)
    (hvalid : ValidRows rows) : ValidRows rows' := by
  refine Trail.invariant ValidRows (fun a ha s s' hs hwrite => ?_) hvalid h
  have hid := hinserted a ha
  obtain ⟨op, answer⟩ := a
  have hwrote := wrote_of_write hwrite
  cases op with
  | presetInsert preset =>
    obtain ⟨-, rfl⟩ := hwrote
    exact hs.putPreset (hid _ rfl)
  | taskInsert task =>
    obtain ⟨-, rfl⟩ := hwrote
    exact hs.putTask (hid _ rfl)
  | presetUpdate preset revision =>
    cases answer with
    | true =>
      obtain ⟨⟨c, hc, -⟩, rfl⟩ := hwrote
      exact hs.putPreset (hs.preset _ c hc)
    | false =>
      obtain rfl : s' = s := hwrote
      exact hs
  | taskUpdate task revision =>
    cases answer with
    | true =>
      obtain ⟨⟨c, hc, -⟩, rfl⟩ := hwrote
      exact hs.putTask (hs.task _ c hc)
    | false =>
      obtain rfl : s' = s := hwrote
      exact hs
  | presetAssertRevision k revision =>
    obtain rfl : s' = s := hwrote
    exact hs
  | attachmentInsert | linkInsert | receiptPut =>
    have htasks : s'.tasks = s.tasks := (frame_of_write hwrite).1 fun hne => by cases hne
    have hpresets : s'.presets = s.presets := presets_of_write hwrite fun hne => by cases hne
    refine ⟨fun k c hc => hs.task k c ?_, fun k p hp => hs.preset k p ?_⟩
    · rw [Rows.task, ← htasks]
      exact hc
    · rw [Rows.preset, ← hpresets]
      exact hp

theorem not_inserted_update {task : Task} {revision : ℕ} {answer : Bool} (h : ∀ a ∈ ws, insertedId a = none) :
    ∀ a ∈ (⟨.taskUpdate task revision, answer⟩ : Asked WriteOp) :: ws, insertedId a = none := by
  intro a ha
  rcases List.mem_cons.mp ha with rfl | ha
  · rfl
  · exact h a ha

theorem not_inserted_touches {now : ℕ} {parents : List Task} : ∀ a ∈ touches now parents, insertedId a = none := by
  intro a ha
  obtain ⟨q, -, rfl⟩ := mem_touches ha
  rfl

theorem minted_command {command : TasksCommand} {result : TasksCommandResult} (h : CommandRan actor t command result) :
    ∀ a ∈ t.writes, ∀ id, insertedId a = some id → ⟨.port .taskId, id⟩ ∈ t ∨ ⟨.port .presetId, id⟩ ∈ t := by
  have hnone : (∀ a ∈ t.writes, insertedId a = none) →
      ∀ a ∈ t.writes, ∀ id, insertedId a = some id → ⟨.port .taskId, id⟩ ∈ t ∨ ⟨.port .presetId, id⟩ ∈ t :=
    fun hnone a ha id hid => by rw [hnone a ha] at hid; cases hid
  replace h := h.did
  cases h with
  | presetMade h =>
    intro a ha id hid
    rw [(summary_presetCreate h).writes] at ha
    obtain rfl := List.mem_singleton.mp ha
    obtain rfl := Option.some.inj hid
    exact .inr (minted_presetCreate h).1
  | presetMoved h =>
    obtain ⟨c, -, -, -, id, hsummary⟩ := h
    refine hnone fun a ha => ?_
    rw [hsummary.writes] at ha
    obtain rfl := List.mem_singleton.mp ha
    rfl
  | taskMade h =>
    have hminted := minted_create h
    obtain ⟨parent, task, attachments, now, hsummary, -, -, -, -, rfl⟩ := summary_create h
    intro a ha id hid
    rw [hsummary.writes] at ha
    rcases List.mem_cons.mp ha with rfl | ha
    · obtain rfl := Option.some.inj hid
      exact .inl hminted
    · rcases List.mem_append.mp ha with ha | ha
      · obtain ⟨attachment, -, rfl⟩ := List.mem_map.mp ha
        cases hid
      · rw [not_inserted_touches a ha] at hid
        cases hid
  | taskMoved h =>
    obtain ⟨-, revision, rs, now₁, now₂, former, parents, hsummary⟩ := h
    refine hnone ?_
    rw [hsummary.writes]
    exact not_inserted_update fun a ha => (List.mem_append.mp ha).elim (not_inserted_touches a) (not_inserted_touches a)

end

/-! Receipts. -/

section
variable {hashRequest : TasksCommand → String} {actor : TasksActor} {request : TasksCommandRequest} {t : Trace} {rows rows' : Rows}

/-- A command's unit that commits either found its receipt and did nothing, or ran its command and put it. -/
inductive CommandCommitted (hashRequest : TasksCommand → String) (actor : TasksActor) (request : TasksCommandRequest)
    (rows rows' : Rows) :
    Option TasksCommandResult → Prop where
  | found (hrows : rows' = rows) : CommandCommitted hashRequest actor request rows rows' none
  | ran (receipt : TasksCommandReceipt) (hkey : receipt.key = (actor.scopeId, request.clientRequestId))
      (hhash : receipt.requestHash = hashRequest request.command) (hnew : rows.receipt receipt.key = none)
      (hput : ∀ k, rows'.receipt k = if receipt.key = k then some receipt else rows.receipt k)
      (hrecorded : Recorded rows' actor receipt.result) :
      CommandCommitted hashRequest actor request rows rows' (some receipt.result)

theorem Recorded.putReceipt {result : TasksCommandResult} (h : Recorded rows actor result) (receipt : TasksCommandReceipt) :
    Recorded (rows.putReceipt receipt) actor result := by
  cases result <;> exact h

theorem commandCommitted {result : Option TasksCommandResult} (h : Follows (commandUnit hashRequest actor request) t result)
    (hs : Serial rows t rows') : CommandCommitted hashRequest actor request rows rows' result := by
  rcases serial_commandUnit h hs with ⟨rfl, rfl⟩ | ⟨t', receipt, rows₁, hran, rfl, hkey, hhash, -, hserial, hnew, rfl⟩
  · exact .found rfl
  · have hkept : rows₁.receipts = rows.receipts := receipts_of_writes hserial.writes (receipts_command hran)
    have hreceipt : ∀ k, rows₁.receipt k = rows.receipt k := fun k => by rw [Rows.receipt, hkept, Rows.receipt]
    refine .ran receipt hkey hhash ?_ (fun k => ?_) ((recorded_command hran hserial.writes).putReceipt _)
    · rw [← hreceipt]
      exact hnew
    · rw [Rows.receipt_putReceipt, hreceipt]

theorem settle_kept {s : Settlement} {link : TaskSessionLink} {created : Bool} (h : Follows (settle s) t (link, created))
    (hs : Serial rows t rows') : rows'.receipts = rows.receipts ∧ rows'.presets = rows.presets := by
  rcases serial_settle h hs with rfl | ⟨-, -, now, rfl⟩ <;> exact ⟨rfl, rfl⟩

theorem owner_unit {work : UnitWork} {result : UnitResult} (h : Follows (work.program hashRequest) t result) (hs : Serial rows t rows')
    {k : Key} {c c' : Preset} (hc : rows.preset k = some c) (hc' : rows'.preset k = some c') : c'.ownerId = c.ownerId := by
  have hsame : rows'.presets = rows.presets → c'.ownerId = c.ownerId := fun hkept => by
    rw [Rows.preset, hkept, ← Rows.preset, hc] at hc'
    rw [Option.some.inj hc']
  cases unitRan h with
  | command hunit =>
    rcases serial_commandUnit hunit hs with ⟨-, rfl⟩ | ⟨t', receipt, rows₁, hran, -, -, -, -, hserial, -, rfl⟩
    · exact hsame rfl
    · exact owner_command hran hserial hc hc'
  | settle hunit => exact hsame (settle_kept hunit hs).2

theorem Recorded.grows {result : TasksCommandResult} (h : Recorded rows actor result) (hgrows : Grows (fun _ => False) rows rows')
    (howner : ∀ k c c', rows.preset k = some c → rows'.preset k = some c' → c'.ownerId = c.ownerId) : Recorded rows' actor result := by
  cases result with
  | preset type preset =>
    obtain ⟨row, hrow, hown⟩ := h
    obtain ⟨row', hrow', -⟩ := hgrows.preset _ _ hrow
    exact ⟨row', hrow', (howner _ _ _ hrow hrow').trans hown⟩
  | task type task parent =>
    obtain ⟨row, hrow⟩ := h
    obtain ⟨row', hrow', -⟩ := hgrows.task _ _ hrow
    exact ⟨row', hrow'⟩

/-- Ids the host of a call mints are ids that requests may name. -/
def MintsIds (call : UnitCall) : Prop := ∀ n, ValidId (call.ports n).taskId ∧ ValidId (call.ports n).presetId

theorem minted_unit {work : UnitWork} {result : UnitResult} (h : Follows (work.program hashRequest) t result) :
    ∀ a ∈ t.writes, ∀ id, insertedId a = some id → ⟨.port .taskId, id⟩ ∈ t ∨ ⟨.port .presetId, id⟩ ∈ t := by
  intro a ha id hid
  cases unitRan h with
  | command hunit =>
    rcases summary_commandUnit hunit with ⟨held, -, -, hsummary⟩ | ⟨t', committed, now, hran, -, hsub, hsummary⟩
    · rw [hsummary.writes] at ha
      cases ha
    · obtain ⟨rs, ws, hown⟩ := hran.did.summary
      rw [(hsummary hown).writes] at ha
      rcases List.mem_append.mp ha with ha | ha
      · rw [← hown.writes] at ha
        exact (minted_command hran a ha id hid).imp (hsub _) (hsub _)
      · obtain rfl := List.mem_singleton.mp ha
        cases hid
  | settle hunit =>
    exfalso
    rcases summary_settle hunit with ⟨-, -, -, hsummary⟩ | ⟨-, -, now, hsummary⟩
    · rw [hsummary.writes] at ha
      rcases List.mem_cons.mp ha with rfl | ha
      · cases hid
      · obtain rfl := List.mem_singleton.mp ha
        cases hid
    · rw [hsummary.writes] at ha
      rcases List.mem_cons.mp ha with rfl | ha
      · cases hid
      · rcases List.mem_cons.mp ha with rfl | ha
        · cases hid
        · obtain rfl := List.mem_singleton.mp ha
          cases hid

end

end Claxedo.Tasks

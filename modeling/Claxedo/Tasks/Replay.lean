import Claxedo.Tasks.Once

/-! What a call of `execute` answers once its client request has committed. -/

namespace Claxedo.Tasks

open Claxedo.Lib Claxedo.Lib.Program TasksM

variable {hashRequest : TasksCommand → String} {store : StoreKind} {ledger : Ledger}

/-- The unit committed a command of `actor`, with this result. -/
def Ledger.ran (ledger : Ledger) (actor : TasksActor) (request : TasksCommandRequest) (result : TasksCommandResult) : Prop :=
  ∃ call, (call, .command (some result)) ∈ ledger.committed ∧ call.work = .command actor request

/-- Every receipt is of a unit that committed, every unit that ran a command left its receipt, and the record a
receipt names is there from then on. -/
structure Receipted (hashRequest : TasksCommand → String) (ledger : Ledger) : Prop where
  entry : ∀ k receipt, ledger.rows.receipt k = some receipt → ∃ actor request, ledger.ran actor request receipt.result ∧
    (actor.scopeId, request.clientRequestId) = k ∧ receipt.requestHash = hashRequest request.command
  stored : ∀ actor request result, ledger.ran actor request result →
    ∃ receipt, ledger.rows.receipt (actor.scopeId, request.clientRequestId) = some receipt ∧ receipt.result = result ∧
      receipt.requestHash = hashRequest request.command
  recorded : ∀ i actor request receipt, (ledger.at i).receipt (actor.scopeId, request.clientRequestId) = some receipt →
    ledger.ran actor request receipt.result → Recorded (ledger.at i) actor receipt.result
  valid : ∀ i, ValidRows (ledger.at i)

theorem receipted_empty : Receipted hashRequest {} where
  entry k receipt h := by cases h
  stored actor request result h := by
    obtain ⟨call, hmem, -⟩ := h
    cases hmem
  recorded i actor request receipt h hran := by
    obtain ⟨call, hmem, -⟩ := hran
    cases hmem
  valid i := by
    have hempty : ({} : Ledger).at i = {} := rfl
    rw [hempty]
    exact ⟨fun k c hc => (nomatch hc), fun k p hp => (nomatch hp)⟩

section
variable {call : UnitCall} {result : UnitResult} {rows' : Rows} {t : Trace}

theorem Ledger.ran_commit {actor : TasksActor} {request : TasksCommandRequest} {committed : TasksCommandResult}
    (h : (ledger.commit call result rows').ran actor request committed) :
    ledger.ran actor request committed ∨ result = .command (some committed) ∧ call.work = .command actor request := by
  obtain ⟨call', hmem, hwork⟩ := h
  rcases List.mem_append.mp hmem with hmem | hmem
  · exact .inl ⟨call', hmem, hwork⟩
  · obtain ⟨rfl, rfl⟩ := Prod.mk.inj (List.mem_singleton.mp hmem)
    exact .inr ⟨rfl, hwork⟩

theorem Ledger.ran_of_ran {actor : TasksActor} {request : TasksCommandRequest} {committed : TasksCommandResult}
    (h : ledger.ran actor request committed) : (ledger.commit call result rows').ran actor request committed := by
  obtain ⟨call', hmem, hwork⟩ := h
  exact ⟨call', List.mem_append_left _ hmem, hwork⟩

/-- The receipts a unit that commits leaves: those it found, or one more that tells of it. -/
inductive ReceiptEffect (hashRequest : TasksCommand → String) (rows rows' : Rows) (work : UnitWork) (result : UnitResult) : Prop where
  | kept (hreceipts : ∀ k, rows'.receipt k = rows.receipt k) (hresult : ∀ committed, result ≠ .command (some committed))
  | put (actor : TasksActor) (request : TasksCommandRequest) (receipt : TasksCommandReceipt) (hwork : work = .command actor request)
      (hresult : result = .command (some receipt.result)) (hkey : receipt.key = (actor.scopeId, request.clientRequestId))
      (hhash : receipt.requestHash = hashRequest request.command) (hnew : rows.receipt receipt.key = none)
      (hput : ∀ k, rows'.receipt k = if receipt.key = k then some receipt else rows.receipt k)
      (hrecorded : Recorded rows' actor receipt.result)

theorem receiptEffect_unit {rows : Rows} {work : UnitWork} (h : Follows (work.program hashRequest) t result)
    (hs : Serial rows t rows') :
    ReceiptEffect hashRequest rows rows' work result := by
  cases unitRan h with
  | @command actor request result hunit =>
    cases commandCommitted hunit hs with
    | found hrows => exact .kept (fun k => by rw [hrows]) fun committed hne => by cases hne
    | ran receipt hkey hhash hnew hput hrecorded => exact .put actor request receipt rfl rfl hkey hhash hnew hput hrecorded
  | settle hunit =>
    refine .kept (fun k => ?_) fun committed hne => by cases hne
    rw [Rows.receipt, (settle_kept hunit hs).1, Rows.receipt]

theorem Receipted.commit (h : Receipted hashRequest ledger) (hchronicle : Chronicle ledger) (hids : MintsIds call)
    (htransacted : Transacted hashRequest store ledger call t result rows') (heffect : Effect t ledger.rows rows') :
    Receipted hashRequest (ledger.commit call result rows') := by
  have howner : ∀ k c c', ledger.rows.preset k = some c → rows'.preset k = some c' → c'.ownerId = c.ownerId :=
    fun k c c' => owner_unit htransacted.follows htransacted.serial
  have hnow : ∀ i k receipt, (ledger.at i).receipt k = some receipt → ledger.rows.receipt k = some receipt :=
    fun i k receipt => (hchronicle.now i).receipt k receipt
  -- what is recorded among the rows a unit found is recorded among those it leaves
  have hkept : ∀ actor request receipt, ledger.rows.receipt (actor.scopeId, request.clientRequestId) = some receipt →
      ledger.ran actor request receipt.result → Recorded rows' actor receipt.result := by
    intro actor request receipt hreceipt hran
    rw [← Ledger.at_of_le le_rfl] at hreceipt
    have hrecorded := h.recorded _ actor request receipt hreceipt hran
    rw [Ledger.at_of_le le_rfl] at hrecorded
    exact hrecorded.grows heffect.grows howner
  have hvalid : ∀ i, ValidRows ((ledger.commit call result rows').at i) := by
    intro i
    rw [Ledger.at_commit]
    split_ifs
    · exact h.valid i
    · have hrows := h.valid ledger.past.length
      rw [Ledger.at_of_le le_rfl] at hrows
      refine validRows_of_writes htransacted.serial.writes (fun a ha id hid => ?_) hrows
      rcases minted_unit htransacted.follows a ha id hid with hport | hport
      · obtain ⟨n, rfl⟩ := htransacted.hosted _ _ hport
        exact (hids n).1
      · obtain ⟨n, rfl⟩ := htransacted.hosted _ _ hport
        exact (hids n).2
  cases receiptEffect_unit htransacted.follows htransacted.serial with
  | kept hreceipts hresult =>
    have hold : ∀ {actor request committed}, (ledger.commit call result rows').ran actor request committed →
        ledger.ran actor request committed := fun hran => (Ledger.ran_commit hran).resolve_right fun hnew => hresult _ hnew.1
    refine ⟨fun k receipt hreceipt => ?_, fun actor request committed hran => ?_, fun i actor request receipt hreceipt hran => ?_,
      hvalid⟩
    · obtain ⟨actor, request, hran, hentry⟩ := h.entry k receipt ((hreceipts k).symm.trans hreceipt)
      exact ⟨actor, request, Ledger.ran_of_ran hran, hentry⟩
    · obtain ⟨receipt, hreceipt, hstored⟩ := h.stored actor request committed (hold hran)
      exact ⟨receipt, (hreceipts _).trans hreceipt, hstored⟩
    · rw [Ledger.at_commit] at hreceipt ⊢
      split_ifs at hreceipt ⊢
      · exact h.recorded i actor request receipt hreceipt (hold hran)
      · exact hkept actor request receipt ((hreceipts _).symm.trans hreceipt) (hold hran)
  | put actor₀ request₀ receipt₀ hwork hresult hkey hhash hnew hput hrecorded =>
    have hold : ∀ {actor request committed}, (ledger.commit call result rows').ran actor request committed →
        ledger.ran actor request committed ∨ committed = receipt₀.result ∧ actor = actor₀ ∧ request = request₀ := fun hran =>
      (Ledger.ran_commit hran).imp_right fun hthis => by
        obtain ⟨hsame, hwork'⟩ := hthis
        rw [hresult] at hsame
        rw [hwork] at hwork'
        cases hsame
        cases hwork'
        exact ⟨rfl, rfl, rfl⟩
    have hfresh : ∀ {actor request committed}, ledger.ran actor request committed →
        receipt₀.key ≠ (actor.scopeId, request.clientRequestId) := fun hran heq => by
      obtain ⟨receipt, hreceipt, -⟩ := h.stored _ _ _ hran
      rw [← heq, hnew] at hreceipt
      cases hreceipt
    refine ⟨fun k receipt hreceipt => ?_, fun actor request committed hran => ?_, fun i actor request receipt hreceipt hran => ?_,
      hvalid⟩
    · have hreceipt : rows'.receipt k = some receipt := hreceipt
      rw [hput] at hreceipt
      split_ifs at hreceipt with hk
      · obtain rfl := Option.some.inj hreceipt
        exact ⟨actor₀, request₀, ⟨call, List.mem_append_right _ (by rw [hresult]; exact List.mem_singleton.mpr rfl), hwork⟩,
          hkey.symm.trans hk, hhash⟩
      · obtain ⟨actor, request, hran, hentry⟩ := h.entry k receipt hreceipt
        exact ⟨actor, request, Ledger.ran_of_ran hran, hentry⟩
    · rcases hold hran with hran | ⟨rfl, rfl, rfl⟩
      · obtain ⟨receipt, hreceipt, hstored⟩ := h.stored actor request committed hran
        exact ⟨receipt, (hput _).trans ((if_neg (hfresh hran)).trans hreceipt), hstored⟩
      · exact ⟨receipt₀, (hput _).trans (if_pos hkey), rfl, hhash⟩
    · rw [Ledger.at_commit] at hreceipt ⊢
      split_ifs at hreceipt ⊢
      · rcases hold hran with hran | ⟨-, rfl, rfl⟩
        · exact h.recorded i actor request receipt hreceipt hran
        · have hheld := hnow i _ _ hreceipt
          rw [← hkey, hnew] at hheld
          cases hheld
      · rcases hold hran with hran | ⟨hsame, rfl, rfl⟩
        · rw [hput, if_neg (hfresh hran)] at hreceipt
          exact hkept actor request receipt hreceipt hran
        · rw [hsame]
          exact hrecorded

end

theorem receipted_runUnits (hashRequest : TasksCommand → String) (store : StoreKind) {calls : List UnitCall}
    (hids : ∀ call ∈ calls, MintsIds call) : Receipted hashRequest (runUnits hashRequest store calls) := by
  induction calls using List.reverseRecOn with
  | nil => exact receipted_empty
  | append_singleton calls call ih =>
    have hreceipted := ih fun call hcall => hids call (List.mem_append_left _ hcall)
    have hchronicle := chronicle_runUnits hashRequest store calls
    rw [runUnits, run_snoc]
    change Receipted hashRequest ((runUnits hashRequest store calls).step hashRequest store call)
    rcases step_cases hchronicle hashRequest store call with hsame | ⟨t, result, rows', hcommit, -, htransacted, heffect, -⟩
    · rw [hsame]
      exact hreceipted
    · rw [hcommit]
      exact hreceipted.commit hchronicle (hids call (List.mem_append_right _ List.mem_cons_self)) htransacted heffect

/-! Reads outside a unit. -/

section
variable {ports : ℕ → Ports} {committed : ℕ → Rows} {unit : D1Unit} {β : Type}

theorem d1_step_of_read {op : ReadOp β} {b : β} (hempty : unit.overlay = {}) (hread : (committed unit.asked).read op = b) :
    (d1Handler ports committed).Step unit ⟨.read op, b⟩ { unit with asked := unit.asked + 1 } := by
  simp only [Handler.Step, d1Handler, d1_read _ op hempty, hread]

theorem d1_step_of_port {op : PortOp β} {b : β} (hanswer : (ports unit.asked).answer op = b) :
    (d1Handler ports committed).Step unit ⟨.port op, b⟩ { unit with asked := unit.asked + 1 } := by
  rw [← hanswer]
  rfl

end

/-- The record a result names. -/
def recordId : TasksCommandResult → String
  | .preset _ preset => preset.id
  | .task _ task _ => task.id

theorem ValidRows.recordId {rows : Rows} {actor : TasksActor} {result : TasksCommandResult} (h : ValidRows rows)
    (hrecorded : Recorded rows actor result) : ValidId (recordId result) := by
  cases result with
  | preset type preset =>
    obtain ⟨row, hrow, -⟩ := hrecorded
    exact h.preset _ row hrow
  | task type task parent =>
    obtain ⟨row, hrow⟩ := hrecorded
    exact h.task _ row hrow

/-- The host lets the actor write in every project it asks about. -/
def Grants (ports : ℕ → Ports) (actor : TasksActor) : Prop := ∀ n projectId, (ports n).authorizeProject actor projectId .write = true

section
variable {actor : TasksActor} {result : TasksCommandResult}

/-- A record that is there is resolved again. -/
theorem reauthorized (ports : ℕ → Ports) (committed : ℕ → Rows) (unit : D1Unit) (hempty : unit.overlay = {})
    (hrecorded : Recorded (committed unit.asked) actor result)
    (hid : ValidId (recordId result)) (hgrants : Grants ports actor) :
    ∃ t unit', Follows (reauthorize actor result) t () ∧ Trail (d1Handler ports committed).Step unit t unit' := by
  obtain ⟨hblank, hbound⟩ := hid
  cases result with
  | preset type preset =>
    obtain ⟨row, hrow, howner⟩ := hrecorded
    have hscope : row.scopeId = actor.scopeId := congrArg Prod.fst (Rows.preset_key hrow)
    refine ⟨[⟨.read (.presetGet (actor.scopeId, preset.id)), some row⟩], _, ?_, _, d1_step_of_read hempty hrow, rfl⟩
    simp only [reauthorize, Presets.owned, bind_bind, follows_require_bind, follows_read_bind, follows_found_bind]
    refine ⟨by simpa [Tasks.recordId] using hblank, hbound, some row, [], rfl, row, ?_, rfl, rfl⟩
    simp [hscope, howner]
  | task type task parent =>
    obtain ⟨row, hrow⟩ := hrecorded
    have hscope : row.scopeId = actor.scopeId := congrArg Prod.fst (Rows.task_key hrow)
    refine ⟨[⟨.read (.taskGet (actor.scopeId, task.id)), some row⟩, ⟨.port (.authorizeProject actor row.projectId .write), true⟩], _,
      ?_, _, d1_step_of_read hempty hrow, _, d1_step_of_port (hgrants _ _), rfl⟩
    simp only [reauthorize, load, boundedId, authorize, bind_bind, follows_require_bind, follows_read_bind, follows_found_bind,
      follows_port_bind, done_bind]
    refine ⟨by simpa [Tasks.recordId] using hblank, hbound, some row, _, rfl, row, ?_, true, [], rfl, rfl, rfl, rfl⟩
    simp [hscope]

end

namespace ExecuteCall

variable {call : ExecuteCall}

/-- A call that answers a replay answers the result of the receipt it found, which is of its own command. -/
theorem replayed_eq_ok {response : TasksCommandResponse} (h : call.replayed hashRequest ledger = .ok response) :
    response.replayed = true ∧ ∃ receipt, (ledger.at (call.replayAt 0)).receipt call.key = some receipt ∧
      receipt.result = response.result ∧ receipt.requestHash = hashRequest call.request.command := by
  unfold replayed at h
  rcases hexec : (replay hashRequest call.actor call.request).exec
      (d1Handler call.replayPorts fun n => ledger.at (call.replayAt n)) {} with fault | ⟨result, unit⟩
  · rw [hexec] at h
    cases h
  · rw [hexec] at h
    cases h
    obtain ⟨t, hfollows, htrail⟩ := exec_eq_ok_iff.mp hexec
    simp only [replay, follows_read_bind, follows_found_bind, follows_require_bind] at hfollows
    obtain ⟨row, t', rfl, receipt, rfl, hhash, hrest⟩ := hfollows
    obtain ⟨t₁, t₂, u, rfl, -, rfl, rfl⟩ := follows_bind.mp hrest
    obtain ⟨unit₁, hstep, -⟩ := htrail
    obtain ⟨hread, -⟩ := d1_step_read hstep
    rw [d1_read _ _ rfl] at hread
    exact ⟨rfl, receipt, Except.ok.inj hread, rfl, hhash⟩

/-- A call that replays a receipt of its command, under an actor that may resolve the record, answers its result. -/
theorem replayed_ok {receipt : TasksCommandReceipt} (hreceipt : (ledger.at (call.replayAt 0)).receipt call.key = some receipt)
    (hhash : receipt.requestHash = hashRequest call.request.command)
    (hrecorded : Recorded (ledger.at (call.replayAt 1)) call.actor receipt.result) (hid : ValidId (recordId receipt.result))
    (hgrants : Grants call.replayPorts call.actor) : call.replayed hashRequest ledger = .ok ⟨receipt.result, true⟩ := by
  obtain ⟨t, unit, hfollows, htrail⟩ := reauthorized call.replayPorts (fun n => ledger.at (call.replayAt n))
    { ({} : D1Unit) with asked := 1 } rfl hrecorded hid hgrants
  have hexec : (replay hashRequest call.actor call.request).exec
      (d1Handler call.replayPorts fun n => ledger.at (call.replayAt n)) {} = .ok (receipt.result, unit) := by
    refine exec_eq_ok_iff.mpr ⟨⟨.read (.receiptGet call.key), some receipt⟩ :: t, ?_, _, d1_step_of_read rfl hreceipt, htrail⟩
    simp only [replay, follows_read_bind, follows_found_bind, follows_require_bind]
    exact ⟨some receipt, t, rfl, receipt, rfl, hhash, follows_bind.mpr ⟨t, [], (), (List.append_nil t).symm, hfollows, rfl, rfl⟩⟩
  unfold replayed
  rw [hexec]

end ExecuteCall

/-! The probes of a refused batch. -/

/-- The receipt a write puts. -/
def putReceipt : Asked WriteOp → Option TasksCommandReceipt
  | ⟨.receiptPut receipt, true⟩ => some receipt
  | _ => none

section
variable {ports : ℕ → Ports} {committed : ℕ → Rows} {t : Trace}

theorem d1_write_probes {β : Type} {op : WriteOp β} {answer : β} {unit written : D1Unit} {now : Rows}
    (h : unit.write now op = (answer, written)) :
    ∃ probes, written.probes = unit.probes ++ probes ∧
      (∀ probe ∈ probes, probe.kind = .duplicateReceipt → ∃ receipt, putReceipt ⟨op, answer⟩ = some receipt ∧ probe =
          duplicate receipt) ∧
      ∀ receipt, putReceipt ⟨op, answer⟩ = some receipt → duplicate receipt ∈ probes := by
  have hsame : ∀ {u : D1Unit}, u.probes = u.probes ++ [] := fun {u} => (List.append_nil _).symm
  cases op with
  | presetInsert | attachmentInsert =>
    cases h
    exact ⟨[], rfl, fun _ hprobe => absurd hprobe List.not_mem_nil, fun _ hput => by cases hput⟩
  | taskInsert task =>
    cases h
    refine ⟨_, rfl, fun probe hprobe hkind => ?_, fun _ hput => by cases hput⟩
    obtain rfl := List.mem_singleton.mp hprobe
    cases hkind
  | presetUpdate preset revision =>
    simp only [D1Unit.write] at h
    split_ifs at h
    · cases h
      refine ⟨_, rfl, fun probe hprobe hkind => ?_, fun _ hput => by cases hput⟩
      obtain rfl := List.mem_singleton.mp hprobe
      cases hkind
    · cases h
      exact ⟨[], rfl, fun _ hprobe => absurd hprobe List.not_mem_nil, fun _ hput => by cases hput⟩
    · cases h
      exact ⟨[], hsame, fun _ hprobe => absurd hprobe List.not_mem_nil, fun _ hput => by cases hput⟩
  | taskUpdate task revision =>
    simp only [D1Unit.write] at h
    split_ifs at h
    · cases h
      refine ⟨_, rfl, fun probe hprobe hkind => ?_, fun _ hput => by cases hput⟩
      rcases List.mem_cons.mp hprobe with rfl | hprobe
      · cases hkind
      · obtain rfl := List.mem_singleton.mp hprobe
        cases hkind
    · cases h
      refine ⟨_, rfl, fun probe hprobe hkind => ?_, fun _ hput => by cases hput⟩
      obtain rfl := List.mem_singleton.mp hprobe
      cases hkind
    · cases h
      exact ⟨[], hsame, fun _ hprobe => absurd hprobe List.not_mem_nil, fun _ hput => by cases hput⟩
  | presetAssertRevision k revision =>
    simp only [D1Unit.write] at h
    split at h
    · cases h
      exact ⟨[], hsame, fun _ hprobe => absurd hprobe List.not_mem_nil, fun _ hput => by cases hput⟩
    · split_ifs at h
      · cases h
        refine ⟨_, rfl, fun probe hprobe hkind => ?_, fun _ hput => by cases hput⟩
        obtain rfl := List.mem_singleton.mp hprobe
        cases hkind
      · cases h
        exact ⟨[], hsame, fun _ hprobe => absurd hprobe List.not_mem_nil, fun _ hput => by cases hput⟩
  | linkInsert link =>
    simp only [D1Unit.write] at h
    split at h
    · cases h
      exact ⟨[], hsame, fun _ hprobe => absurd hprobe List.not_mem_nil, fun _ hput => by cases hput⟩
    · cases h
      refine ⟨_, rfl, fun probe hprobe hkind => ?_, fun _ hput => by cases hput⟩
      obtain rfl := List.mem_singleton.mp hprobe
      cases hkind
  | receiptPut receipt =>
    simp only [D1Unit.write] at h
    split_ifs at h
    · cases h
      refine ⟨_, rfl, fun probe hprobe hkind => ?_, fun receipt hput => ?_⟩
      · exact ⟨receipt, rfl, List.mem_singleton.mp hprobe⟩
      · obtain rfl := Option.some.inj hput
        exact List.mem_singleton.mpr rfl
    · cases h
      exact ⟨[], hsame, fun _ hprobe => absurd hprobe List.not_mem_nil, fun _ hput => by cases hput⟩

/-- The probes of a duplicate that a unit has gathered are of the receipts it has put. -/
theorem d1_probes {unit unit' : D1Unit} (h : Trail (d1Handler ports committed).Step unit t unit') :
    (∀ probe ∈ unit'.probes, probe.kind = .duplicateReceipt →
      probe ∈ unit.probes ∨ ∃ receipt ∈ t.writes.filterMap putReceipt, probe = duplicate receipt) ∧
    (∀ probe ∈ unit.probes, probe ∈ unit'.probes) ∧ ∀ receipt ∈ t.writes.filterMap putReceipt, duplicate receipt ∈ unit'.probes := by
  induction t generalizing unit with
  | nil =>
    obtain rfl : unit = unit' := h
    exact ⟨fun probe hprobe _ => .inl hprobe, fun probe hprobe => hprobe, fun receipt hreceipt => by cases hreceipt⟩
  | cons a t ih =>
    obtain ⟨unit₁, hstep, hrest⟩ := h
    obtain ⟨hlater, hkept, hput⟩ := ih hrest
    obtain ⟨op, answer⟩ := a
    cases op with
    | port op =>
      obtain ⟨-, rfl⟩ := d1_step_port hstep
      exact ⟨hlater, hkept, hput⟩
    | read op =>
      obtain ⟨-, rfl⟩ := d1_step_read hstep
      exact ⟨hlater, hkept, hput⟩
    | write op =>
      obtain ⟨written, hwrite, rfl⟩ := d1_step_write hstep
      obtain ⟨probes, hprobes, hown, hreceipts⟩ := d1_write_probes hwrite
      have hkept : ∀ probe ∈ unit.probes ++ probes, probe ∈ unit'.probes := fun probe hprobe => hkept probe (by
        change probe ∈ written.probes
        rw [hprobes]
        exact hprobe)
      have hsplit : ∀ {receipt}, receipt ∈ (Trace.writes (⟨.write op, answer⟩ :: t)).filterMap putReceipt →
          putReceipt ⟨op, answer⟩ = some receipt ∨ receipt ∈ (Trace.writes t).filterMap putReceipt := fun hmem => by
        obtain ⟨a, ha, hreceipt⟩ := List.mem_filterMap.mp hmem
        rcases List.mem_cons.mp ha with rfl | ha
        · exact .inl hreceipt
        · exact .inr (List.mem_filterMap.mpr ⟨a, ha, hreceipt⟩)
      refine ⟨fun probe hprobe hkind => ?_, fun probe hprobe => hkept probe (List.mem_append_left _ hprobe), fun receipt hreceipt => ?_⟩
      · rcases hlater probe hprobe hkind with hold | ⟨receipt, hreceipt, rfl⟩
        · rw [show ({ written with asked := unit.asked + 1 } : D1Unit).probes = unit.probes ++ probes from hprobes] at hold
          rcases List.mem_append.mp hold with hold | hnew
          · exact .inl hold
          · obtain ⟨receipt, hreceipt, rfl⟩ := hown probe hnew hkind
            exact .inr ⟨receipt, List.mem_filterMap.mpr ⟨_, List.mem_cons_self, hreceipt⟩, rfl⟩
        · obtain ⟨a, ha, hreceipt⟩ := List.mem_filterMap.mp hreceipt
          exact .inr ⟨receipt, List.mem_filterMap.mpr ⟨a, List.mem_cons_of_mem _ ha, hreceipt⟩, rfl⟩
      · rcases hsplit hreceipt with hthis | hlater
        · exact hkept _ (List.mem_append_right _ (hreceipts receipt hthis))
        · exact hput receipt hlater

end

/-- Where a receipt's key is taken, a refused batch is reported as that before anything else. -/
theorem conflict_of_duplicate {probes : List TasksConflictProbe} (committed : ℕ → Rows)
    (hone : ∃ probe ∈ probes, probe.kind = .duplicateReceipt)
    (hall : ∀ probe ∈ probes, probe.kind = .duplicateReceipt → ∃ message, probe.broken (committed 0) = some message) :
    ∃ message, tasksStoreConflict probes committed = .conflict .duplicateReceipt message := by
  obtain ⟨probe, hprobe, hkind⟩ := hone
  unfold tasksStoreConflict
  set sorted := probes.insertionSort fun left right => left.kind.rank ≤ right.kind.rank with hsorted
  have hmem : ∀ p, p ∈ sorted ↔ p ∈ probes := fun p => by rw [hsorted, List.mem_insertionSort]
  have hpair : sorted.Pairwise fun left right => left.kind.rank ≤ right.kind.rank := by
    have htotal : Std.Total fun left right : TasksConflictProbe => left.kind.rank ≤ right.kind.rank := ⟨fun _ _ => le_total _ _⟩
    have htrans : IsTrans TasksConflictProbe fun left right => left.kind.rank ≤ right.kind.rank := ⟨fun _ _ _ => le_trans⟩
    exact List.pairwise_insertionSort _ _
  have hin := (hmem probe).mpr hprobe
  rcases hlist : sorted with _ | ⟨first, rest⟩
  · rw [hlist] at hin
    cases hin
  · have hrank : first.kind.rank ≤ probe.kind.rank := by
      rw [hlist] at hin hpair
      rcases List.mem_cons.mp hin with rfl | hin
      · exact le_rfl
      · exact (List.pairwise_cons.mp hpair).1 probe hin
    have hfirst : first.kind = .duplicateReceipt := by
      rw [hkind] at hrank
      cases hk : first.kind <;> rw [hk] at hrank <;> simp_all [TasksStoreConflictKind.rank]
    obtain ⟨message, hbroken⟩ := hall first ((hmem first).mp (by rw [hlist]; exact List.mem_cons_self)) hfirst
    exact ⟨message, by rw [firstBroken, hbroken, hfirst]⟩

end Claxedo.Tasks

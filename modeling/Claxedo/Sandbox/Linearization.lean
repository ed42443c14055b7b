import Claxedo.Sandbox.D1Store

/-! The D1 store against the memory store. A D1 call whose write lands is simulated by the
memory call at the moment of the write, as long as what the call copied from its read is
still on the row; the order of the writes is then the order the calls linearize in. -/

namespace Claxedo.Sandbox

/-- The fields two leases are compared on, the host apart. -/
structure LeaseMatches (d1 mem : SandboxLease) : Prop where
  status : d1.status = mem.status
  epoch : d1.epoch = mem.epoch
  routingId : d1.routingId = mem.routingId
  sandboxId : d1.sandboxId = mem.sandboxId
  url : d1.url = mem.url
  driverResourceId : d1.driverResourceId = mem.driverResourceId
  labels : d1.labels = mem.labels
  checkpoint : d1.checkpoint = mem.checkpoint
  restore : d1.restore = mem.restore
  persistence : d1.persistence = mem.persistence
  start : d1.start = mem.start
  retryCount : d1.retryCount = mem.retryCount
  nextRetryAt : d1.nextRetryAt = mem.nextRetryAt
  lastError : d1.lastError = mem.lastError
  updatedAt : d1.updatedAt = mem.updatedAt

structure LeaseAgrees (d1 mem : SandboxLease) : Prop extends LeaseMatches d1 mem where
  hostId : d1.hostId = mem.hostId

instance (d1 mem : SandboxLease) : Decidable (LeaseAgrees d1 mem) :=
  decidable_of_iff (d1.status = mem.status ∧ d1.epoch = mem.epoch ∧ d1.routingId = mem.routingId ∧
    d1.sandboxId = mem.sandboxId ∧ d1.url = mem.url ∧ d1.hostId = mem.hostId ∧
    d1.driverResourceId = mem.driverResourceId ∧ d1.labels = mem.labels ∧ d1.checkpoint = mem.checkpoint ∧
    d1.restore = mem.restore ∧ d1.persistence = mem.persistence ∧ d1.start = mem.start ∧
    d1.retryCount = mem.retryCount ∧ d1.nextRetryAt = mem.nextRetryAt ∧ d1.lastError = mem.lastError ∧
    d1.updatedAt = mem.updatedAt)
    ⟨fun ⟨a, b, c, d, e, f, g, h, i, j, k, l, m, n, o, p⟩ => ⟨⟨a, b, c, d, e, g, h, i, j, k, l, m, n, o, p⟩, f⟩,
      fun h => ⟨h.status, h.epoch, h.routingId, h.sandboxId, h.url, h.hostId, h.driverResourceId, h.labels,
        h.checkpoint, h.restore, h.persistence, h.start, h.retryCount, h.nextRetryAt, h.lastError, h.updatedAt⟩⟩

/-- The host a driver reported for the row. Without one the row still has a key, and reads it as its `hostId`. -/
def SandboxLeaseRow.reportedHost (row : SandboxLeaseRow) : Option String := row.sandboxId.map fun _ => row.leaseId

/-- There is no row, or one whose host a driver reported. -/
def HostReported (row : Option SandboxLeaseRow) : Prop := ∀ r ∈ row, r.sandboxId.isSome

instance (row : Option SandboxLeaseRow) : Decidable (HostReported row) :=
  inferInstanceAs (Decidable (∀ r ∈ row, r.sandboxId.isSome))

def AnswerAgrees : LeaseAnswer → LeaseAnswer → Prop
  | .acquire (.acquired d1), .acquire (.acquired mem) => LeaseAgrees d1 mem
  | .lease (some d1), .lease (some mem) => LeaseAgrees d1 mem
  | .released, .released => True
  | _, _ => False

instance : DecidableRel AnswerAgrees
  | .acquire (.acquired d1), .acquire (.acquired mem) => inferInstanceAs (Decidable (LeaseAgrees d1 mem))
  | .lease (some d1), .lease (some mem) => inferInstanceAs (Decidable (LeaseAgrees d1 mem))
  | .released, .released => isTrue trivial
  | .acquire (.refused _ _), _ | .lease none, _ | .acquire (.acquired _), .acquire (.refused _ _)
  | .acquire (.acquired _), .lease _ | .acquire (.acquired _), .released | .lease (some _), .lease none
  | .lease (some _), .acquire _ | .lease (some _), .released | .released, .acquire _ | .released, .lease _ =>
    isFalse (by simp [AnswerAgrees])

def FinalAgrees : Option SandboxLease → Option SandboxLease → Prop
  | none, none => True
  | some d1, some mem => LeaseAgrees d1 mem
  | _, _ => False

instance : DecidableRel FinalAgrees
  | none, none => isTrue trivial
  | some d1, some mem => inferInstanceAs (Decidable (LeaseAgrees d1 mem))
  | none, some _ | some _, none => isFalse id

section
variable (regions : Regions) (workspaceId : String)

/-- Some order of the calls that took effect gives, on the memory store, their answers and the lease left. -/
def Linearizes (s : D1State) : Prop :=
  ∃ order : List (LeaseCall × LeaseAnswer), order.Perm s.log ∧
    List.Forall₂ AnswerAgrees (order.map Prod.snd) (Memory.run workspaceId none (order.map Prod.fst)).2 ∧
    FinalAgrees (s.tables.row.map (toSandboxLease regions)) (Memory.run workspaceId none (order.map Prod.fst)).1

/-- Whether the write a call holds would take effect on these tables. -/
def lands (tables : Tables) (read : Option SandboxLeaseRow) (call : LeaseCall) : Bool :=
  match attempt regions workspaceId read call with
  | .answer _ => false
  | .write write => tookEffect call (write.commit tables).2

/-- An acquire that lands over a row takes over no serving lease, and leaves that row's own
checkpoint and restore, with the start it was handed. -/
def AcquireSafe (s : D1State) (label : D1Label) : Prop :=
  ∀ id input now pass read row, label = .write id →
    s.find id = some ⟨.acquire input now, .writing pass read⟩ → s.tables.row = some row →
    lands regions workspaceId s.tables read (.acquire input now) →
    sandboxLeaseStatus row.status ≠ .ready ∧
      ∃ written, (d1Step regions workspaceId s label).tables.row = some written ∧
        written.checkpoint = row.checkpoint ∧ written.restore = row.restore ∧ written.start = input.start

/-- What a call writes from its read, and not from its arguments or under its guard, is still on the row. -/
def CopiesCurrent (read row : Option SandboxLeaseRow) : LeaseCall → Prop
  | .acquire _ _ => row = read
  | .recordTarget _ _ _ _ => ∀ r ∈ read, ∀ r' ∈ row, r'.leaseId = r.leaseId ∧ r'.sandboxId = r.sandboxId ∧
      r'.url = r.url ∧ r'.driverResourceId = r.driverResourceId ∧ r'.persistence = r.persistence
  | .update _ patch _ _ => patch.nextRetryAt.isSome → patch.status.isNone →
      ∀ r ∈ read, ∀ r' ∈ row, sandboxLeaseStatus r'.status = sandboxLeaseStatus r.status
  | .recordFailure _ _ _ _ => ∀ r ∈ read, ∀ r' ∈ row, r'.retryCount = r.retryCount ∧ r'.start = r.start
  | .release _ => True

/-- An update and a failure answer with the row they wrote. -/
def AnswersRow : LeaseCall → Bool
  | .update .. | .recordFailure .. => true
  | _ => false

/-- The condition on a step: a write that lands copies nothing that changed since its read, and answers with no row whose host
was never reported. -/
def Fresh (s : D1State) : D1Label → Prop
  | .write id =>
    match s.find id with
    | some ⟨call, .writing _ read⟩ =>
      lands regions workspaceId s.tables read call →
        CopiesCurrent read s.tables.row call ∧ (AnswersRow call → HostReported s.tables.row)
    | _ => True
  | _ => True

instance (read row : Option SandboxLeaseRow) : DecidablePred (CopiesCurrent read row)
  | .acquire _ _ => inferInstanceAs (Decidable (row = read))
  | .recordTarget _ _ _ _ => inferInstanceAs (Decidable (∀ r ∈ read, ∀ r' ∈ row, r'.leaseId = r.leaseId ∧ _))
  | .update _ patch _ _ => inferInstanceAs (Decidable (patch.nextRetryAt.isSome → patch.status.isNone →
      ∀ r ∈ read, ∀ r' ∈ row, sandboxLeaseStatus r'.status = sandboxLeaseStatus r.status))
  | .recordFailure _ _ _ _ => inferInstanceAs (Decidable (∀ r ∈ read, ∀ r' ∈ row, r'.retryCount = r.retryCount ∧ _))
  | .release _ => isTrue trivial

instance (s : D1State) : DecidablePred (Fresh regions workspaceId s)
  | .write id => by
    simp only [Fresh]
    split <;> infer_instance
  | .begin _ _ | .read _ => isTrue trivial

/-- The row against the lease the memory store would hold. -/
def Simulates : Option SandboxLeaseRow → Option SandboxLease → Prop
  | none, none => True
  | some row, some mem => LeaseMatches (toSandboxLease regions row) mem ∧ mem.hostId = row.reportedHost
  | _, _ => False

end

section
variable {regions : Regions} {workspaceId : String}

variable {row values : SandboxLeaseRow} {mem : Option SandboxLease} {next : SandboxLease} {now : ℤ}
  {read : Option SandboxLeaseRow} {tables : Tables} {write : LeaseWrite} {columns : List Column} {epoch : ℕ} {s : D1State}

theorem LeaseMatches.agrees {mem : SandboxLease} (h : LeaseMatches (toSandboxLease regions row) mem)
    (hhost : mem.hostId = row.reportedHost) (hreported : row.sandboxId.isSome) :
    LeaseAgrees (toSandboxLease regions row) mem := by
  obtain ⟨sandboxId, hs⟩ := Option.isSome_iff_exists.mp hreported
  refine ⟨h, ?_⟩
  rw [hhost, SandboxLeaseRow.reportedHost, hs]
  rfl

theorem Simulates.finalAgrees {row : Option SandboxLeaseRow} (h : Simulates regions row mem) (hreported : HostReported row) :
    FinalAgrees (row.map (toSandboxLease regions)) mem := by
  cases row with
  | none => cases mem <;> simp_all [Simulates, FinalAgrees]
  | some row =>
    cases mem with
    | none => exact h.elim
    | some mem => exact h.1.agrees h.2 (hreported row rfl)

theorem Simulates.some_left (h : Simulates regions (some row) mem) :
    ∃ m, mem = some m ∧ LeaseMatches (toSandboxLease regions row) m ∧ m.hostId = row.reportedHost := by
  cases mem with
  | none => exact h.elim
  | some m => exact ⟨m, rfl, h⟩

theorem Simulates.none_left (h : Simulates regions none mem) : mem = none := by
  cases mem with
  | none => rfl
  | some m => exact h.elim

theorem guard_holds_iff (epoch : ℕ) (status : Option SandboxLeaseRowStatus) (routingId : Option (Option String))
    (row : SandboxLeaseRow) :
    SandboxLeaseGuard.holds ⟨some epoch, status, routingId⟩ row = true ↔
      row.epoch = epoch ∧ (∀ st ∈ status, row.status = st) ∧ (∀ r ∈ routingId, row.routingId = r) := by
  simp only [SandboxLeaseGuard.holds, Option.all_some, decide_eq_true_eq, Option.all_eq_true, Option.mem_def]
  constructor
  · rintro ⟨he, hs, hr⟩
    exact ⟨he.symm, fun st h => (hs st h).symm, fun r h => (hr r h).symm⟩
  · rintro ⟨he, hs, hr⟩
    exact ⟨he.symm, fun st h => (hs st h).symm, fun r h => (hr r h).symm⟩

theorem LeaseMatches.refusal_isSome {d1 mem : SandboxLease} (h : LeaseMatches d1 mem) (now stale : ℤ) :
    (refusal d1 now stale).isSome = (refusal mem now stale).isSome := by
  unfold refusal
  rw [h.status, h.updatedAt]
  split_ifs <;> rfl

theorem LeaseMatches.heldHost {d1 mem : SandboxLease} (h : LeaseMatches d1 mem) :
    (mem.sandboxId.isSome ∧ sandboxLeaseHeldHost (some d1) = some d1 ∧ sandboxLeaseHeldHost (some mem) = some mem) ∨
      (sandboxLeaseHeldHost (some d1) = none ∧ sandboxLeaseHeldHost (some mem) = none) := by
  simp only [sandboxLeaseHeldHost, h.status, h.sandboxId]
  split_ifs with hheld
  · exact .inl ⟨hheld.1, rfl, rfl⟩
  · exact .inr ⟨rfl, rfl⟩

theorem LeaseMatches.acquireNext {mem : SandboxLease} (h : LeaseMatches (toSandboxLease regions row) mem)
    (hhost : mem.hostId = row.reportedHost) (workspaceId : String) (input : SandboxLeaseAcquireInput) (now : ℤ) :
    LeaseAgrees (acquireNext workspaceId (some (toSandboxLease regions row)) input now)
      (acquireNext workspaceId (some mem) input now) := by
  rcases h.heldHost with ⟨hsome, hd, hm⟩ | ⟨hd, hm⟩
  · have hheld := h.agrees hhost (by rw [← h.sandboxId] at hsome; exact hsome)
    refine ⟨?_, by simp [Sandbox.acquireNext, hd, hm, hheld.hostId]⟩
    constructor <;> simp [Sandbox.acquireNext, hd, hm, h.epoch, h.sandboxId, h.url, h.driverResourceId, h.labels,
      h.checkpoint, h.restore, h.persistence, h.retryCount]
  · refine ⟨?_, by simp [Sandbox.acquireNext, hd, hm]⟩
    constructor <;> simp [Sandbox.acquireNext, hd, hm, h.epoch, h.checkpoint, h.restore, h.persistence, h.retryCount]

/-- The row an acquire writes reads back as the lease it answers with, its host apart. -/
theorem matches_rowValues {mem : SandboxLease} (h : LeaseMatches next mem) (current : Option SandboxLeaseRow) :
    LeaseMatches (toSandboxLease regions (rowValues next current)) mem := by
  constructor <;> simp only [toSandboxLease, rowValues, sandboxLeaseStatus_rowStatus]
  case status => exact h.status
  case epoch => exact h.epoch
  case routingId => exact h.routingId
  case sandboxId => exact h.sandboxId
  case url => exact h.url
  case driverResourceId => exact h.driverResourceId
  case labels => exact h.labels
  case checkpoint => exact h.checkpoint
  case restore => exact h.restore
  case persistence => exact h.persistence
  case start => exact h.start
  case retryCount => exact h.retryCount
  case nextRetryAt => exact h.nextRetryAt
  case lastError => exact h.lastError
  case updatedAt => exact h.updatedAt

theorem matches_overwrite {mem : SandboxLease} (h : LeaseMatches (toSandboxLease regions values) mem) :
    LeaseMatches (toSandboxLease regions (overwrite values row)) mem :=
  ⟨h.status, h.epoch, h.routingId, h.sandboxId, h.url, h.driverResourceId, h.labels, h.checkpoint,
    h.restore, h.persistence, h.start, h.retryCount, h.nextRetryAt, h.lastError, h.updatedAt⟩

/-- A lease has a host exactly where it has a sandbox. -/
def Hosted (lease : Option SandboxLease) : Prop := ∀ m ∈ lease, m.hostId.isSome = m.sandboxId.isSome

theorem hosted_of_matches {mem : SandboxLease} (h : LeaseMatches (toSandboxLease regions row) mem)
    (hhost : mem.hostId = row.reportedHost) : Hosted (some mem) := by
  rintro _ ⟨⟩
  rw [hhost, ← h.sandboxId, SandboxLeaseRow.reportedHost, Option.isSome_map]
  rfl

theorem Hosted.acquireNext {current : Option SandboxLease} (h : Hosted current) (input : SandboxLeaseAcquireInput) (now : ℤ) :
    Hosted (some (acquireNext workspaceId current input now)) := by
  rintro _ ⟨⟩
  cases current with
  | none => rfl
  | some m =>
    simp only [Sandbox.acquireNext, sandboxLeaseHeldHost]
    split_ifs
    · exact h m rfl
    · rfl

theorem reportedHost_rowValues (h : Hosted (some next)) (current : Option SandboxLeaseRow) :
    next.hostId = (rowValues next current).reportedHost := by
  have hnext := h next rfl
  simp only [SandboxLeaseRow.reportedHost, rowValues]
  rcases hs : next.sandboxId with _ | sandboxId <;> rcases hh : next.hostId with _ | hostId <;> simp_all

/-- The memory store's leases have a host where they have a sandbox. -/
theorem Hosted.run {current : Option SandboxLease} (h : Hosted current) (calls : List LeaseCall) :
    Hosted (Memory.run workspaceId current calls).1 := by
  induction calls generalizing current with
  | nil => exact h
  | cons call calls ih =>
    refine ih ?_
    cases call with
    | acquire input now =>
      dsimp only
      split
      · exact h
      · exact h.acquireNext input now
    | release now => exact fun m hm => by cases hm
    | recordTarget | update | recordFailure =>
      dsimp only
      split
      · exact h
      · rename_i lease
        have hlease := h lease rfl
        split_ifs
        · exact h
        · exact h
        · rintro _ ⟨⟩
          first | rfl | exact hlease

/-- What a landed call leaves agrees with what the memory call leaves, and so do the answers. -/
structure StepSimulates (regions : Regions) (workspaceId : String) (tables : Tables) (read : Option SandboxLeaseRow)
    (mem : Option SandboxLease) (call : LeaseCall) (write : LeaseWrite) : Prop where
  row : Simulates regions (write.commit tables).1.row (Memory.step workspaceId mem call).1
  answer : AnswerAgrees (answerWritten regions workspaceId read (write.commit tables).2 call)
    (Memory.step workspaceId mem call).2

theorem acquire_simulates {input : SandboxLeaseAcquireInput}
    (ha : attempt regions workspaceId read (.acquire input now) = .write write) (hc : tables.row = read)
    (hs : Simulates regions tables.row mem) :
    StepSimulates regions workspaceId tables read mem (.acquire input now) write := by
  subst hc
  -- what an acquire writes is simulated by the lease it answers with
  have hwritten : ∀ {next m : SandboxLease} (current : Option SandboxLeaseRow), LeaseAgrees next m → Hosted (some m) →
      LeaseMatches (toSandboxLease regions (rowValues next current)) m ∧ m.hostId = (rowValues next current).reportedHost := by
    intro next m current hnext hm
    have hhosted : Hosted (some next) := by
      rintro _ ⟨⟩
      rw [hnext.hostId, hnext.sandboxId]
      exact hm m rfl
    exact ⟨matches_rowValues hnext.toLeaseMatches current, hnext.hostId ▸ reportedHost_rowValues hhosted current⟩
  cases hrow : tables.row with
  | none =>
    rw [hrow] at hs
    obtain rfl := hs.none_left
    simp only [attempt, hrow, Option.map_none, Option.bind_none] at ha
    obtain rfl := Attempt.write.inj ha
    have hl : LeaseAgrees (acquireNext workspaceId none input now) (acquireNext workspaceId none input now) := by
      refine ⟨?_, rfl⟩
      constructor <;> rfl
    have hnone : Hosted none := fun m hm => by cases hm
    constructor
    · simp only [LeaseWrite.commit, hrow, Memory.step, Option.bind_none]
      exact hwritten _ hl (hnone.acquireNext input now)
    · simpa [LeaseWrite.commit, hrow, Memory.step, answerWritten, AnswerAgrees] using hl
  | some row =>
    rw [hrow] at hs
    obtain ⟨m, rfl, hm, hh⟩ := hs.some_left
    simp only [attempt, hrow, Option.map_some, Option.bind_some] at ha
    have hr := hm.refusal_isSome now input.staleAfterMs
    cases hd : refusal (toSandboxLease regions row) now input.staleAfterMs with
    | some r => simp [hd] at ha
    | none =>
      have hmem : refusal m now input.staleAfterMs = none := by
        rw [hd] at hr
        simpa using hr.symm
      simp only [hd] at ha
      obtain rfl := Attempt.write.inj ha
      have hl := hm.acquireNext hh workspaceId input now
      constructor
      · simp only [LeaseWrite.commit, hrow, Memory.step, Option.bind_some, hmem, if_true]
        obtain ⟨hmatches, hreported⟩ := hwritten (some row) hl ((hosted_of_matches hm hh).acquireNext input now)
        exact ⟨matches_overwrite hmatches, hreported⟩
      · simpa [LeaseWrite.commit, hrow, Memory.step, hmem, answerWritten, AnswerAgrees] using hl

/-- Agreement after a column write, field by field: a named column reads the value, any other the row. -/
theorem matches_setColumns {mem : SandboxLease}
    (status : sandboxLeaseStatus (if .status ∈ columns then values.status else row.status) = mem.status)
    (epoch : row.epoch = mem.epoch)
    (routingId : (if .routingId ∈ columns then values.routingId else row.routingId) = mem.routingId)
    (sandboxId : (if .sandboxId ∈ columns then values.sandboxId else row.sandboxId) = mem.sandboxId)
    (url : (if .url ∈ columns then values.url else row.url) = mem.url)
    (driverResourceId : (if .driverResourceId ∈ columns then values.driverResourceId else row.driverResourceId) = mem.driverResourceId)
    (labels : (if .labels ∈ columns then values.labels else row.labels) = mem.labels)
    (checkpoint : (if .checkpoint ∈ columns then values.checkpoint else row.checkpoint) = mem.checkpoint)
    (restore : (if .restore ∈ columns then values.restore else row.restore) = mem.restore)
    (persistence : (if .persistence ∈ columns then values.persistence else row.persistence) = mem.persistence)
    (start : (if .start ∈ columns then values.start else row.start) = mem.start)
    (retryCount : (if .retryCount ∈ columns then values.retryCount else row.retryCount) = mem.retryCount)
    (nextRetryAt : (if .nextRetryAt ∈ columns then values.nextRetryAt else row.nextRetryAt) = mem.nextRetryAt)
    (lastError : (if .lastError ∈ columns then values.lastError else row.lastError) = mem.lastError)
    (updatedAt : (if .updatedAt ∈ columns then values.updatedAt else row.updatedAt) = mem.updatedAt) :
    LeaseMatches (toSandboxLease regions (setColumns columns values row)) mem := by
  -- each column is the only one that writes its field
  have own {β : Type} (field : SandboxLeaseRow → β) (column : Column)
      (hset : ∀ values row, field (column.set values row) = field values := by intros; rfl)
      (hother : ∀ c values row, c ≠ column → field (c.set values row) = field row := by
        intro c values row h; cases c <;> first | rfl | exact absurd rfl h) :=
    setColumns_field field column hset hother columns values row
  constructor <;> simp only [toSandboxLease]
  case epoch =>
    rw [setColumns_frame SandboxLeaseRow.epoch (fun c values row => by cases c <;> rfl)]
    exact epoch
  case status =>
    rw [own SandboxLeaseRow.status .status]
    exact status
  case routingId => exact (own SandboxLeaseRow.routingId .routingId).trans routingId
  case sandboxId => exact (own SandboxLeaseRow.sandboxId .sandboxId).trans sandboxId
  case url => exact (own SandboxLeaseRow.url .url).trans url
  case driverResourceId => exact (own SandboxLeaseRow.driverResourceId .driverResourceId).trans driverResourceId
  case labels => exact (own SandboxLeaseRow.labels .labels).trans labels
  case checkpoint => exact (own SandboxLeaseRow.checkpoint .checkpoint).trans checkpoint
  case restore => exact (own SandboxLeaseRow.restore .restore).trans restore
  case persistence => exact (own SandboxLeaseRow.persistence .persistence).trans persistence
  case start => exact (own SandboxLeaseRow.start .start).trans start
  case retryCount => exact (own SandboxLeaseRow.retryCount .retryCount).trans retryCount
  case nextRetryAt => exact (own SandboxLeaseRow.nextRetryAt .nextRetryAt).trans nextRetryAt
  case lastError => exact (own SandboxLeaseRow.lastError .lastError).trans lastError
  case updatedAt => exact (own SandboxLeaseRow.updatedAt .updatedAt).trans updatedAt

theorem reportedHost_setColumns (columns : List Column) (values row : SandboxLeaseRow) :
    (setColumns columns values row).reportedHost =
      (if .sandboxId ∈ columns then values.sandboxId else row.sandboxId).map fun _ =>
        if .leaseId ∈ columns then values.leaseId else row.leaseId := by
  have hsandbox := setColumns_field SandboxLeaseRow.sandboxId .sandboxId (fun _ _ => rfl)
    (fun c _ _ h => by cases c <;> first | rfl | exact absurd rfl h) columns values row
  have hlease := setColumns_field SandboxLeaseRow.leaseId .leaseId (fun _ _ => rfl)
    (fun c _ _ h => by cases c <;> first | rfl | exact absurd rfl h) columns values row
  rw [SandboxLeaseRow.reportedHost, hsandbox, hlease]

theorem reported_of_kept {written : SandboxLeaseRow} (hkept : written.reportedHost = row.sandboxId.map fun _ => row.leaseId)
    (h : row.sandboxId.isSome) : written.sandboxId.isSome := by
  rw [SandboxLeaseRow.reportedHost] at hkept
  simpa [h] using congrArg Option.isSome hkept

/-- A landed patch leaves the row the lease patch describes, wherever the status it copies is current. -/
theorem matches_patch {read : SandboxLeaseRow} {mem : SandboxLease} (patch : SandboxLeasePatch) (now : ℤ)
    (h : LeaseMatches (toSandboxLease regions row) mem)
    (hst : patch.nextRetryAt.isSome → patch.status.isNone → sandboxLeaseStatus row.status = sandboxLeaseStatus read.status) :
    LeaseMatches (toSandboxLease regions (setColumns (patchColumns patch)
        (rowValues (applySandboxLeasePatch (toSandboxLease regions read) patch now) (some read)) row))
      (applySandboxLeasePatch mem patch now) := by
  apply matches_setColumns
  case status =>
    have hm : sandboxLeaseStatus row.status = mem.status := h.status
    cases hp : patch.status with
    | some st =>
      rw [if_pos (by simp [patchColumns, hp])]
      simp [rowValues, applySandboxLeasePatch, hp]
    | none =>
      cases hn : patch.nextRetryAt with
      | none =>
        rw [if_neg (by simp [patchColumns, hp, hn])]
        simpa [applySandboxLeasePatch, hp] using hm
      | some at' =>
        rw [if_pos (by simp [patchColumns, hp, hn])]
        simp [rowValues, applySandboxLeasePatch, hp, toSandboxLease, ← hm, hst (by simp [hn]) (by simp [hp])]
  case epoch => exact h.epoch
  case routingId => simpa [patchColumns, toSandboxLease, applySandboxLeasePatch] using h.routingId
  case sandboxId => simpa [patchColumns, toSandboxLease, applySandboxLeasePatch] using h.sandboxId
  case url => simpa [patchColumns, toSandboxLease, applySandboxLeasePatch] using h.url
  case driverResourceId => simpa [patchColumns, toSandboxLease, applySandboxLeasePatch] using h.driverResourceId
  case labels => simpa [patchColumns, toSandboxLease, applySandboxLeasePatch] using h.labels
  case persistence => simpa [patchColumns, toSandboxLease, applySandboxLeasePatch] using h.persistence
  case updatedAt => simp [patchColumns, rowValues, applySandboxLeasePatch]
  case checkpoint =>
    cases hp : patch.checkpoint with
    | none => simpa [patchColumns, toSandboxLease, applySandboxLeasePatch, hp] using h.checkpoint
    | some c => simp [patchColumns, rowValues, applySandboxLeasePatch, hp]
  case restore =>
    cases hp : patch.restore with
    | none => simpa [patchColumns, toSandboxLease, applySandboxLeasePatch, hp] using h.restore
    | some c => simp [patchColumns, rowValues, applySandboxLeasePatch, hp]
  case start =>
    cases hp : patch.start with
    | none => simpa [patchColumns, toSandboxLease, applySandboxLeasePatch, hp] using h.start
    | some c => simp [patchColumns, rowValues, applySandboxLeasePatch, hp]
  case retryCount =>
    cases hp : patch.retryCount with
    | none => simpa [patchColumns, toSandboxLease, applySandboxLeasePatch, hp] using h.retryCount
    | some c => simp [patchColumns, rowValues, applySandboxLeasePatch, hp]
  case nextRetryAt =>
    cases hp : patch.nextRetryAt with
    | none => simpa [patchColumns, toSandboxLease, applySandboxLeasePatch, hp] using h.nextRetryAt
    | some c => simp [patchColumns, rowValues, applySandboxLeasePatch, hp]
  case lastError =>
    cases hp : patch.lastError with
    | none => simpa [patchColumns, toSandboxLease, applySandboxLeasePatch, hp] using h.lastError
    | some c => simp [patchColumns, rowValues, applySandboxLeasePatch, hp]

theorem fenced_landed {guard : SandboxLeaseGuard} {closes : Option ℤ}
    (h : ((LeaseWrite.fenced guard columns values closes).commit tables).2.isSome) :
    ∃ row, tables.row = some row ∧ guard.holds row ∧
      ((LeaseWrite.fenced guard columns values closes).commit tables).1.row = some (setColumns columns values row) ∧
      ((LeaseWrite.fenced guard columns values closes).commit tables).2 = some (setColumns columns values row) := by
  cases hrow : tables.row with
  | none => simp [LeaseWrite.commit, hrow] at h
  | some row =>
    by_cases hg : guard.holds row
    · exact ⟨row, rfl, hg, by simp [LeaseWrite.commit, hrow, hg], by simp [LeaseWrite.commit, hrow, hg]⟩
    · simp [LeaseWrite.commit, hrow, hg] at h

theorem writeFenced_landed {read : SandboxLeaseRow} {status : Option SandboxLeaseRowStatus} {endedAt : Option ℤ}
    (h : ((writeFenced epoch next read columns status endedAt).commit tables).2.isSome) :
    ∃ row, tables.row = some row ∧ row.epoch = epoch ∧ (∀ st ∈ status, row.status = st) ∧
      (.routingId ∈ columns → row.routingId = read.routingId) ∧
      ((writeFenced epoch next read columns status endedAt).commit tables).1.row =
        some (setColumns columns (rowValues next (some read)) row) ∧
      ((writeFenced epoch next read columns status endedAt).commit tables).2 =
        some (setColumns columns (rowValues next (some read)) row) := by
  obtain ⟨row, hrow, hg, hwrote, hanswer⟩ := fenced_landed h
  obtain ⟨he, hst, hr⟩ := (guard_holds_iff _ _ _ _).mp hg
  exact ⟨row, hrow, he, hst, fun hc => hr _ (by simp [hc]), hwrote, hanswer⟩

theorem update_simulates {patch : SandboxLeasePatch} {expected : Option SandboxLeaseStatus}
    (ha : attempt regions workspaceId read (.update epoch patch expected now) = .write write)
    (hl : (write.commit tables).2.isSome) (hc : CopiesCurrent read tables.row (.update epoch patch expected now))
    (hhost : HostReported tables.row) (hs : Simulates regions tables.row mem) :
    StepSimulates regions workspaceId tables read mem (.update epoch patch expected now) write := by
  cases read with
  | none => simp [attempt] at ha
  | some r =>
    by_cases h1 : r.epoch ≠ epoch
    · simp [attempt, h1] at ha
    by_cases h2 : expected.isSome ∧ expected ≠ some (sandboxLeaseStatus r.status)
    · simp [attempt, h1, h2] at ha
    simp only [attempt, if_neg h1, if_neg h2] at ha
    obtain rfl := Attempt.write.inj ha
    obtain ⟨row, hrow, hepoch, hstatus, -, hwrote, hanswer⟩ := writeFenced_landed hl
    rw [hrow] at hs hc hhost
    obtain ⟨m, rfl, hm, hh⟩ := hs.some_left
    have he : m.epoch = epoch := by rw [← hm.epoch]; exact hepoch
    -- the guard's row status is the one read, so the memory lease passes the same status check
    have hex : ¬ (expected.isSome ∧ expected ≠ some m.status) := by
      rintro ⟨hsome, hne⟩
      have hr : row.status = r.status := hstatus _ (by simp [hsome])
      have hmr : m.status = sandboxLeaseStatus r.status := by rw [← hr]; exact hm.status.symm
      exact h2 ⟨hsome, by rwa [← hmr]⟩
    have hagree := matches_patch patch now hm (fun hn hst => hc hn hst r rfl row rfl)
    have hkept := reportedHost_setColumns (patchColumns patch)
      (rowValues (applySandboxLeasePatch (toSandboxLease regions r) patch now) (some r)) row
    rw [if_neg (by simp [patchColumns]), if_neg (by simp [patchColumns])] at hkept
    have hmem : Memory.step workspaceId (some m) (.update epoch patch expected now) =
        (some (applySandboxLeasePatch m patch now), .lease (some (applySandboxLeasePatch m patch now))) := by
      simp only [Memory.step, he, ne_eq, not_true_eq_false, if_false, if_neg hex]
    constructor
    · rw [hwrote, hmem]
      exact ⟨hagree, hh.trans hkept.symm⟩
    · rw [hanswer, hmem]
      exact hagree.agrees (hh.trans hkept.symm) (reported_of_kept hkept (hhost row rfl))

/-- A landed target leaves the row the lease with that target describes. -/
theorem matches_target {read : SandboxLeaseRow} {mem : SandboxLease} (target : SandboxProvisionedTarget) (uuid : String) (now : ℤ)
    (h : LeaseMatches (toSandboxLease regions row) mem) (hh : mem.hostId = row.reportedHost) (hst : row.status = read.status)
    (hroute : row.routingId = read.routingId)
    (hc : row.leaseId = read.leaseId ∧ row.sandboxId = read.sandboxId ∧ row.url = read.url ∧
      row.driverResourceId = read.driverResourceId ∧ row.persistence = read.persistence) :
    LeaseMatches (toSandboxLease regions (setColumns targetColumns
        (rowValues (applySandboxProvisionedTarget (toSandboxLease regions read) target uuid now) (some read)) row))
      (applySandboxProvisionedTarget mem target uuid now) := by
  obtain ⟨h1, h2, h3, h4, h5⟩ := hc
  -- both stores see the same target already serving, so they keep the same routing id
  have hsame : sameTarget (toSandboxLease regions read) target = sameTarget mem target := by
    have hhost : mem.sandboxId = some target.sandboxId →
        ((some read.leaseId = some target.hostId) ↔ mem.hostId = some target.hostId) := by
      intro hs
      have hrow : row.sandboxId = some target.sandboxId := h.sandboxId.trans hs
      rw [hh, SandboxLeaseRow.reportedHost, hrow, ← h1]
      rfl
    rw [Bool.eq_iff_iff, sameTarget, sameTarget, decide_eq_true_iff, decide_eq_true_iff,
      ← h.status, ← h.url, ← h.sandboxId, ← h.driverResourceId]
    simp only [toSandboxLease, hst, h2, h3, h4]
    constructor
    · rintro ⟨a, b, c, d, e⟩
      exact ⟨a, b, c, (hhost (by rw [← h.sandboxId]; simpa [toSandboxLease, h2] using c)).mp d, e⟩
    · rintro ⟨a, b, c, d, e⟩
      exact ⟨a, b, c, (hhost (by rw [← h.sandboxId]; simpa [toSandboxLease, h2] using c)).mpr d, e⟩
  have hr : read.routingId = mem.routingId := by rw [← h.routingId, ← hroute]; rfl
  apply matches_setColumns
  case status => simp [targetColumns, rowValues, applySandboxProvisionedTarget]
  case epoch => exact h.epoch
  case routingId =>
    rw [if_pos (by simp [targetColumns])]
    simp only [rowValues, applySandboxProvisionedTarget, routingIdFor, hsame]
    simp [toSandboxLease, hr]
  case persistence =>
    have hp : row.persistence = mem.persistence := h.persistence
    simp [targetColumns, rowValues, applySandboxProvisionedTarget, toSandboxLease, ← h5, hp]
  case checkpoint => simpa [targetColumns, toSandboxLease, applySandboxProvisionedTarget] using h.checkpoint
  case restore => simpa [targetColumns, toSandboxLease, applySandboxProvisionedTarget] using h.restore
  case start => simpa [targetColumns, toSandboxLease, applySandboxProvisionedTarget] using h.start
  all_goals simp [targetColumns, rowValues, applySandboxProvisionedTarget]

theorem recordTarget_simulates {target : SandboxProvisionedTarget} {uuid : String}
    (ha : attempt regions workspaceId read (.recordTarget epoch target uuid now) = .write write)
    (hl : (write.commit tables).2.isSome) (hc : CopiesCurrent read tables.row (.recordTarget epoch target uuid now))
    (hs : Simulates regions tables.row mem) :
    StepSimulates regions workspaceId tables read mem (.recordTarget epoch target uuid now) write := by
  cases read with
  | none => simp [attempt] at ha
  | some r =>
    by_cases h1 : r.epoch ≠ epoch
    · simp [attempt, h1] at ha
    by_cases h2 : sandboxLeaseStatus r.status = .stopped ∨ sandboxLeaseStatus r.status = .destroyed
    · simp [attempt, h1, h2] at ha
    simp only [attempt, if_neg h1, if_neg h2] at ha
    obtain rfl := Attempt.write.inj ha
    obtain ⟨row, hrow, hepoch, hstatus, hroute, hwrote, hanswer⟩ := writeFenced_landed hl
    rw [hrow] at hs hc
    obtain ⟨m, rfl, hm, hh⟩ := hs.some_left
    have he : m.epoch = epoch := by rw [← hm.epoch]; exact hepoch
    have hst : row.status = r.status := hstatus _ rfl
    have hgone : ¬ (m.status = .stopped ∨ m.status = .destroyed) := by
      rw [← hm.status]
      simpa [toSandboxLease, hst] using h2
    have hagree := matches_target target uuid now hm hh hst (hroute (by simp [targetColumns])) (hc r rfl row rfl)
    have hreported := reportedHost_setColumns targetColumns
      (rowValues (applySandboxProvisionedTarget (toSandboxLease regions r) target uuid now) (some r)) row
    rw [if_pos (by simp [targetColumns]), if_pos (by simp [targetColumns])] at hreported
    have hmem : Memory.step workspaceId (some m) (.recordTarget epoch target uuid now) =
        (some (applySandboxProvisionedTarget m target uuid now),
          .lease (some (applySandboxProvisionedTarget m target uuid now))) := by
      simp only [Memory.step, he, ne_eq, not_true_eq_false, if_false, if_neg hgone]
    constructor
    · rw [hwrote, hmem]
      exact ⟨hagree, hreported.symm⟩
    · rw [hanswer, hmem]
      refine hagree.agrees hreported.symm ?_
      simpa [SandboxLeaseRow.reportedHost, rowValues, applySandboxProvisionedTarget] using congrArg Option.isSome hreported

/-- A landed failure leaves the row the failed lease describes. -/
theorem matches_failure {read : SandboxLeaseRow} {mem : SandboxLease} (error : String) (nextRetryAt : Option ℤ) (now : ℤ)
    (h : LeaseMatches (toSandboxLease regions row) mem) (hepoch : row.epoch = read.epoch)
    (hc : row.retryCount = read.retryCount ∧ row.start = read.start) :
    LeaseMatches (toSandboxLease regions (setColumns failureColumns
        (rowValues (applySandboxLeaseFailure (toSandboxLease regions read) error nextRetryAt now) (some read)) row))
      (applySandboxLeaseFailure mem error nextRetryAt now) := by
  obtain ⟨h1, h2⟩ := hc
  apply matches_setColumns
  case status => simp [failureColumns, rowValues, applySandboxLeaseFailure]
  case epoch => exact h.epoch
  case start =>
    have hs : row.start = mem.start := h.start
    have he : row.epoch = mem.epoch := h.epoch
    simp [failureColumns, rowValues, applySandboxLeaseFailure, toSandboxLease, ← h2, ← hepoch, hs, he]
  case retryCount =>
    have hr : row.retryCount = mem.retryCount := h.retryCount
    simp [failureColumns, rowValues, applySandboxLeaseFailure, toSandboxLease, ← h1, hr]
  case nextRetryAt => simp [failureColumns, rowValues, applySandboxLeaseFailure]
  case lastError => simp [failureColumns, rowValues, applySandboxLeaseFailure]
  case updatedAt => simp [failureColumns, rowValues, applySandboxLeaseFailure]
  case routingId => simpa [failureColumns, toSandboxLease, applySandboxLeaseFailure] using h.routingId
  case sandboxId => simpa [failureColumns, toSandboxLease, applySandboxLeaseFailure] using h.sandboxId
  case url => simpa [failureColumns, toSandboxLease, applySandboxLeaseFailure] using h.url
  case driverResourceId => simpa [failureColumns, toSandboxLease, applySandboxLeaseFailure] using h.driverResourceId
  case labels => simpa [failureColumns, toSandboxLease, applySandboxLeaseFailure] using h.labels
  case checkpoint => simpa [failureColumns, toSandboxLease, applySandboxLeaseFailure] using h.checkpoint
  case restore => simpa [failureColumns, toSandboxLease, applySandboxLeaseFailure] using h.restore
  case persistence => simpa [failureColumns, toSandboxLease, applySandboxLeaseFailure] using h.persistence

theorem recordFailure_simulates {error : String} {nextRetryAt : Option ℤ}
    (ha : attempt regions workspaceId read (.recordFailure epoch error nextRetryAt now) = .write write)
    (hl : (write.commit tables).2.isSome) (hc : CopiesCurrent read tables.row (.recordFailure epoch error nextRetryAt now))
    (hhost : HostReported tables.row) (hs : Simulates regions tables.row mem) :
    StepSimulates regions workspaceId tables read mem (.recordFailure epoch error nextRetryAt now) write := by
  cases read with
  | none => simp [attempt] at ha
  | some r =>
    by_cases h1 : r.epoch ≠ epoch
    · simp [attempt, h1] at ha
    by_cases h2 : sandboxLeaseStatus r.status = .stopped ∨ sandboxLeaseStatus r.status = .destroyed
    · simp [attempt, h1, h2] at ha
    simp only [attempt, if_neg h1, if_neg h2] at ha
    obtain rfl := Attempt.write.inj ha
    obtain ⟨row, hrow, hepoch, hstatus, -, hwrote, hanswer⟩ := writeFenced_landed hl
    rw [hrow] at hs hc hhost
    obtain ⟨m, rfl, hm, hh⟩ := hs.some_left
    have he : m.epoch = epoch := by rw [← hm.epoch]; exact hepoch
    have hst : row.status = r.status := hstatus _ rfl
    have hgone : ¬ (m.status = .stopped ∨ m.status = .destroyed) := by
      rw [← hm.status]
      simpa [toSandboxLease, hst] using h2
    have hre : row.epoch = r.epoch := by rw [hepoch]; exact (not_ne_iff.mp h1).symm
    have hagree := matches_failure error nextRetryAt now hm hre (hc r rfl row rfl)
    have hkept := reportedHost_setColumns failureColumns
      (rowValues (applySandboxLeaseFailure (toSandboxLease regions r) error nextRetryAt now) (some r)) row
    rw [if_neg (by simp [failureColumns]), if_neg (by simp [failureColumns])] at hkept
    have hmem : Memory.step workspaceId (some m) (.recordFailure epoch error nextRetryAt now) =
        (some (applySandboxLeaseFailure m error nextRetryAt now),
          .lease (some (applySandboxLeaseFailure m error nextRetryAt now))) := by
      simp only [Memory.step, he, ne_eq, not_true_eq_false, if_false, if_neg hgone]
    constructor
    · rw [hwrote, hmem]
      exact ⟨hagree, hh.trans hkept.symm⟩
    · rw [hanswer, hmem]
      exact hagree.agrees (hh.trans hkept.symm) (reported_of_kept hkept (hhost row rfl))

/-- A call whose write lands on a row that still holds what the call copied is the memory call, made then. -/
theorem landed_simulates {call : LeaseCall} (ha : attempt regions workspaceId read call = .write write)
    (hl : tookEffect call (write.commit tables).2) (hc : CopiesCurrent read tables.row call)
    (hhost : AnswersRow call → HostReported tables.row) (hs : Simulates regions tables.row mem) :
    StepSimulates regions workspaceId tables read mem call write := by
  cases call with
  | acquire input now => exact acquire_simulates ha hc hs
  | recordTarget epoch target uuid now => exact recordTarget_simulates ha hl hc hs
  | update epoch patch expected now => exact update_simulates ha hl hc (hhost rfl) hs
  | recordFailure epoch error nextRetryAt now => exact recordFailure_simulates ha hl hc (hhost rfl) hs
  | release now =>
    obtain rfl := Attempt.write.inj ha
    exact ⟨trivial, trivial⟩

/-- The memory store, run on the calls that took effect so far, stands where the tables stand. -/
structure Linearized (regions : Regions) (workspaceId : String) (s : D1State) : Prop where
  row : Simulates regions s.tables.row (Memory.run workspaceId none (s.log.map Prod.fst)).1
  answers : List.Forall₂ AnswerAgrees (s.log.map Prod.snd) (Memory.run workspaceId none (s.log.map Prod.fst)).2

theorem Linearized.of_same {t : D1State} (h : Linearized regions workspaceId s) (htables : t.tables = s.tables)
    (hlog : t.log = s.log) : Linearized regions workspaceId t := by
  refine ⟨?_, ?_⟩
  · rw [htables, hlog]; exact h.row
  · rw [hlog]; exact h.answers

theorem Linearized.commitCall {id pass : ℕ} {isolate : Isolate} (h : Linearized regions workspaceId s)
    (hc : lands regions workspaceId s.tables read isolate.call → CopiesCurrent read s.tables.row isolate.call ∧
      (AnswersRow isolate.call → HostReported s.tables.row)) :
    Linearized regions workspaceId (commitCall regions workspaceId s id isolate pass read) := by
  unfold Sandbox.commitCall
  cases ha : attempt regions workspaceId read isolate.call with
  | answer answer => exact h.of_same rfl rfl
  | write write =>
    simp only
    by_cases hl : tookEffect isolate.call (write.commit s.tables).2
    · rw [if_pos hl]
      obtain ⟨hcopies, hhost⟩ := hc (by simpa [lands, ha] using hl)
      obtain ⟨hrow, hanswer⟩ := landed_simulates ha hl hcopies hhost h.row
      refine ⟨?_, ?_⟩
      · simpa only [List.map_append, List.map_cons, List.map_nil, Memory.run_snoc] using hrow
      · simp only [List.map_append, List.map_cons, List.map_nil, Memory.run_snoc]
        exact List.rel_append h.answers (.cons hanswer .nil)
    · rw [if_neg hl]
      cases isolate.call <;> exact h.of_same rfl rfl

theorem Linearized.d1Step {label : D1Label} (h : Linearized regions workspaceId s) (hf : Fresh regions workspaceId s label) :
    Linearized regions workspaceId (d1Step regions workspaceId s label) := by
  cases label with
  | «begin» id call =>
    simp only [Sandbox.d1Step]
    split_ifs <;> exact h.of_same rfl rfl
  | read id =>
    simp only [Sandbox.d1Step]
    split
    · split_ifs
      · exact h.of_same rfl rfl
      · split <;> exact h.of_same rfl rfl
    · exact h
  | write id =>
    simp only [Sandbox.d1Step]
    split
    · rename_i call pass read hfind
      simp only [Fresh, hfind] at hf
      exact h.commitCall hf
    · exact h

theorem Linearized.linearizes_iff (h : Linearized regions workspaceId s) :
    Linearizes regions workspaceId s ↔ HostReported s.tables.row := by
  refine ⟨?_, fun hreported => ⟨s.log, List.Perm.refl _, h.answers, h.row.finalAgrees hreported⟩⟩
  rintro ⟨order, -, -, hfinal⟩ row hrow
  have hnone : Hosted none := fun m hm => by cases hm
  have hhosted : Hosted (Memory.run workspaceId none (order.map Prod.fst)).1 := hnone.run _
  rw [Option.mem_def.mp hrow] at hfinal
  generalize (Memory.run workspaceId none (order.map Prod.fst)).1 = mem at hfinal hhosted
  cases mem with
  | none => exact hfinal.elim
  | some mem =>
    -- a row always reads a host, and in memory only a lease with a sandbox has one
    have hfinal : LeaseAgrees (toSandboxLease regions row) mem := hfinal
    have hmem := hhosted mem rfl
    rw [← hfinal.hostId, ← hfinal.sandboxId] at hmem
    exact hmem.symm

theorem acquireSafe_of_fresh {label : D1Label} (hf : Fresh regions workspaceId s label) :
    AcquireSafe regions workspaceId s label := by
  rintro id input now pass read row rfl hfind hrow hl
  simp only [Fresh, hfind] at hf
  have hc : s.tables.row = read := (hf hl).1
  rw [hrow] at hc
  subst hc
  cases hr : refusal (toSandboxLease regions row) now input.staleAfterMs with
  | some refused => simp [lands, attempt, hr] at hl
  | none =>
    refine ⟨fun hready => ?_, ?_⟩
    · simp [refusal, toSandboxLease, hready] at hr
    · refine ⟨overwrite (rowValues (acquireNext workspaceId (some (toSandboxLease regions row)) input now) (some row))
        row, ?_, ?_, ?_, ?_⟩
      · simp [d1Step, hfind, commitCall, attempt, hr, LeaseWrite.commit, hrow, tookEffect]
      all_goals simp [overwrite, rowValues, acquireNext, toSandboxLease]

end

/-- Over every run whose landing writes are fresh, the successful calls linearize to the memory store wherever the row that is
left, if one is, has a host its driver reported; and every acquire that landed was safe. -/
theorem d1_linearizes_of_fresh (regions : Regions) (workspaceId : String) (labels : List D1Label)
    (h : Lib.Meets (d1Step regions workspaceId) (Fresh regions workspaceId) {} labels) :
    (Linearizes regions workspaceId (Lib.run (d1Step regions workspaceId) {} labels) ↔
      HostReported (Lib.run (d1Step regions workspaceId) {} labels).tables.row) ∧
      ∀ before label after, labels = before ++ label :: after →
        AcquireSafe regions workspaceId (Lib.run (d1Step regions workspaceId) {} before) label := by
  refine ⟨?_, ?_⟩
  · have hinv : Linearized regions workspaceId (Lib.run (d1Step regions workspaceId) {} labels) :=
      Lib.invariant_of_meets _ (fun s label hs hf => hs.d1Step hf) ⟨trivial, .nil⟩ h
    exact hinv.linearizes_iff
  · rintro before label after rfl
    obtain ⟨-, hl, -⟩ := (Lib.meets_append _ _ _ _ _).mp h
    exact acquireSafe_of_fresh hl

namespace Example

def acquireInput : SandboxLeaseAcquireInput :=
  { homeRegion := "us-east", driver := "test", staleAfterMs := 10, labels := none, machineClass := none, start := none }

def target : SandboxProvisionedTarget :=
  { sandboxId := "sbx", url := some "http://sbx", hostId := "host", driverResourceId := none, labels := [],
    persistence := none }

def regions : Regions := { known := ["us-east"] }

/-- A takes epoch 1; B reads it stale; epoch 1's target lands; B's upsert, guarded on the epoch alone, lands too, and B's host is
reported. -/
def race : List D1Label :=
  [.begin 0 (.acquire acquireInput 0), .read 0, .write 0,
    .begin 1 (.acquire acquireInput 100), .read 1,
    .begin 2 (.recordTarget 1 target "route" 100), .read 2, .write 2,
    .write 1,
    .begin 3 (.recordTarget 2 target "route" 110), .read 3, .write 3]

/-- The same calls, each written before the next one reads. -/
def sequential : List D1Label :=
  [.begin 0 (.acquire acquireInput 0), .read 0, .write 0,
    .begin 2 (.recordTarget 1 target "route" 100), .read 2, .write 2,
    .begin 3 (.update 1 { status := some .stopped } none 120), .read 3, .write 3,
    .begin 1 (.acquire acquireInput 200), .read 1, .write 1]

end Example

/-- B acquired over a lease that was ready at its write, which no order of the four calls explains. -/
theorem d1_race_not_linearizable :
    ¬ Linearizes Example.regions "ws" (Lib.run (d1Step Example.regions "ws") {} Example.race) := by
  rintro ⟨order, hperm, hanswers, hfinal⟩
  have hall : ∀ order ∈ (Lib.run (d1Step Example.regions "ws") {} Example.race).log.permutations',
      ¬ (List.Forall₂ AnswerAgrees (order.map Prod.snd) (Memory.run "ws" none (order.map Prod.fst)).2 ∧
        FinalAgrees ((Lib.run (d1Step Example.regions "ws") {} Example.race).tables.row.map
          (toSandboxLease Example.regions)) (Memory.run "ws" none (order.map Prod.fst)).1) := by
    decide +kernel
  exact hall order (List.mem_permutations'.mpr hperm) ⟨hanswers, hfinal⟩

theorem d1_sequential_linearizes :
    Lib.Meets (d1Step Example.regions "ws") (Fresh Example.regions "ws") {} Example.sequential ∧
    Linearizes Example.regions "ws" (Lib.run (d1Step Example.regions "ws") {} Example.sequential) ∧
    (Lib.run (d1Step Example.regions "ws") {} Example.sequential).log.length = 4 := by
  have h : Lib.Meets (d1Step Example.regions "ws") (Fresh Example.regions "ws") {} Example.sequential := by
    decide +kernel
  exact ⟨h, (d1_linearizes_of_fresh _ _ _ h).1.mpr (by decide +kernel), by decide +kernel⟩

/-! What stands whatever races: the epochs fence the writes. -/

/-- The epoch a write took effect under; an acquire's is the one it begins. -/
def writtenUnder : LeaseCall × LeaseAnswer → ℕ
  | (.acquire _ _, .acquire (.acquired lease)) => lease.epoch
  | (.recordTarget epoch _ _ _, _) | (.update epoch _ _ _, _) | (.recordFailure epoch _ _ _, _) => epoch
  | _ => 0

def LeaseCall.isAcquire : LeaseCall → Bool
  | .acquire _ _ => true
  | _ => false

/-- The writes since the row was last released. -/
def sinceRelease (log : List (LeaseCall × LeaseAnswer)) : List (LeaseCall × LeaseAnswer) :=
  log.foldl (fun since entry => if entry.2 = .released then [] else since ++ [entry]) []

theorem sinceRelease_snoc (log : List (LeaseCall × LeaseAnswer)) (entry : LeaseCall × LeaseAnswer) :
    sinceRelease (log ++ [entry]) = if entry.2 = .released then [] else sinceRelease log ++ [entry] := by
  simp [sinceRelease]

/-- Where a call's write lands it leaves its own epoch, no older than the one it finds, and for an acquire a new one. -/
theorem commit_epoch {regions : Regions} {workspaceId : String} {tables : Tables} {read : Option SandboxLeaseRow} {call : LeaseCall}
    {write : LeaseWrite} (ha : attempt regions workspaceId read call = .write write) (hl : (write.commit tables).2.isSome) :
    ∃ written, (write.commit tables).1.row = some written ∧
      writtenUnder (call, answerWritten regions workspaceId read (write.commit tables).2 call) = written.epoch ∧
      ∀ row ∈ tables.row, row.epoch ≤ written.epoch ∧ (call.isAcquire → row.epoch < written.epoch) := by
  have hfenced : ∀ {epoch next read columns status endedAt},
      ((writeFenced epoch next read columns status endedAt).commit tables).2.isSome → ∃ written,
        ((writeFenced epoch next read columns status endedAt).commit tables).1.row = some written ∧ epoch = written.epoch ∧
          ∀ row ∈ tables.row, row.epoch ≤ written.epoch := by
    intro epoch next read columns status endedAt h
    obtain ⟨row, hrow, hepoch, -, -, hwrote, -⟩ := writeFenced_landed h
    have hkept := setColumns_frame (·.epoch) (fun c _ _ => by cases c <;> rfl) columns (rowValues next (some read)) row
    refine ⟨_, hwrote, hepoch.symm.trans hkept.symm, fun other hother => ?_⟩
    obtain rfl := Option.some.inj (hrow.symm.trans hother)
    exact hkept.ge
  unfold attempt at ha
  cases call with
  | acquire input now =>
    dsimp only at ha
    split at ha
    · cases ha
    cases read with
    | none =>
      cases ha
      cases hrow : tables.row <;> simp only [LeaseWrite.commit, hrow] at hl ⊢
      · exact ⟨_, rfl, rfl, fun row h => by cases h⟩
      · cases hl
    | some found =>
      cases ha
      cases hrow : tables.row with
      | none =>
        simp only [LeaseWrite.commit, hrow]
        exact ⟨_, rfl, rfl, fun row h => by cases h⟩
      | some row =>
        by_cases he : row.epoch = found.epoch
        · simp only [LeaseWrite.commit, hrow, if_pos he]
          refine ⟨_, rfl, rfl, fun other hother => ?_⟩
          cases hother
          have hnext : row.epoch < found.epoch + 1 := by omega
          exact ⟨hnext.le, fun _ => hnext⟩
        · simp [LeaseWrite.commit, hrow, he] at hl
  | release now => cases ha; simp [LeaseWrite.commit] at hl
  | _ =>
    dsimp only at ha
    split at ha
    · cases ha
    split_ifs at ha <;> cases ha
    all_goals
      obtain ⟨written, hwrote, hepoch, hle⟩ := hfenced hl
      exact ⟨written, hwrote, hepoch, fun row hrow => ⟨hle row hrow, fun h => by cases h⟩⟩

/-- The writes since the last release come in the order of their epochs, each acquire under one of its own. -/
structure EpochsFence (s : D1State) : Prop where
  ordered : (sinceRelease s.log).Pairwise fun a b => writtenUnder a ≤ writtenUnder b ∧ (b.1.isAcquire → writtenUnder a < writtenUnder b)
  current : ∀ entry ∈ sinceRelease s.log, ∃ row ∈ s.tables.row, writtenUnder entry ≤ row.epoch

theorem EpochsFence.commitCall {regions : Regions} {workspaceId : String} {s : D1State} (h : EpochsFence s) (id : ℕ) (isolate : Isolate)
    (pass : ℕ) (read : Option SandboxLeaseRow) : EpochsFence (commitCall regions workspaceId s id isolate pass read) := by
  unfold Sandbox.commitCall
  rcases ha : attempt regions workspaceId read isolate.call with answer | write
  · exact ⟨h.ordered, h.current⟩
  dsimp only
  split_ifs with htook
  · by_cases hreleased : answerWritten regions workspaceId read (write.commit s.tables).2 isolate.call = .released
    · refine ⟨?_, ?_⟩ <;> dsimp only <;> rw [sinceRelease_snoc, if_pos hreleased]
      · exact .nil
      · exact fun entry hentry => absurd hentry List.not_mem_nil
    · have hl : (write.commit s.tables).2.isSome := by
        cases hcall : isolate.call <;> simp_all [tookEffect, answerWritten]
      obtain ⟨written, hwritten, hepoch, hnewer⟩ := commit_epoch ha hl
      refine ⟨?_, ?_⟩ <;> dsimp only <;> rw [sinceRelease_snoc, if_neg hreleased]
      · refine List.pairwise_append.mpr ⟨h.ordered, List.pairwise_singleton _ _, fun a ha b hb => ?_⟩
        obtain ⟨row, hrow, hle⟩ := h.current a ha
        obtain rfl := List.mem_singleton.mp hb
        rw [hepoch]
        exact ⟨hle.trans (hnewer row hrow).1, fun hacquire => hle.trans_lt ((hnewer row hrow).2 hacquire)⟩
      · intro entry hentry
        refine ⟨written, hwritten, ?_⟩
        rcases List.mem_append.mp hentry with hold | hnew
        · obtain ⟨row, hrow, hle⟩ := h.current entry hold
          exact hle.trans (hnewer row hrow).1
        · rw [List.mem_singleton.mp hnew, hepoch]
  · cases isolate.call <;> exact ⟨h.ordered, h.current⟩

/-- In every run, whatever races, the epochs fence the writes. -/
theorem epochsFence_of_run (regions : Regions) (workspaceId : String) (labels : List D1Label) :
    EpochsFence (Lib.run (d1Step regions workspaceId) {} labels) := by
  refine Lib.invariant_of_run EpochsFence (fun s label h => ?_) ⟨.nil, fun entry hentry => by cases hentry⟩ labels
  unfold d1Step
  cases label with
  | «begin» id call =>
    dsimp only
    split_ifs <;> exact ⟨h.ordered, h.current⟩
  | read id =>
    dsimp only
    split
    · split_ifs
      · exact ⟨h.ordered, h.current⟩
      · split <;> exact ⟨h.ordered, h.current⟩
    · exact h
  | write id =>
    dsimp only
    split
    · exact h.commitCall ..
    · exact h

end Claxedo.Sandbox

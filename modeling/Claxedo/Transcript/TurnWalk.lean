import Claxedo.Store.Coverage
import Mathlib.Data.List.TakeWhile

/-! The latest-turn view of a session's projected messages, page by page from the newest turn back, and the pages of several turns that
are read through it. -/

namespace Claxedo.Transcript

open Claxedo.Lib Claxedo.Store

/-- The rows of `message` of a session by `ord`, which each has one of its own. -/
structure MessageProjection where
  rows : List MessageRow
  ordered : rows.Pairwise fun a b => a.ord < b.ord

/-- The messages that a run of the store leaves a session with. -/
def MessageProjection.ofRun {home : Homes} {calls : List StoreCall}
    (h : Meets RuntimeStore.step (fun _ call => call.AtHome home) {} calls) (s : String) : MessageProjection where
  rows := (run RuntimeStore.step {} calls).db.messagesByOrd s fun _ => true
  ordered := Database.ordered_messagesByOrd (placed_of_run h s).2.spans.ords _

inductive AgentMessagePageError where
  | latestTurnUnavailable
  | notContiguous
  deriving DecidableEq

def AgentMessagePageError.status : AgentMessagePageError → ℕ
  | latestTurnUnavailable => 409
  | notContiguous => 409

structure LatestTurn where
  boundary : MessageRow
  prompts : List String

/-- `ord < endOrd`, where there is an end. -/
def before (endOrd : Option ℕ) (row : MessageRow) : Bool := endOrd.all fun endOrd => row.ord < endOrd

namespace MessageProjection

variable (projection : MessageProjection)

def readTurnPrompts (turnId : String) : List MessageRow :=
  projection.rows.filter fun row => row.turnId = some turnId && row.role = .user

def readLatestTurn (endOrd : Option ℕ) : Option LatestTurn :=
  match (projection.rows.filter fun row => row.role = .user && before endOrd row).getLast? with
  | none => none
  | some prompt =>
    let prompts :=
      match prompt.turnId with
      | none => [prompt]
      | some turnId => projection.readTurnPrompts turnId
    some ⟨prompts.head?.getD prompt, prompts.map fun row => row.id⟩

end MessageProjection

/-- A page of messages; its cursor says the `ord` the next older page ends before. -/
structure AgentMessagePage (M : Type) where
  messages : List M
  nextCursor : Option ℕ := none
  deriving DecidableEq

section
variable {M : Type} (hydrate : MessageRow → M) (projection : MessageProjection)

/-- `readLatestTurnView` of the view `latest-turn`. -/
def readLatestTurnView (endOrd : Option ℕ) : Except AgentMessagePageError (AgentMessagePage M) :=
  match projection.readLatestTurn endOrd with
  | none => if endOrd.isSome then .ok { messages := [] } else .error .latestTurnUnavailable
  | some latest =>
    let turn := projection.rows.filter fun row => latest.boundary.ord ≤ row.ord && before endOrd row
    if isContiguousTurn turn latest.prompts then
      .ok {
        messages := turn.map hydrate
        nextCursor := if projection.rows.any fun row => row.ord < latest.boundary.ord then some latest.boundary.ord else none }
    else .error .notContiguous

end

/-- One read, with the cursor that is followed. -/
def following {M ε : Type} (read : Option ℕ → Except ε (AgentMessagePage M)) (before : Option ℕ) :
    Except ε (AgentMessagePage M × Option ℕ) :=
  (read before).map fun page => (page, page.nextCursor)

/-- A turn of a page, with the cursor that reads what comes before it. -/
structure PageTurn (M : Type) where
  messages : List M
  cursor : Option ℕ := none

def TURN_PAGE_FILL_SCREENS : ℕ := 2

/-- The reader's request: how many rows its screen has, what a turn's messages are sent as, and how its lines and bytes are counted. -/
structure TurnPageRequest (M : Type) where
  rows : ℕ
  projectTurn : List M → List M
  estimateTurnLines : List M → ℕ
  byteLength : List M → ℕ

section
variable {M ε : Type} (read : Option ℕ → Except ε (AgentMessagePage M)) (request : TurnPageRequest M) (byteCap : Option ℕ)

/-- The loop of `readTurnPage`, where at most `more` turns may come after the next one. -/
def readTurns : ℕ → List (PageTurn M) → ℕ → ℕ → Option ℕ → Except ε (List (PageTurn M))
  | more, turns, lines, bytes, before =>
    match read before with
    | .error e => .error e
    | .ok page =>
      if page.messages.isEmpty then .ok turns
      else
        let sent := request.projectTurn page.messages
        let turns := ⟨sent, page.nextCursor⟩ :: turns
        let lines := lines + request.estimateTurnLines page.messages
        let bytes := bytes + request.byteLength sent
        match more, page.nextCursor with
        | more + 1, some next =>
          if lines < request.rows * (1 + TURN_PAGE_FILL_SCREENS) ∧ byteCap.all (bytes < ·) then
            readTurns more turns lines bytes (some next)
          else .ok turns
        | _, _ => .ok turns

end

/-- `readTurnPage`, for caps of the turns and of the bytes of a first page. -/
def readTurnPage {M ε : Type} (turnCap byteCap : ℕ) (read : Option ℕ → Except ε (AgentMessagePage M)) (request : TurnPageRequest M)
    (before : Option ℕ) : Except ε (List (PageTurn M)) :=
  readTurns read request (if before.isNone then some byteCap else none) (turnCap - 1) [] 0 0 before

/-! Walking a session back turn by turn. Each read's turn ends where the last one began, so the pages make up the session from its first
user message on; reading several turns at a time reads the same turns. -/

/-- The messages from the first user message on. -/
def fromFirstUser (rows : List MessageRow) : List MessageRow := rows.dropWhile fun row => row.role ≠ .user

namespace MessageProjection

variable (projection : MessageProjection)

def upTo (endOrd : Option ℕ) : List MessageRow := projection.rows.filter (before endOrd)

variable {projection} {endOrd : Option ℕ}

theorem filter_split {rows : List MessageRow} (hordered : rows.Pairwise fun a b => a.ord < b.ord)
    (p : MessageRow → Bool) (k : ℕ) :
    rows.filter p = (rows.filter fun row => row.ord < k && p row) ++ rows.filter fun row => k ≤ row.ord && p row := by
  induction rows with
  | nil => rfl
  | cons row rows ih =>
    obtain ⟨hrow, hrows⟩ := List.pairwise_cons.mp hordered
    by_cases hk : row.ord < k
    · have hk' := Nat.not_le.mpr hk
      by_cases hp : p row = true <;> simp [hk, hk', hp, ih hrows]
    · have hnone : rows.filter (fun row => decide (row.ord < k) && p row) = [] := by
        refine List.filter_eq_nil_iff.mpr fun other hother => ?_
        have := hrow other hother
        simp only [Bool.and_eq_true, decide_eq_true_eq]
        omega
      have hall : rows.filter (fun row => decide (k ≤ row.ord) && p row) = rows.filter p := by
        refine List.filter_congr fun other hother => ?_
        have := hrow other hother
        simp only [show k ≤ other.ord by omega, decide_true, Bool.true_and]
      have hk' := Nat.not_lt.mp hk
      by_cases hp : p row = true <;> simp [hk, hk', hp, hnone, hall]

theorem readLatestTurn_none (h : projection.readLatestTurn endOrd = none) : ∀ row ∈ projection.upTo endOrd, row.role ≠ .user := by
  intro row hrow huser
  unfold readLatestTurn at h
  obtain ⟨hmem, hbefore⟩ := List.mem_filter.mp hrow
  have hne : projection.rows.filter (fun row => row.role = .user && before endOrd row) ≠ [] :=
    List.ne_nil_of_mem (List.mem_filter.mpr ⟨hmem, by simp [huser, hbefore]⟩)
  rw [List.getLast?_eq_some_getLast hne] at h
  cases h

theorem readLatestTurn_some {latest : LatestTurn} (h : projection.readLatestTurn endOrd = some latest) :
    latest.boundary ∈ projection.upTo endOrd ∧ latest.boundary.role = .user := by
  unfold readLatestTurn at h
  rcases hlast : (projection.rows.filter fun row => row.role = .user && before endOrd row).getLast? with _ | prompt
  · rw [hlast] at h
    cases h
  · rw [hlast] at h
    obtain ⟨hprompt, hp⟩ := List.mem_filter.mp (List.mem_of_getLast? hlast)
    rw [Bool.and_eq_true, decide_eq_true_eq] at hp
    obtain rfl := Option.some.inj h
    dsimp only
    rcases hturn : prompt.turnId with _ | turnId
    · exact ⟨List.mem_filter.mpr ⟨hprompt, hp.2⟩, hp.1⟩
    · have hmem : prompt ∈ projection.readTurnPrompts turnId := List.mem_filter.mpr ⟨hprompt, by simp [hturn, hp.1]⟩
      dsimp only
      have hsorted : (projection.readTurnPrompts turnId).Pairwise fun a b => a.ord < b.ord := projection.ordered.filter _
      rcases hprompts : projection.readTurnPrompts turnId with _ | ⟨first, prompts⟩
      · rw [hprompts] at hmem
        cases hmem
      · rw [hprompts] at hmem hsorted
        obtain ⟨hfirst, huser⟩ := List.mem_filter.mp
          (show first ∈ projection.readTurnPrompts turnId from hprompts ▸ List.mem_cons_self)
        rw [Bool.and_eq_true, decide_eq_true_eq, decide_eq_true_eq] at huser
        refine ⟨List.mem_filter.mpr ⟨hfirst, ?_⟩, huser.2⟩
        -- the first prompt of the turn is not after the one that named it
        have hle : first.ord ≤ prompt.ord := by
          rcases List.mem_cons.mp hmem with rfl | hmem
          · exact le_rfl
          · exact ((List.pairwise_cons.mp hsorted).1 prompt hmem).le
        have hbefore := hp.2
        unfold before at *
        rcases endOrd with _ | endOrd
        · rfl
        · simp only [Option.all_some, decide_eq_true_eq] at hbefore ⊢
          exact hle.trans_lt hbefore

/-- What a turn's boundary splits: the rows before it, and those from it on, which it is the first of. -/
theorem upTo_split {boundary : MessageRow} (hboundary : boundary ∈ projection.upTo endOrd) :
    projection.upTo endOrd = projection.upTo (some boundary.ord) ++
        projection.rows.filter (fun row => boundary.ord ≤ row.ord && before endOrd row) ∧
      (projection.rows.filter fun row => boundary.ord ≤ row.ord && before endOrd row).head? = some boundary := by
  obtain ⟨hmem, hbefore⟩ := List.mem_filter.mp hboundary
  constructor
  · unfold upTo
    rw [filter_split projection.ordered (before endOrd) boundary.ord]
    congr 1
    refine List.filter_congr fun row _ => ?_
    unfold before at *
    rcases endOrd with _ | endOrd
    · simp
    · simp only [Option.all_some, decide_eq_true_eq] at hbefore ⊢
      by_cases h : row.ord < boundary.ord
      · simp [h, h.trans hbefore]
      · simp [h]
  · have hturn : boundary ∈ projection.rows.filter fun row => boundary.ord ≤ row.ord && before endOrd row :=
      List.mem_filter.mpr ⟨hmem, by simp [hbefore]⟩
    have hsorted : (projection.rows.filter fun row => boundary.ord ≤ row.ord && before endOrd row).Pairwise
        fun a b => a.ord < b.ord := projection.ordered.filter _
    rcases hrows : projection.rows.filter (fun row => boundary.ord ≤ row.ord && before endOrd row) with _ | ⟨first, rest⟩
    · rw [hrows] at hturn
      cases hturn
    · have hfirst := (List.mem_filter.mp
        (show first ∈ projection.rows.filter _ from hrows ▸ List.mem_cons_self)).2
      rw [Bool.and_eq_true, decide_eq_true_eq] at hfirst
      rw [hrows] at hturn hsorted
      rcases List.mem_cons.mp hturn with rfl | hrest
      · exact congrArg List.head? hrows
      · have := (List.pairwise_cons.mp hsorted).1 boundary hrest
        omega

theorem fromFirstUser_split {boundary : MessageRow} (hboundary : boundary ∈ projection.upTo endOrd)
    (huser : boundary.role = .user) :
    fromFirstUser (projection.upTo endOrd) = fromFirstUser (projection.upTo (some boundary.ord)) ++
      projection.rows.filter (fun row => boundary.ord ≤ row.ord && before endOrd row) := by
  obtain ⟨hsplit, hhead⟩ := upTo_split hboundary
  obtain ⟨rest, hrest⟩ := List.head?_eq_some_iff.mp hhead
  unfold fromFirstUser
  rw [hsplit, hrest, List.dropWhile_append]
  have hkeep : (boundary :: rest).dropWhile (fun row => row.role ≠ .user) = boundary :: rest := by
    rw [List.dropWhile_cons, if_neg (by simp [huser])]
  rw [hkeep]
  split_ifs with hempty
  · rw [List.isEmpty_iff.mp hempty, List.nil_append]
  · rfl

end MessageProjection

section
variable {M : Type} (hydrate : MessageRow → M) (projection : MessageProjection)

/-- A read's page: empty where no user message is left, and else a turn, whose cursor is its boundary's where anything is before it. -/
inductive TurnRead (endOrd : Option ℕ) (page : AgentMessagePage M) : Prop where
  | none (messages : page.messages = []) (nextCursor : page.nextCursor = none)
      (noUser : ∀ row ∈ projection.upTo endOrd, row.role ≠ .user) : TurnRead endOrd page
  | turn (boundary : MessageRow) (mem : boundary ∈ projection.upTo endOrd) (user : boundary.role = .user)
      (messages : page.messages =
        (projection.rows.filter fun row => boundary.ord ≤ row.ord && before endOrd row).map hydrate)
      (nextCursor : page.nextCursor = if projection.upTo (some boundary.ord) =
          [] then none else some boundary.ord) : TurnRead endOrd page

variable {hydrate projection} {endOrd : Option ℕ}

variable {page : AgentMessagePage M}

theorem readLatestTurnView_ok (h : readLatestTurnView hydrate projection endOrd = .ok page) :
    TurnRead hydrate projection endOrd page := by
  unfold readLatestTurnView at h
  rcases hlatest : projection.readLatestTurn endOrd with _ | latest
  · rw [hlatest] at h
    dsimp only at h
    split_ifs at h
    obtain rfl := Except.ok.inj h
    exact .none rfl rfl (MessageProjection.readLatestTurn_none hlatest)
  · rw [hlatest] at h
    dsimp only at h
    split_ifs at h with _ hany
    · obtain rfl := Except.ok.inj h
      obtain ⟨hmem, huser⟩ := MessageProjection.readLatestTurn_some hlatest
      refine .turn latest.boundary hmem huser rfl ?_
      rw [if_neg]
      obtain ⟨row, hrow, hlt⟩ := List.any_eq_true.mp hany
      exact List.ne_nil_of_mem (List.mem_filter.mpr ⟨hrow, by simpa [before] using hlt⟩)
    · obtain rfl := Except.ok.inj h
      obtain ⟨hmem, huser⟩ := MessageProjection.readLatestTurn_some hlatest
      refine .turn latest.boundary hmem huser rfl ?_
      rw [if_pos]
      refine List.filter_eq_nil_iff.mpr fun row hrow hbefore => hany ?_
      exact List.any_eq_true.mpr ⟨row, hrow, by simpa [before] using hbefore⟩

theorem status_error (e : AgentMessagePageError) : e.status = 409 := by cases e <;> rfl

theorem following_view_ok {next : Option ℕ} (h : following (readLatestTurnView hydrate projection) endOrd = .ok (page, next)) :
    TurnRead hydrate projection endOrd page ∧ next = page.nextCursor := by
  unfold following at h
  rcases hview : readLatestTurnView hydrate projection endOrd with e | read
  · rw [hview] at h
    cases h
  · rw [hview] at h
    cases h
    exact ⟨readLatestTurnView_ok hview, rfl⟩

/-- Each cursor leaves fewer rows before it. -/
theorem following_view_back {next : ℕ} (h : following (readLatestTurnView hydrate projection) endOrd = .ok (page, some next)) :
    (projection.upTo (some next)).length < (projection.upTo endOrd).length := by
  obtain ⟨hread, hnext⟩ := following_view_ok h
  cases hread with
  | none _ hcursor => cases hnext.trans hcursor
  | turn boundary hmem _ _ hcursor =>
    rw [hcursor] at hnext
    split_ifs at hnext
    obtain rfl := Option.some.inj hnext
    obtain ⟨hsplit, hhead⟩ := MessageProjection.upTo_split hmem
    obtain ⟨rest, hrest⟩ := List.head?_eq_some_iff.mp hhead
    have hlength := congrArg List.length hsplit
    rw [hrest, List.length_append, List.length_cons] at hlength
    omega

theorem walk_pages {n : ℕ} {pages : List (AgentMessagePage M)}
    (h : walk (following (readLatestTurnView hydrate projection)) n endOrd = some (.ok pages)) :
    pages.reverse.flatMap AgentMessagePage.messages = (fromFirstUser (projection.upTo endOrd)).map hydrate := by
  induction n generalizing endOrd pages with
  | zero => cases h
  | succ n ih =>
    rcases hread : following (readLatestTurnView hydrate projection) endOrd with e | ⟨page, next⟩
    · rw [walk_error hread] at h
      cases h
    · obtain ⟨hpage, hnext⟩ := following_view_ok hread
      cases hpage with
      | none hmessages hcursor hnone =>
        obtain rfl := hnext.trans hcursor
        rw [walk_last hread] at h
        cases h
        have hdrop : fromFirstUser (projection.upTo endOrd) = [] :=
          List.dropWhile_eq_nil_iff.mpr fun row hrow => by simpa using hnone row hrow
        simp [hmessages, hdrop]
      | turn boundary hmem huser hmessages hcursor =>
        rw [MessageProjection.fromFirstUser_split hmem huser, List.map_append, ← hmessages]
        by_cases hfirst : projection.upTo (some boundary.ord) = []
        · rw [hcursor, if_pos hfirst] at hnext
          subst hnext
          rw [walk_last hread] at h
          cases h
          simp [hfirst, fromFirstUser]
        · rw [hcursor, if_neg hfirst] at hnext
          subst hnext
          rw [walk_next hread] at h
          obtain ⟨r, hr, hmap⟩ := Option.map_eq_some_iff.mp h
          rcases r with e | rest
          · cases hmap
          · cases hmap
            rw [List.reverse_cons, List.flatMap_append, ih hr]
            simp

end

end Claxedo.Transcript

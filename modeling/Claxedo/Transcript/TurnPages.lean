import Claxedo.Transcript.TurnWalk

/-! Reading several turns at a time. However many turns a page takes, the pages hold the turns of the walk turn by turn,
    in its order. -/

namespace Claxedo.Transcript

open Claxedo.Lib Claxedo.Store

section
variable {M ε : Type} (turnCap byteCap : ℕ) (read : Option ℕ → Except ε (AgentMessagePage M)) (request : TurnPageRequest M)

/-- One read of a page of turns, with the cursor of its oldest turn. -/
def readPage (before : Option ℕ) : Except ε (List (PageTurn M) × Option ℕ) :=
  (readTurnPage turnCap byteCap read request before).map fun turns => (turns, turns.head?.bind PageTurn.cursor)

def sentTurn (page : AgentMessagePage M) : PageTurn M := ⟨request.projectTurn page.messages, page.nextCursor⟩

/-- The turns of a walk's pages, newest first, as they are sent, oldest first. -/
def turnsOf (pages : List (AgentMessagePage M)) : List (PageTurn M) :=
  (pages.filter fun page => !page.messages.isEmpty).reverse.map (sentTurn request)

variable {read request}

theorem turnsOf_append (pages pages' : List (AgentMessagePage M)) :
    turnsOf request (pages ++ pages') = turnsOf request pages' ++ turnsOf request pages := by
  unfold turnsOf
  rw [List.filter_append, List.reverse_append, List.map_append]

theorem turnsOf_cons {page : AgentMessagePage M} (h : page.messages.isEmpty = false) (pages : List (AgentMessagePage M)) :
    turnsOf request (page :: pages) = turnsOf request pages ++ [sentTurn request page] := by
  rw [← List.singleton_append, turnsOf_append]
  simp [turnsOf, h]

/-- What the turns taken in one page are of a walk's result: all that is left, or what comes before the rest of it. -/
inductive Taken (request : TurnPageRequest M) (read : Option ℕ → Except ε (AgentMessagePage M)) (n : ℕ) :
    List (PageTurn M) → Except ε (List (AgentMessagePage M)) → Prop where
  | nothing (page : AgentMessagePage M) (empty : page.messages.isEmpty = true) : Taken request read n [] (.ok [page])
  | all (pages : List (AgentMessagePage M)) (turns : List (PageTurn M)) (hturns : turnsOf request pages = turns)
      (ne : turns ≠ []) (last : turns.head?.bind PageTurn.cursor = none) : Taken request read n turns (.ok pages)
  | part (pages : List (AgentMessagePage M)) (turns : List (PageTurn M)) (hturns : turnsOf request pages = turns) (next : ℕ)
      (cursor : turns.head?.bind PageTurn.cursor = some next) (m : ℕ) (hm : m < n) (rest : Except ε (List (AgentMessagePage M)))
      (hrest : walk (following read) m (some next) = some rest) :
      Taken request read n turns (rest.map (pages ++ ·))

section
variable {before : Option ℕ} {page : AgentMessagePage M} {n : ℕ} {r : Except ε (List (AgentMessagePage M))}

theorem following_ok (h : read before = .ok page) : following read before = .ok (page, page.nextCursor) := by
  unfold following
  rw [h]
  rfl

theorem walk_following (h : read before = .ok page) {next : ℕ} (hnext : page.nextCursor = some next)
    (hwalk : walk (following read) n before = some r) :
    ∃ m rest, m < n ∧ walk (following read) m (some next) = some rest ∧ r = rest.map (page :: ·) := by
  cases n with
  | zero => cases hwalk
  | succ n =>
    have hread := following_ok h
    rw [hnext] at hread
    rw [walk_next hread] at hwalk
    obtain ⟨rest, hrest, rfl⟩ := Option.map_eq_some_iff.mp hwalk
    exact ⟨n, rest, n.lt_succ_self, hrest, rfl⟩

theorem walk_following_last (h : read before = .ok page) (hnext : page.nextCursor = none)
    (hwalk : walk (following read) n before = some r) : r = .ok [page] := by
  cases n with
  | zero => cases hwalk
  | succ n =>
    have hread := following_ok h
    rw [hnext] at hread
    rw [walk_last hread] at hwalk
    exact (Option.some.inj hwalk).symm

theorem taken_one (h : read before = .ok page) (hne : page.messages.isEmpty = false)
    (hwalk : walk (following read) n before = some r) : Taken request read n [sentTurn request page] r := by
  have hturns : turnsOf request [page] = [sentTurn request page] := by simp [turnsOf, hne]
  rcases hnext : page.nextCursor with _ | next
  · rw [walk_following_last h hnext hwalk]
    exact .all [page] _ hturns (List.cons_ne_nil _ _) hnext
  · obtain ⟨m, rest, hm, hrest, rfl⟩ := walk_following h hnext hwalk
    exact .part [page] _ hturns next hnext m hm rest hrest

theorem head?_append_one {turns : List (PageTurn M)} (hne : turns ≠ []) (turn : PageTurn M) : (turns ++ [turn]).head? =
    turns.head? := by
  rw [List.head?_append]
  rcases turns with _ | ⟨first, turns⟩
  · exact absurd rfl hne
  · rfl

theorem Taken.cons (hne : page.messages.isEmpty = false) {next : ℕ} (hnext : page.nextCursor = some next) {m : ℕ} (hm : m < n)
    {rest : Except ε (List (AgentMessagePage M))} (hrest : walk (following read) m (some next) = some rest) {taken : List (PageTurn M)}
    (h : Taken request read m taken rest) : Taken request read n (taken ++ [sentTurn request page]) (rest.map (page :: ·)) := by
  cases h with
  | nothing last empty =>
    have hturns : turnsOf request [page] = [sentTurn request page] := by simp [turnsOf, hne]
    exact .part [page] [sentTurn request page] hturns next hnext m hm _ hrest
  | all pages _ hturns ne last =>
    exact .all (page :: pages) _ (by rw [turnsOf_cons hne, hturns]) (by simp) (by rw [head?_append_one ne]; exact last)
  | part pages _ hturns cursor hcursor m' hm' rest' hrest' =>
    have hne' : taken ≠ [] := by
      rintro rfl
      cases hcursor
    have hmap : (rest'.map (pages ++ ·)).map (page :: ·) = rest'.map ((page :: pages) ++ ·) := by rcases rest' with e | rest' <;> rfl
    rw [hmap]
    exact .part (page :: pages) _ (by rw [turnsOf_cons hne, hturns]) cursor (by rw [head?_append_one hne']; exact hcursor) m'
      (hm'.trans hm) rest' hrest'

end

theorem exists_turn {before : Option ℕ} (h : ¬ ∀ page, read before = .ok page → page.messages.isEmpty = true) :
    ∃ page, read before = .ok page ∧ page.messages.isEmpty = false := by
  by_contra hnone
  refine h fun page hread => ?_
  cases hmessages : page.messages.isEmpty with
  | true => rfl
  | false => exact absurd ⟨page, hread, hmessages⟩ hnone

variable {n : ℕ} {r : Except ε (List (AgentMessagePage M))}

theorem readTurns_ends (hempty : ∀ before page, read before = .ok page → page.messages.isEmpty = true → page.nextCursor = none)
    (byteCap : Option ℕ) (more : ℕ) (turns : List (PageTurn M)) (lines bytes : ℕ) (before : Option ℕ)
    (hwalk : walk (following read) n before = some r) (hnone : ∀ page, read before = .ok page → page.messages.isEmpty = true) :
    (∃ e, readTurns read request byteCap more turns lines bytes before = .error e ∧ r = .error e) ∨
      ∃ taken, readTurns read request byteCap more turns lines bytes before = .ok (taken ++ turns) ∧ Taken request read n taken r := by
  rcases hread : read before with e | page
  · left
    cases n with
    | zero => cases hwalk
    | succ n =>
      rw [walk_error (show following read before = .error e from by unfold following; rw [hread]; rfl)] at hwalk
      refine ⟨e, ?_, (Option.some.inj hwalk).symm⟩
      unfold readTurns
      rw [hread]
  · right
    have hmessages := hnone page hread
    rw [walk_following_last hread (hempty before page hread hmessages) hwalk]
    refine ⟨[], ?_, .nothing page hmessages⟩
    unfold readTurns
    rw [hread]
    simp only [hmessages, if_true]
    rfl

theorem readTurns_taken (hempty : ∀ before page, read before = .ok page → page.messages.isEmpty = true → page.nextCursor = none)
    (byteCap : Option ℕ) (more : ℕ) (turns : List (PageTurn M)) (lines bytes : ℕ) (before : Option ℕ)
    (hwalk : walk (following read) n before = some r) :
    (∃ e, readTurns read request byteCap more turns lines bytes before = .error e ∧ r = .error e) ∨
      ∃ taken, readTurns read request byteCap more turns lines bytes before = .ok (taken ++ turns) ∧ Taken request read n taken r := by
  induction more generalizing turns lines bytes before n r with
  | zero =>
    by_cases hnone : ∀ page, read before = .ok page → page.messages.isEmpty = true
    · exact readTurns_ends hempty byteCap 0 turns lines bytes before hwalk hnone
    · obtain ⟨page, hread, hmessages⟩ := exists_turn hnone
      right
      refine ⟨_, ?_, taken_one hread hmessages hwalk⟩
      unfold readTurns
      rw [hread]
      simp only [hmessages, Bool.false_eq_true, if_false]
      rfl
  | succ more ih =>
    by_cases hnone : ∀ page, read before = .ok page → page.messages.isEmpty = true
    · exact readTurns_ends hempty byteCap (more + 1) turns lines bytes before hwalk hnone
    · obtain ⟨page, hread, hmessages⟩ := exists_turn hnone
      have hone : Taken request read n [sentTurn request page] r := taken_one hread hmessages hwalk
      unfold readTurns
      rw [hread]
      simp only [hmessages, Bool.false_eq_true, if_false]
      rcases hnext : page.nextCursor with _ | next
      · exact .inr ⟨_, rfl, by simpa [sentTurn, hnext] using hone⟩
      · dsimp only
        by_cases hcaps : lines + request.estimateTurnLines page.messages < request.rows * (1 + TURN_PAGE_FILL_SCREENS) ∧
            byteCap.all (bytes + request.byteLength (request.projectTurn page.messages) < ·) = true
        · rw [if_pos hcaps]
          obtain ⟨m, rest, hm, hrest, rfl⟩ := walk_following hread hnext hwalk
          rcases ih (⟨request.projectTurn page.messages, some next⟩ :: turns) (lines + request.estimateTurnLines page.messages)
            (bytes + request.byteLength (request.projectTurn page.messages)) (some next) hrest with ⟨e, hloop, rfl⟩ | ⟨taken, hloop, htaken⟩
          · exact .inl ⟨e, hloop, rfl⟩
          · refine .inr ⟨taken ++ [sentTurn request page], ?_, htaken.cons hmessages hnext hm hrest⟩
            rw [hloop]
            simp [sentTurn, hnext]
        · rw [if_neg hcaps]
          exact .inr ⟨_, rfl, by simpa [sentTurn, hnext] using hone⟩

theorem walk_readPage (hempty : ∀ before page, read before = .ok page → page.messages.isEmpty = true → page.nextCursor = none)
    {before : Option ℕ} (hwalk : walk (following read) n before = some r) :
    ∃ k r', walk (readPage turnCap byteCap read request) k before = some r' ∧
      ((∃ e, r = .error e ∧ r' = .error e) ∨ ∃ pages turns, r = .ok pages ∧ r' = .ok turns ∧ turns.reverse.flatten =
          turnsOf request pages) := by
  induction n using Nat.strong_induction_on generalizing before r with
  | _ n ih =>
    have hpage (taken : List (PageTurn M)) (h : readTurnPage turnCap byteCap read request before = .ok taken) :
        readPage turnCap byteCap read request before = .ok (taken, taken.head?.bind PageTurn.cursor) := by
      unfold readPage
      rw [h]
      rfl
    rcases readTurns_taken hempty (if before.isNone then some byteCap else none) (turnCap - 1) [] 0 0 before hwalk with
      ⟨e, hloop, rfl⟩ | ⟨taken, hloop, htaken⟩
    · have hread : readPage turnCap byteCap read request before = .error e := by
        unfold readPage
        rw [show readTurnPage turnCap byteCap read request before = .error e from hloop]
        rfl
      exact ⟨1, _, walk_error hread 0, .inl ⟨e, rfl, rfl⟩⟩
    · rw [List.append_nil] at hloop
      have hread := hpage taken hloop
      cases htaken with
      | nothing page empty =>
        refine ⟨1, _, walk_last hread 0, .inr ⟨_, _, rfl, rfl, ?_⟩⟩
        simp [turnsOf, empty]
      | all pages _ hturns ne last =>
        rw [last] at hread
        exact ⟨1, _, walk_last hread 0, .inr ⟨_, _, rfl, rfl, by simp [hturns]⟩⟩
      | part pages _ hturns next hcursor m hm rest hrest =>
        rw [hcursor] at hread
        obtain ⟨k, r', hr', hsame⟩ := ih m hm hrest
        refine ⟨k + 1, _, by rw [walk_next hread, hr']; rfl, ?_⟩
        rcases hsame with ⟨e, rfl, rfl⟩ | ⟨pages', turns, rfl, rfl, hflat⟩
        · exact .inl ⟨e, rfl, rfl⟩
        · refine .inr ⟨_, _, rfl, rfl, ?_⟩
          rw [List.reverse_cons, List.flatten_append, hflat, turnsOf_append, hturns]
          simp

end

/-- A walk back through the latest turns ends; unless a read is refused, its pages, oldest first, make up the session's messages from
its first user message on, and pages of several turns hold the same turns in the same order. -/
theorem walk_back {M : Type} (hydrate : MessageRow → M) (projection : MessageProjection) :
    ∃ r, walk (following (readLatestTurnView hydrate projection)) (projection.rows.length + 1) none = some r ∧
      ((∃ e, r = .error e ∧ e.status = 409) ∨
        ∃ pages, r = .ok pages ∧
          pages.reverse.flatMap AgentMessagePage.messages = (fromFirstUser projection.rows).map hydrate) ∧
      ∀ (turnCap byteCap : ℕ) (request : TurnPageRequest M),
        ∃ n r', walk (readPage turnCap byteCap (readLatestTurnView hydrate projection) request) n none = some r' ∧
          ((∃ e, r = .error e ∧ r' = .error e) ∨
            ∃ pages turns, r = .ok pages ∧ r' = .ok turns ∧ turns.reverse.flatten = turnsOf request pages) := by
  have hall : projection.upTo none = projection.rows := List.filter_eq_self.mpr fun _ _ => rfl
  obtain ⟨r, hr⟩ := walk_ends (fun endOrd => (projection.upTo endOrd).length)
    (fun _ _ _ h => following_view_back h) (none : Option ℕ)
  rw [hall] at hr
  refine ⟨r, hr, ?_, fun turnCap byteCap request => walk_readPage turnCap byteCap ?_ hr⟩
  · rcases r with e | pages
    · exact .inl ⟨e, rfl, status_error e⟩
    · have hpages := walk_pages hr
      rw [hall] at hpages
      exact .inr ⟨pages, rfl, hpages⟩
  · intro before page hread hmessages
    cases readLatestTurnView_ok hread with
    | none _ hcursor => exact hcursor
    | turn boundary hmem _ hturn =>
      obtain ⟨rest, hrest⟩ := List.head?_eq_some_iff.mp (MessageProjection.upTo_split hmem).2
      rw [hturn, hrest] at hmessages
      cases hmessages

/-- The messages of a session of two turns. -/
def twoTurnMessages : MessageProjection := .ofRun meets_twoTurns "s"

theorem walk_back_twoTurns :
    ∃ pages, walk (following (readLatestTurnView MessageRow.id twoTurnMessages)) 5 none = some (.ok pages) ∧
      pages.map AgentMessagePage.messages = [["u2", "a2"], ["u1", "a1"]] ∧
      pages.reverse.flatMap AgentMessagePage.messages = (fromFirstUser twoTurnMessages.rows).map MessageRow.id := by
  have hwalk : walk (following (readLatestTurnView MessageRow.id twoTurnMessages)) 5 none =
      some (.ok [⟨["u2", "a2"], some 2⟩, ⟨["u1", "a1"], none⟩]) := by decide +kernel
  have hlength : twoTurnMessages.rows.length = 4 := by decide +kernel
  obtain ⟨r, hr, hpages, -⟩ := walk_back MessageRow.id twoTurnMessages
  rw [hlength] at hr
  obtain rfl := Option.some.inj (hwalk.symm.trans hr)
  obtain ⟨e, h, -⟩ | ⟨pages, h, hflat⟩ := hpages
  · cases h
  · obtain rfl := Except.ok.inj h
    exact ⟨_, hwalk, rfl, hflat⟩

end Claxedo.Transcript

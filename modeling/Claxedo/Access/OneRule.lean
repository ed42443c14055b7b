import Claxedo.Access.Standing

/-! A share reaches its one session and nothing else, and every form of the rule tells the same. -/

namespace Claxedo.Access

open Claxedo.Lib.Sql

/-- The column a resource's table is keyed by. -/
def ResourceKind.key : ResourceKind → Column
  | .workspace => .workspaceId
  | .session => .sessionId
  | .project => .projectId
  | .org => .orgId

/-- The primary keys of the tables of resources. -/
def Keyed (db : Tables) : Prop :=
  ∀ K : ResourceKind, ∀ a ∈ db K.table, ∀ b ∈ db K.table, a K.key = b K.key → a = b

section
variable {db : Tables} {principal : AuthorizationPrincipal} {K : ResourceKind} {resource : Resource K} {row : Row Column}

theorem Names.key_eq {row' : Row Column} (h : Names K resource row) (h' : Names K resource row') : row K.key = row' K.key := by
  cases K with
  | workspace => exact Eq.trans h h'.symm
  | session => exact h.1.trans h'.1.symm
  | project => exact h.1.trans h'.1.symm
  | org => exact Eq.trans h h'.symm

/-- Of the one row that a resource names, the query tells what the rule holds. -/
theorem may_of_names (hkeys : Keyed db) (hrow : row ∈ db K.table) (hnames : Names K resource row) (action : ActionOn K) :
    may principal db action resource = true ↔ Allowed db principal action (rowValues K row) := by
  rw [may_iff]
  constructor
  · rintro ⟨row', hrow', hnames', hallowed⟩
    rwa [hkeys K row hrow row' hrow' (hnames.key_eq hnames')]
  · intro hallowed
    exact ⟨row, hrow, hnames, hallowed⟩

/-- Whoever a rule lets in is active and stands in the organization of the resource. -/
theorem stands_of_allowed {action : ActionOn K} (h : Allowed db principal action (rowValues K row)) :
    Active db principal ∧ Stands db (row .orgId) (.text principal.userId) := by
  cases K with
  | workspace =>
    obtain ⟨hactive, -, -, hstands, -⟩ := allowed_workspace.mp h
    exact ⟨hactive, hstands⟩
  | session =>
    obtain ⟨hactive, -, hstands, -⟩ := allowed_session.mp h
    exact ⟨hactive, hstands⟩
  | project => exact stands_of_allowed_project h
  | org =>
    obtain ⟨hactive, hrule⟩ := allowed_org.mp h
    exact ⟨hactive, hrule.stands⟩

theorem Active.person (h : Active db principal) : ActivePerson db (.text principal.userId) := by
  unfold Active at h
  split at h
  · exact h
  · obtain ⟨_, _, _, _, _, hperson⟩ := h
    exact hperson

theorem tables_template (hkind : K ≠ .session) (withActor : Bool) (action : ActionOn K) :
    .sessionShareGrants ∉ (template withActor action).tables := by
  cases K with
  | session => exact absurd rfl hkind
  | workspace => cases action <;> cases withActor <;> decide
  | project => cases action <;> cases withActor <;> decide
  | org => cases action <;> cases withActor <;> decide

variable {db' : Tables} {action : SessionAction}

/-- No rule but a session's looks at shares. -/
theorem allowed_congr (hkind : K ≠ .session) (hsame : ∀ t, t ≠ .sessionShareGrants → db' t = db t) {action : ActionOn K} :
    Allowed db principal action row ↔ Allowed db' principal action row := by
  unfold Allowed Cond.Holds
  rw [Cond.eval_congr unscoped _ fun t ht => (hsame t fun hshares => tables_template hkind _ action (hshares ▸ ht)).symm]

theorem may_congr_shares (hkind : K ≠ .session) (hsame : ∀ t, t ≠ .sessionShareGrants → db' t = db t) (action : ActionOn K)
    (resource : Resource K) : may principal db action resource = may principal db' action resource := by
  have htable : K.table ≠ .sessionShareGrants := by cases K <;> decide
  rw [Bool.eq_iff_iff, may_iff, may_iff, hsame K.table htable]
  exact exists_congr fun row => and_congr_right fun _ => and_congr_right fun _ => allowed_congr hkind hsame

/-- Two states that agree on what a session's rule may depend on. -/
structure SameForSession (ref : SessionRef) (db db' : Tables) : Prop where
  tables : ∀ t ∈ [Table.sessions, .workspaces, .projects, .users, .actors], db' t = db t
  shares : ∀ g, g .sessionId = .text ref.sessionId → (g ∈ db' .sessionShareGrants ↔ g ∈ db .sessionShareGrants)
  stands : ∀ org user, Stands db' org user ↔ Stands db org user

theorem SameForSession.shared {ref : SessionRef} (h : SameForSession ref db db') (send : Bool) :
    Shared db' principal send (.text ref.sessionId) ↔ Shared db principal send (.text ref.sessionId) := by
  unfold Shared ShareOf
  rw [h.tables .actors (by decide)]
  refine exists_congr fun g => ?_
  constructor
  · rintro ⟨hg, hshare⟩
    exact ⟨(h.shares g hshare.1.1).mp hg, hshare⟩
  · rintro ⟨hg, hshare⟩
    exact ⟨(h.shares g hshare.1.1).mpr hg, hshare⟩

theorem SameForSession.rule {ref : SessionRef} (h : SameForSession ref db db') {s : Row Column}
    (hid : s .sessionId = .text ref.sessionId) :
    Active db principal ∧ SessionRule db principal action s ↔ Active db' principal ∧ SessionRule db' principal action s := by
  unfold SessionRule LiveProject Active ActivePerson
  rw [hid]
  simp only [h.tables .workspaces (by decide), h.tables .projects (by decide), h.tables .users (by decide),
    h.tables .actors (by decide), h.stands, h.shared]

theorem SameForSession.may_eq {resource : Resource .session} (h : SameForSession resource db db') (action : ActionOn .session) :
    may principal db action resource = may principal db' action resource := by
  rw [Bool.eq_iff_iff, may_iff, may_iff]
  change (∃ s ∈ db .sessions, _) ↔ ∃ s ∈ db' .sessions, _
  rw [h.tables .sessions (by decide)]
  refine exists_congr fun s => and_congr_right fun _ => and_congr_right fun hnames => ?_
  exact allowed_session.trans ((h.rule hnames.1).trans allowed_session.symm)

theorem owner_of_allowed (haction : action = .control ∨ action = .manageShares) (h : SessionRule db principal action row) :
    ∃ w ∈ db .workspaces, w .workspaceId = row .workspaceId ∧ w .ownerUserId = .text principal.userId := by
  obtain ⟨-, -, w, hw, hid, -, -, -, -, -, -, -, howner | ⟨hshares, -⟩⟩ := h
  · exact ⟨w, hw, hid, howner⟩
  · rcases haction with rfl | rfl <;> rcases hshares with h | h <;> cases h

theorem SessionRule.read_of_send (h : SessionRule db principal .send row) : SessionRule db principal .read row := by
  obtain ⟨hlive, hstands, w, hw, hid, hnull, horg, hproject, hdeleted, hlives, howner, hownerStands, hadmitted⟩ := h
  refine ⟨hlive, hstands, w, hw, hid, hnull, horg, hproject, hdeleted, hlives, howner, hownerStands, hadmitted.imp_right ?_⟩
  rintro ⟨-, g, hg, hsession, hrevoked, -, hhuman, htarget⟩
  exact ⟨.inl rfl, g, hg, hsession, hrevoked, nofun, hhuman, htarget⟩

theorem SessionRule.owner (h : SessionRule db principal action row) :
    ∃ w ∈ db .workspaces, w .workspaceId = row .workspaceId ∧ ActivePerson db (w .ownerUserId) ∧
      Stands db (w .orgId) (w .ownerUserId) := by
  obtain ⟨-, -, w, hw, hid, -, -, -, -, -, howner, hownerStands, -⟩ := h
  exact ⟨w, hw, hid, howner, hownerStands⟩

end

/-! One rule in every form: the person a column names, the share a token is recorded under, and what the
whole of it keeps of shares. -/

section
variable {db : Tables} {principal : AuthorizationPrincipal} {env : Env Column}

/-- A person's reading without an actor. -/
def person (userId : String) : AuthorizationPrincipal := { userId }

def reading : ActionOn .session := SessionAction.read

theorem sessionReaderSql_answers {userId s : String} {user : ColumnOf} (hs : s ∉ ruleLabels) (huser : user.label ∉ ruleLabels)
    (hvalue : env user.label user.column = .text userId) :
    (⟨sessionReaderSql s user, []⟩ : BoundSql).Answers db env
      (Allowed db (person userId) reading (env s)) := by
  let t : Rule Marker := rule false user.scalar ACTOR reading (.col s)
  have hsubst : sessionReaderSql s user = t.subst fun _ => .hole () := rfl
  have hholes : t.holes = [] := rfl
  refine ⟨filled (person userId) t, fun more => ?_, (holds_filled t).trans ?_⟩
  · have hfill := Cond.fill_subst (person userId).bound more t
    rw [hholes] at hfill
    rw [hsubst]
    exact hfill
  · have hfresh : ∀ label ∈ [s, user.label], label ∉ ruleLabels := by
      intro label hlabel
      rcases List.mem_cons.mp hlabel with rfl | hlabel
      · exact hs
      · rw [List.mem_singleton.mp hlabel]
        exact huser
    have hbound : (fun p => (named user.scalar ACTOR (.col s) p).eval db (person userId).bound env) =
        Sum.elim (person userId).bound (env s) := by
      funext p
      rcases p with (_ | _) | c
      · exact hvalue
      · rfl
      · rfl
    have heval : t.eval db (person userId).bound env =
        (template false reading).eval db (fun p => (named user.scalar ACTOR (.col s) p).eval db (person userId).bound env) unscoped :=
      rule_eval hfresh (List.mem_cons_of_mem _ (List.mem_singleton.mpr rfl)) (scoped_actor _) fun _ =>
        show s ∈ [s, user.label] from List.mem_cons_self
    unfold Cond.Holds Allowed
    rw [heval, hbound]
    rfl

/-- The share under which a token is recorded, with what the row of the session tells left open. -/
def admittingTemplate (withActor : Bool) : Expr (Marker ⊕ Column) :=
  admittingShareTemplate withActor (fun c => .hole (.inr c)) (.hole (.inl .user)) (.hole (.inl .actor))

theorem admittingShareSql_gives {s : String} (hs : s ∉ ruleLabels) :
    (admittingShareSql principal s).Gives db env
      ((admittingTemplate principal.actorId.isSome).eval db (valued principal (env s)) unscoped) := by
  let t := admittingShareTemplate principal.actorId.isSome (.col s) USER ACTOR
  refine ⟨t.subst fun p => .hole (principal.bound p), fun more => Scalar.fill_subst principal.bound more t, ?_⟩
  have hfilled : Stable db principal.bound id (fun p => .hole (principal.bound p)) (fun _ => True) t.labels :=
    ⟨fun _ _ _ => rfl, fun _ _ _ _ _ => trivial⟩
  rw [Scalar.eval_subst env trivial t hfilled]
  have hsubst : t = (admittingTemplate principal.actorId.isSome).subst (named USER ACTOR (.col s)) := by
    change admittingShareTemplate principal.actorId.isSome _ _ _ = _
    cases principal.actorId.isSome <;> rfl
  have hlabels : (admittingTemplate principal.actorId.isSome).labels ⊆ ruleLabels := by
    cases principal.actorId.isSome <;> decide
  have hscoped : (admittingTemplate principal.actorId.isSome).Scoped [] := by
    cases principal.actorId.isSome <;>
      simp [admittingTemplate, admittingShareTemplate, sharePredicateSql, text, Cond.Scoped, Scalar.Scoped, Rows.Scoped, Rows.scope]
  have hstable : Stable db (fun p => (named USER ACTOR (.col s) p).eval db principal.bound env) principal.bound
      (named USER ACTOR (.col s)) (Agree [s] env) ruleLabels :=
    stable_named (fun label hlabel => List.mem_singleton.mp hlabel ▸ hs) (scoped_user _) (scoped_actor _)
      fun _ => List.mem_singleton.mpr rfl
  have hbound : (fun p => (named USER ACTOR (.col s) p).eval db principal.bound env) = valued principal (env s) := by
    funext p
    rcases p with (_ | _) | c <;> rfl
  rw [hsubst, Scalar.eval_subst env (fun _ _ => rfl) _ (hstable.mono hlabels), hbound]
  exact Scalar.eval_agree (fun _ h => absurd h List.not_mem_nil) _ hscoped

/-- Null for the workspace's owner; for one whom a share admits, a share of theirs. -/
theorem admittingTemplate_eval (principal : AuthorizationPrincipal) {row w : Row Column} (hkeys : Keyed db) (hw : w ∈ db .workspaces)
    (hid : w .workspaceId = row .workspaceId) (hnull : w .workspaceId ≠ .null) :
    (w .ownerUserId = .text principal.userId →
        (admittingTemplate principal.actorId.isSome).eval db (valued principal row) unscoped = .null) ∧
      (w .ownerUserId ≠ .text principal.userId → Shared db principal false (row .sessionId) →
        ∃ g ∈ db .sessionShareGrants, ShareOf db principal false (row .sessionId) g ∧
          (admittingTemplate principal.actorId.isSome).eval db (valued principal row) unscoped = g .grantId) := by
  have hshare : ∀ g, (sharePredicateSql (fun c => .hole (.inr c)) false principal.actorId.isSome (.hole (.inl .user))
      (.hole (.inl .actor)) : Rule (Marker ⊕ Column)).Holds db (valued principal row)
      ((unscoped.set "rule_workspace" w).set "share" g) ↔ ShareOf db principal false (row .sessionId) g := fun g => by
    rw [holds_sharePredicate, Env.set_self]
  have hfound : ((db .workspaces).find? fun w => (Cond.eq (.col "rule_workspace" .workspaceId) (.hole (.inr .workspaceId)) :
      Rule (Marker ⊕ Column)).Holds db (valued principal row) (unscoped.set "rule_workspace" w)) = some w := by
    have hasks : ∀ v : Row Column, (Cond.eq (.col "rule_workspace" .workspaceId) (.hole (.inr .workspaceId)) :
        Rule (Marker ⊕ Column)).Holds db (valued principal row) (unscoped.set "rule_workspace" v) ↔
        v .workspaceId = row .workspaceId ∧ v .workspaceId ≠ .null := fun v => Cond.holds_eq
    rcases hfind : (db .workspaces).find? _ with _ | v
    · have hnone := List.find?_eq_none.mp hfind w hw
      rw [decide_eq_true_eq, hasks] at hnone
      exact absurd ⟨hid, hnull⟩ hnone
    · have hv := List.find?_some hfind
      rw [decide_eq_true_eq, hasks] at hv
      rw [hkeys .workspace v (List.mem_of_find?_eq_some hfind) w hw (hv.1.trans hid.symm)]
  have howner : (Cond.eq (.col "rule_workspace" .ownerUserId) (.hole (.inl .user)) : Rule (Marker ⊕ Column)).Holds db
      (valued principal row) (unscoped.set "rule_workspace" w) ↔ w .ownerUserId = .text principal.userId :=
    Cond.holds_eq.trans Value.is_text
  unfold admittingTemplate admittingShareTemplate
  rw [Scalar.eval_one_table, hfound]
  dsimp only
  rw [Scalar.eval_cases]
  refine ⟨fun h => ?_, fun h hshared => ?_⟩
  · rw [if_pos (howner.mpr h)]
    rfl
  · rw [if_neg (mt howner.mp h), Scalar.eval_one_table]
    rcases hfind : (db .sessionShareGrants).find? _ with _ | g
    · obtain ⟨g, hg, hof⟩ := hshared
      have hnone := List.find?_eq_none.mp hfind g hg
      rw [decide_eq_true_eq, hshare] at hnone
      exact absurd hof hnone
    · have hg := List.find?_some hfind
      rw [decide_eq_true_eq, hshare] at hg
      exact ⟨g, List.mem_of_find?_eq_some hfind, hg, rfl⟩

end

/-- What the rule keeps of shares in a state, for a person or an actor of theirs, and that its forms tell one thing. -/
structure OneRule (db : Tables) (principal : AuthorizationPrincipal) : Prop where
  /-- Nothing but a session is reached by a share. -/
  elsewhere : ∀ K, K ≠ .session → ∀ (action : ActionOn K) (resource : Resource K) (db' : Tables),
    (∀ t, t ≠ .sessionShareGrants → db' t = db t) → may principal db action resource = may principal db' action resource
  session : ∀ (action : ActionOn .session) (resource : Resource .session) (db' : Tables), SameForSession resource db db' →
    may principal db action resource = may principal db' action resource
  owner : ∀ (action : ActionOn .session) (resource : Resource .session), action = SessionAction.control ∨
      action = SessionAction.manageShares → may principal db action resource = true →
    ∀ w ∈ db .workspaces, w .workspaceId = .text (SessionRef.workspaceId resource) → w .ownerUserId = .text principal.userId
  reads : ∀ (sending : ActionOn .session) (resource : Resource .session), sending = SessionAction.send →
    may principal db sending resource = true → may principal db reading resource = true
  stands : ∀ K (action : ActionOn K) (resource : Resource K), may principal db action resource = true →
    ActivePerson db (.text principal.userId) ∧
      ∀ row ∈ db K.table, Names K resource row → Stands db (row .orgId) (.text principal.userId)
  holders : ∀ (action : ActionOn .session) (resource : Resource .session), may principal db action resource = true →
    ∀ w ∈ db .workspaces, w .workspaceId = .text (SessionRef.workspaceId resource) →
      ActivePerson db (w .ownerUserId) ∧ Stands db (w .orgId) (w .ownerUserId)
  guard : ∀ K (action : ActionOn K) (resource : Resource K) env,
    (mayGuard principal action resource).Answers db env (may principal db action resource = true)
  row : ∀ K (action : ActionOn K) (resource : Resource K), ∀ row ∈ db K.table, Names K resource row → ∀ (r : ResourceRow K) env,
    ResourceRow.label K r ∉ ruleLabels → ResourceRow.values env K r = rowValues K row →
    (maySql principal action r).Answers db env (may principal db action resource = true)
  reader : principal.actorId = none → ∀ (resource : Resource .session), ∀ row ∈ db .sessions, Names .session resource row →
    ∀ s (user : ColumnOf) env, s ∉ ruleLabels → user.label ∉ ruleLabels → env s = row →
    env user.label user.column = .text principal.userId →
    (⟨sessionReaderSql s user, []⟩ : BoundSql).Answers db env (may principal db reading resource = true)
  /-- The share a token of the session is recorded under. -/
  admits : ∀ (resource : Resource .session), ∀ row ∈ db .sessions, Names .session resource row → ∀ s env, s ∉ ruleLabels →
    env s = row → may principal db reading resource = true → ∀ w ∈ db .workspaces,
    w .workspaceId = .text (SessionRef.workspaceId resource) →
    (w .ownerUserId = .text principal.userId → (admittingShareSql principal s).Gives db env .null) ∧
      (w .ownerUserId ≠ .text principal.userId → ∃ g ∈ db .sessionShareGrants, ShareOf db principal false (row .sessionId) g ∧
        (admittingShareSql principal s).Gives db env (g .grantId))

section
variable {db : Tables} {principal : AuthorizationPrincipal}

theorem rule_of_may {action : ActionOn .session} {resource : Resource .session} (h : may principal db action resource = true) :
    ∃ row ∈ db .sessions, Names .session resource row ∧ SessionRule db principal action row := by
  obtain ⟨row, hrow, hnames, hallowed⟩ := (may_iff action resource).mp h
  exact ⟨row, hrow, hnames, (allowed_session.mp hallowed).2⟩

theorem workspace_unique (hkeys : Keyed db) {resource : Resource .session} {row v w : Row Column}
    (hnames : Names .session resource row) (hv : v ∈ db .workspaces) (hid : v .workspaceId = row .workspaceId)
    (hw : w ∈ db .workspaces) (hwid : w .workspaceId = .text (SessionRef.workspaceId resource)) : v = w :=
  hkeys .workspace v hv w hw (hid.trans (hnames.2.trans hwid.symm))

theorem share_reaches_only_its_session (hkeys : Keyed db) : OneRule db principal where
  elsewhere _ hkind action resource _ hsame := may_congr_shares hkind hsame action resource
  session action _ _ hsame := hsame.may_eq action
  owner action resource haction hmay w hw hwid := by
    obtain ⟨row, -, hnames, hrule⟩ := rule_of_may hmay
    obtain ⟨v, hv, hid, howner⟩ := owner_of_allowed haction hrule
    rw [← workspace_unique hkeys hnames hv hid hw hwid]
    exact howner
  reads sending resource hsending hmay := by
    subst hsending
    obtain ⟨row, hrow, hnames, hallowed⟩ := (may_iff _ resource).mp hmay
    have hrule := allowed_session.mp hallowed
    exact (may_iff reading resource).mpr ⟨row, hrow, hnames, allowed_session.mpr ⟨hrule.1, hrule.2.read_of_send⟩⟩
  stands K action resource hmay := by
    obtain ⟨row, hrow, hnames, hallowed⟩ := (may_iff action resource).mp hmay
    obtain ⟨hactive, hstands⟩ := stands_of_allowed hallowed
    refine ⟨hactive.person, fun row' hrow' hnames' => ?_⟩
    rw [hkeys K row' hrow' row hrow (hnames'.key_eq hnames)]
    exact hstands
  holders action resource hmay w hw hwid := by
    obtain ⟨row, -, hnames, hrule⟩ := rule_of_may hmay
    obtain ⟨v, hv, hid, howner⟩ := hrule.owner
    rw [← workspace_unique hkeys hnames hv hid hw hwid]
    exact howner
  guard K action resource env := by
    obtain ⟨cond, hfills, hholds⟩ := mayGuard_fills principal action resource
    exact ⟨cond, hfills, (hholds db env).trans (may_iff action resource).symm⟩
  row K action resource row hrow hnames r env hfresh hvalues := by
    obtain ⟨cond, hfills, hholds⟩ := (maySql_answers hfresh : (maySql principal action r).Answers db env _)
    refine ⟨cond, hfills, hholds.trans ?_⟩
    rw [hvalues]
    exact (may_of_names hkeys hrow hnames action).symm
  reader hactor resource row hrow hnames s user env hs huser henv hvalue := by
    obtain ⟨cond, hfills, hholds⟩ := (sessionReaderSql_answers hs huser hvalue : BoundSql.Answers _ db env _)
    refine ⟨cond, hfills, hholds.trans ?_⟩
    have hperson : person principal.userId = principal := by
      cases principal
      exact congrArg _ hactor.symm
    rw [hperson, henv]
    exact (may_of_names hkeys hrow hnames reading).symm
  admits resource row hrow hnames s env hs henv hmay w hw hwid := by
    have hid : w .workspaceId = row .workspaceId := hwid.trans hnames.2.symm
    have heval := admittingTemplate_eval principal hkeys hw hid (by rw [hwid]; nofun)
    have hgives : (admittingShareSql principal s).Gives db env _ := admittingShareSql_gives hs
    rw [henv] at hgives
    refine ⟨fun howner => by rwa [heval.1 howner] at hgives, fun hother => ?_⟩
    have hrule := (allowed_session.mp ((may_of_names hkeys hrow hnames reading).mp hmay)).2
    obtain ⟨-, -, v, hv, hvid, -, -, -, -, -, -, -, hadmitted⟩ := hrule
    rw [workspace_unique hkeys hnames hv hvid hw hwid] at hadmitted
    obtain ⟨g, hg, hof, hgrant⟩ := heval.2 hother (hadmitted.resolve_left hother).2
    rw [hgrant] at hgives
    exact ⟨g, hg, hof, hgives⟩

end

def rowOf (cells : List (Column × String)) : Row Column := fun c => (cells.lookup c).elim .null .text

/-- Alice owns a workspace of Acme and has shared its one session with Bob, a member. -/
def acme : Tables
  | .users => [rowOf [(.userId, "alice"), (.state, "active")], rowOf [(.userId, "bob"), (.state, "active")]]
  | .orgs => [rowOf [(.orgId, "acme"), (.ownerUserId, "alice")]]
  | .orgMemberships => [rowOf [(.orgId, "acme"), (.userId, "bob"), (.role, "member")]]
  | .projects => [rowOf [(.projectId, "p"), (.orgId, "acme"), (.ownerUserId, "alice")]]
  | .workspaces => [rowOf [(.workspaceId, "w"), (.projectId, "p"), (.orgId, "acme"), (.ownerUserId, "alice")]]
  | .sessions => [rowOf [(.sessionId, "s"), (.workspaceId, "w"), (.projectId, "p"), (.orgId, "acme")]]
  | .sessionShareGrants => [rowOf [(.grantId, "g"), (.sessionId, "s"), (.targetUserId, "bob"), (.level, "follow")]]
  | _ => []

def shared : Resource .session := SessionRef.mk "s" "w"

/-- Bob reads the shared session, and the rule is one in the state in which he does. -/
theorem share_reaches_only_its_session_acme :
    may (person "bob") acme reading shared = true ∧ OneRule acme (person "bob") :=
  ⟨by decide +kernel, share_reaches_only_its_session fun K a ha b hb _ => by
    cases K <;> exact (List.mem_singleton.mp ha).trans (List.mem_singleton.mp hb).symm⟩

end Claxedo.Access

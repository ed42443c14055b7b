import Claxedo.Access.Rules

/-! What a rule holds of a resource's row, whatever query asks it and by whatever names. -/

namespace Claxedo.Access

open Claxedo.Lib.Sql

/-- A rule with the row's columns left open too. -/
def template (withActor : Bool) {K : ResourceKind} (action : ActionOn K) : Rule (Marker ⊕ Column) :=
  rule withActor (.hole (.inl .user)) (.hole (.inl .actor)) action fun c => .hole (.inr c)

/-- The aliases that the rules bring along. -/
def ruleLabels : List String :=
  ["principal_actor", "principal_user", "member_org", "member_row", "rule_project", "share_actor", "share", "rule_workspace",
    "rule_owner", "rank_member", "rank_team_grant", "rank_team_member", "rank_team", "rank_org", "rank_org_member", "rule_org",
    "rule_org_member"]

/-- No row: nothing of the caller's query is in scope. -/
def unscoped : Env Column := fun _ _ => .null

section
variable (db : Tables) (principal : AuthorizationPrincipal)

/-- Whether the rule holds of a row, for an organization of a row that tells its id. -/
def Allowed {K : ResourceKind} (action : ActionOn K) (row : Row Column) : Prop :=
  (template principal.actorId.isSome action).Holds db (Sum.elim principal.bound row) unscoped

variable {K : ResourceKind} {env : Env Column} {b : BoundSql} {cond : Cond Table Column Value} {action : ActionOn K}
  {row : ResourceRow K}

theorem labels_template (withActor : Bool) (action : ActionOn K) :
    (template withActor action).labels ⊆ ruleLabels := by
  cases K <;> cases action <;> cases withActor <;> decide

theorem scoped_template (withActor : Bool) (action : ActionOn K) : (template withActor action).Scoped [] := by
  cases K <;> cases action <;> cases withActor <;>
    simp [template, rule, RULE_SQL, activePrincipalSql, workspaceRuleSql, sessionRuleSql, projectRuleSql, orgRuleSql, orgMemberSql,
      sessionShareSql, sharePredicateSql, projectRoleRankSql, orgRoleRankSql, roleRankSql, text, num, Cond.Scoped, Scalar.Scoped,
      Rows.Scoped, Rows.scope]

variable {db principal}

section
variable {π : Type} {bound : π → Value} {user actor : Expr π} {row : RowSql π} {scope : List String} {env : Env Column}

/-- What is put in the holes of a template. -/
def named (user actor : Expr π) (row : RowSql π) : Marker ⊕ Column → Expr π
  | .inl .user => user
  | .inl .actor => actor
  | .inr c => row c

/-- What is put in a template's holes is of the caller's query, which the rule's own aliases leave alone. -/
theorem stable_named (hfresh : ∀ label ∈ scope, label ∉ ruleLabels) (huser : user.Scoped scope) (hactor : actor.Scoped scope)
    (hrow : ∀ c, (row c).Scoped scope) :
    Stable db (fun p => (named user actor row p).eval db bound env) bound (named user actor row) (Agree scope env) ruleLabels := by
  refine ⟨fun p env' henv' => (Scalar.eval_agree henv' _ ?_).symm, fun env' henv' label hlabel r l hl => ?_⟩
  · rcases p with (_ | _) | c
    · exact huser
    · exact hactor
    · exact hrow c
  · have hne : l ≠ label := fun hsame => hfresh l hl (by rwa [hsame])
    rw [Env.set_of_ne env' r hne]
    exact henv' l hl

/-- A template's values come from where the rule names them. -/
theorem rule_eval {withActor : Bool} {K : ResourceKind} {action : ActionOn K} (hfresh : ∀ label ∈ scope, label ∉ ruleLabels)
    (huser : user.Scoped scope) (hactor : actor.Scoped scope) (hrow : ∀ c, (row c).Scoped scope) :
    (rule withActor user actor action row).eval db bound env =
      (template withActor action).eval db (fun p => (named user actor row p).eval db bound env) unscoped := by
  have hsubst : rule withActor user actor action row = (template withActor action).subst (named user actor row) := by
    cases K <;> cases action <;> cases withActor <;> rfl
  rw [hsubst, Cond.eval_subst env (fun _ _ => rfl) _
    ((stable_named hfresh huser hactor hrow).mono (labels_template withActor action))]
  exact Cond.eval_agree (fun _ h => absurd h List.not_mem_nil) _ (scoped_template withActor action)

end

/-- The alias of a resource's row. -/
def ResourceRow.label : (K : ResourceKind) → ResourceRow K → String
  | .workspace, w => w
  | .session, s => s
  | .project, p => p
  | .org, orgId => ColumnOf.label orgId

/-- What the caller's query has in the resource's row; of an organization, its id. -/
def ResourceRow.values (env : Env Column) : (K : ResourceKind) → ResourceRow K → Row Column
  | .workspace, w => env w
  | .session, s => env s
  | .project, p => env p
  | .org, orgId => fun _ => env (ColumnOf.label orgId) (ColumnOf.column orgId)

theorem scoped_user (scope : List String) : USER.Scoped scope := by simp [USER, Scalar.Scoped]

theorem scoped_actor (scope : List String) : ACTOR.Scoped scope := by simp [ACTOR, Scalar.Scoped]

theorem scoped_sql (row : ResourceRow K) (c : Column) :
    (ResourceRow.sql K row c : Expr Marker).Scoped [ResourceRow.label K row] := by
  cases K <;> exact List.mem_singleton.mpr rfl

theorem holds_rule (hfresh : ResourceRow.label K row ∉ ruleLabels) :
    (rule principal.actorId.isSome USER ACTOR action (ResourceRow.sql K row)).Holds db principal.bound env ↔
      Allowed db principal action (ResourceRow.values env K row) := by
  have hbound : (fun p => (named USER ACTOR (ResourceRow.sql K row) p).eval db principal.bound env) =
      Sum.elim principal.bound (ResourceRow.values env K row) := by
    funext p
    rcases p with (_ | _) | c
    · rfl
    · rfl
    · cases K <;> rfl
  unfold Cond.Holds Allowed
  rw [rule_eval (fun label hlabel => List.mem_singleton.mp hlabel ▸ hfresh) (scoped_user _) (scoped_actor _) (scoped_sql row), hbound]
  rfl

/-- A rule with the principal in its markers. -/
def filled (principal : AuthorizationPrincipal) (t : Rule Marker) : Cond Table Column Value :=
  t.subst fun p => .hole (principal.bound p)

theorem bindPrincipal_fills (t : Rule Marker) : (bindPrincipal principal t).Fills (filled principal t) := fun more =>
  Cond.fill_subst principal.bound more t

theorem holds_filled (t : Rule Marker) : (filled principal t).Holds db id env ↔ t.Holds db principal.bound env := by
  have hstable : Stable db principal.bound id (fun p => .hole (principal.bound p)) (fun _ => True) t.labels :=
    ⟨fun _ _ _ => rfl, fun _ _ _ _ _ => trivial⟩
  unfold Cond.Holds filled
  rw [Cond.eval_subst env trivial t hstable]

theorem holds_filled_rule (hfresh : ResourceRow.label K row ∉ ruleLabels) :
    (filled principal (rule principal.actorId.isSome USER ACTOR action (ResourceRow.sql K row))).Holds db id env ↔
      Allowed db principal action (ResourceRow.values env K row) :=
  (holds_filled _).trans (holds_rule hfresh)

theorem maySql_answers (hfresh : ResourceRow.label K row ∉ ruleLabels) :
    (maySql principal action row).Answers db env (Allowed db principal action (ResourceRow.values env K row)) :=
  ⟨_, bindPrincipal_fills _, holds_filled_rule hfresh⟩

/-- The table of a resource. -/
def ResourceKind.table : ResourceKind → Table
  | .workspace => .workspaces
  | .session => .sessions
  | .project => .projects
  | .org => .orgs

/-- The row is the one the resource names. -/
def Names : (K : ResourceKind) → Resource K → Row Column → Prop
  | .workspace, workspaceId, row => row .workspaceId = .text workspaceId
  | .session, ref, row => row .sessionId = .text (SessionRef.sessionId ref) ∧ row .workspaceId = .text (SessionRef.workspaceId ref)
  | .project, ref, row => row .projectId = .text (ProjectRef.projectId ref) ∧ row .orgId ≠ .null ∧
      ∀ orgId ∈ ProjectRef.orgId ref, row .orgId = .text orgId
  | .org, orgId, row => row .orgId = .text orgId

/-- What the rule reads of a resource's own row. -/
def rowValues : (K : ResourceKind) → Row Column → Row Column
  | .org, row => fun _ => row .orgId
  | _, row => row

theorem BoundSql.Fills.whose (h : b.Fills cond) (column : ColumnOf) (v : Value) :
    (b.whose column v).Fills (.and (.eq column.scalar (.hole v)) cond) := by
  intro more
  change (Cond.and (Cond.eq (Scalar.col column.label column.column) (Scalar.hole ())) b.sql).fill (v :: (b.bind ++ more)) = _
  simp only [Cond.fill, Scalar.fill, h more, Option.bind_eq_bind, Option.bind_some]
  rfl

theorem fills_orgId (h : b.Fills cond) (v : Value) :
    ({ sql := .and (.eq (.col "p" .orgId) (.coalesce (.hole ()) (.col "p" .orgId))) b.sql, bind := v :: b.bind } : BoundSql).Fills
      (.and (.eq (.col "p" .orgId) (.coalesce (.hole v) (.col "p" .orgId))) cond) := by
  intro more
  change Cond.fill _ (v :: (b.bind ++ more)) = _
  simp only [Cond.fill, Scalar.fill, h more, Option.bind_eq_bind, Option.bind_some]

theorem guard_fills {table : Table} {label : String} (h : b.Fills cond) :
    ({ sql := .select (.table table label) b.sql, bind := b.bind } : BoundSql).Fills (.select (.table table label) cond) := by
  intro more
  change (Cond.select (Rows.table table label) b.sql).fill (b.bind ++ more) = _
  simp only [Cond.fill, Rows.fill, h more, Option.bind_eq_bind, Option.bind_some]

/-- The guard tells what the query tells: that the rule holds of the row it names. -/
theorem mayGuard_fills (principal : AuthorizationPrincipal) (action : ActionOn K) (resource : Resource K) :
    ∃ cond, (mayGuard principal action resource).Fills cond ∧ ∀ db env, cond.Holds db id env ↔
      ∃ row ∈ db K.table, Names K resource row ∧ Allowed db principal action (rowValues K row) := by
  cases K with
  | workspace =>
    refine ⟨_, guard_fills (BoundSql.Fills.whose (bindPrincipal_fills _) _ _), fun db env => ?_⟩
    rw [Cond.holds_select_table]
    refine exists_congr fun row => and_congr_right fun _ => ?_
    have hrule : (filled principal (rule principal.actorId.isSome USER ACTOR action (ResourceRow.sql .workspace "w"))).Holds db id
        (env.set "w" row) ↔ Allowed db principal action (ResourceRow.values (env.set "w" row) .workspace "w") :=
      holds_filled_rule (by decide)
    rw [Cond.holds_and, Cond.holds_eq, hrule]
    simp only [ColumnOf.scalar, Scalar.eval, Env.set_self, id, Names, rowValues, ResourceRow.values]
    exact and_congr_left fun _ => Value.is_text
  | session =>
    refine ⟨_, guard_fills (BoundSql.Fills.whose (BoundSql.Fills.whose (bindPrincipal_fills _) _ _) _ _), fun db env => ?_⟩
    rw [Cond.holds_select_table]
    refine exists_congr fun row => and_congr_right fun _ => ?_
    have hrule : (filled principal (rule principal.actorId.isSome USER ACTOR action (ResourceRow.sql .session "s"))).Holds db id
        (env.set "s" row) ↔ Allowed db principal action (ResourceRow.values (env.set "s" row) .session "s") :=
      holds_filled_rule (by decide)
    rw [Cond.holds_and, Cond.holds_and, Cond.holds_eq, Cond.holds_eq, hrule, ← and_assoc]
    simp only [ColumnOf.scalar, Scalar.eval, Env.set_self, id, Names, rowValues, ResourceRow.values]
    exact and_congr_left fun _ => and_congr (Value.is_text) (Value.is_text)
  | project =>
    refine ⟨_, guard_fills (BoundSql.Fills.whose (fills_orgId (bindPrincipal_fills _) _) _ _), fun db env => ?_⟩
    rw [Cond.holds_select_table]
    refine exists_congr fun row => and_congr_right fun _ => ?_
    have hrule : (filled principal (rule principal.actorId.isSome USER ACTOR action (ResourceRow.sql .project "p"))).Holds db id
        (env.set "p" row) ↔ Allowed db principal action (ResourceRow.values (env.set "p" row) .project "p") :=
      holds_filled_rule (by decide)
    rw [Cond.holds_and, Cond.holds_and, Cond.holds_eq, Cond.holds_eq, hrule, ← and_assoc]
    simp only [ColumnOf.scalar, Scalar.eval, Env.set_self, id, Names, rowValues, ResourceRow.values]
    refine and_congr_left fun _ => and_congr (Value.is_text) ?_
    rcases ProjectRef.orgId resource with _ | orgId
    · simp
    · simp [and_comm]
  | org =>
    refine ⟨_, guard_fills (BoundSql.Fills.whose (bindPrincipal_fills _) _ _), fun db env => ?_⟩
    rw [Cond.holds_select_table]
    refine exists_congr fun row => and_congr_right fun _ => ?_
    have hrule : (filled principal (rule principal.actorId.isSome USER ACTOR action (ResourceRow.sql .org ⟨"o", .orgId⟩))).Holds db id
        (env.set "o" row) ↔ Allowed db principal action (ResourceRow.values (env.set "o" row) .org ⟨"o", .orgId⟩) :=
      holds_filled_rule (by decide)
    rw [Cond.holds_and, Cond.holds_eq, hrule]
    simp only [ColumnOf.scalar, Scalar.eval, Env.set_self, id, Names, rowValues, ResourceRow.values]
    exact and_congr_left fun _ => Value.is_text

theorem may_iff (action : ActionOn K) (resource : Resource K) :
    may principal db action resource = true ↔
      ∃ row ∈ db K.table, Names K resource row ∧ Allowed db principal action (rowValues K row) := by
  obtain ⟨cond, hfills, hholds⟩ := mayGuard_fills principal action resource
  have hfill := hfills []
  rw [List.append_nil] at hfill
  change (Cond.select (mayQuery principal action resource).rows (mayQuery principal action resource).cond).fill
    (mayQuery principal action resource).bind = _ at hfill
  rw [← hholds db unscoped]
  unfold may BoundQuery.first
  rw [hfill]
  exact decide_eq_true_iff

end

/-! What each rule says of the tables. -/

section
variable (db : Tables) (principal : AuthorizationPrincipal)

/-- The person a value names is active. -/
def ActivePerson (user : Value) : Prop :=
  ∃ u ∈ db .users, u .userId = user ∧ user ≠ .null ∧ u .state = .text "active"

/-- The person is active, and so is the actor, who is theirs. -/
def Active : Prop :=
  match principal.actorId with
  | none => ActivePerson db (.text principal.userId)
  | some actorId => ∃ a ∈ db .actors, a .actorId = .text actorId ∧ a .userId = .text principal.userId ∧
      a .state = .text "active" ∧ ActivePerson db (.text principal.userId)

/-- Founder or active member of the live organization. -/
def Stands (org user : Value) : Prop :=
  org ≠ .null ∧ user ≠ .null ∧ ∃ o ∈ db .orgs, o .orgId = org ∧ o .deletedAt = .null ∧
    (o .ownerUserId = user ∨ ∃ m ∈ db .orgMemberships, m .orgId = org ∧ m .userId = user ∧ m .revokedAt = .null)

/-- Founder of the live organization, or active member in one of the roles. -/
def HasRole (roles : List String) (org user : Value) : Prop :=
  org ≠ .null ∧ user ≠ .null ∧ ∃ o ∈ db .orgs, o .orgId = org ∧ o .deletedAt = .null ∧
    (o .ownerUserId = user ∨ ∃ m ∈ db .orgMemberships, m .orgId = org ∧ m .userId = user ∧ m .revokedAt = .null ∧
      ∃ role ∈ roles, m .role = .text role)

/-- The project of a row lives in the row's organization. -/
def LiveProject (row : Row Column) : Prop :=
  row .projectId ≠ .null ∧ row .orgId ≠ .null ∧
    ∃ p ∈ db .projects, p .projectId = row .projectId ∧ p .orgId = row .orgId ∧ p .deletedAt = .null

/-- A live share of the session names the person, at the level that sending asks for. -/
def ShareOf (send : Bool) (session : Value) (g : Row Column) : Prop :=
  (g .sessionId = session ∧ g .sessionId ≠ .null) ∧ g .revokedAt = .null ∧ (send = true → g .level = .text "send") ∧
    (∀ actorId ∈ principal.actorId, ∃ a ∈ db .actors, a .actorId = .text actorId ∧ a .kind = .text "human") ∧
    g .targetUserId = .text principal.userId

def Shared (send : Bool) (session : Value) : Prop := ∃ g ∈ db .sessionShareGrants, ShareOf db principal send session g

def WorkspaceRule (action : WorkspaceAction) (w : Row Column) : Prop :=
  (w .deletedAt = .null ∨ action = .assignHost ∧ w .backing = .text "local-worktree") ∧
    w .ownerUserId = .text principal.userId ∧ Stands db (w .orgId) (.text principal.userId) ∧ LiveProject db w

def OrgRule : OrgAction → Value → Prop
  | .member, org => Stands db org (.text principal.userId)
  | .administer, org => HasRole db ["owner", "admin"] org (.text principal.userId)
  | .own, org => HasRole db ["owner"] org (.text principal.userId)

def SessionRule (action : SessionAction) (s : Row Column) : Prop :=
  s .deletedAt = .null ∧ Stands db (s .orgId) (.text principal.userId) ∧
    ∃ w ∈ db .workspaces, w .workspaceId = s .workspaceId ∧ w .workspaceId ≠ .null ∧ w .orgId = s .orgId ∧
      w .projectId = s .projectId ∧ w .deletedAt = .null ∧ LiveProject db w ∧ ActivePerson db (w .ownerUserId) ∧
      Stands db (w .orgId) (w .ownerUserId) ∧
      (w .ownerUserId = .text principal.userId ∨
        (action = .read ∨ action = .send) ∧ Shared db principal (action = .send) (s .sessionId))

end

section
variable {db : Tables} {principal : AuthorizationPrincipal} {row : Row Column}

/-- A value of a template, over a row. -/
abbrev valued (principal : AuthorizationPrincipal) (row : Row Column) : Marker ⊕ Column → Value := Sum.elim principal.bound row

variable {env : Env Column} {π : Type} {bound : π → Value}

theorem holds_active :
    (activePrincipalSql principal.actorId.isSome (.hole (.inl .user)) (.hole (.inl .actor)) : Rule (Marker ⊕ Column)).Holds db
      (valued principal row) env ↔ Active db principal := by
  unfold Active
  rcases hactor : principal.actorId with _ | actorId
  · simp only [activePrincipalSql, Option.isSome_none, Bool.false_eq_true, if_false, Cond.holds_select_table, Cond.holds_and,
      Cond.holds_eq, Scalar.eval, Env.set_self, text, Sum.elim_inl, AuthorizationPrincipal.bound, ActivePerson]
    grind
  · have hother (r r' : Row Column) : ((env.set "principal_actor" r).set "principal_user" r') "principal_actor" = r := by
      rw [Env.set_of_ne _ _ (by decide), Env.set_self]
    simp only [activePrincipalSql, Option.isSome_some, if_true, Cond.holds_select_join, Cond.holds_and, Cond.holds_eq, Scalar.eval,
      hother, Env.set_self, text, Sum.elim_inl, AuthorizationPrincipal.bound, hactor, Option.elim_some, ActivePerson]
    grind

theorem holds_orgMember {org user : Expr π} {o u : Value}
    (horg : ∀ r r', org.eval db bound ((env.set "member_org" r).set "member_row" r') = o)
    (huser : ∀ r r', user.eval db bound ((env.set "member_org" r).set "member_row" r') = u) :
    (orgMemberSql org user).Holds db bound env ↔ Stands db o u := by
  simp only [orgMemberSql, Cond.holds_select_leftJoin, Cond.holds_and, Cond.holds_or, Cond.holds_eq, Cond.holds_isNull,
    Cond.holds_notNull, horg, huser, Scalar.eval]
  simp only [Env.set, String.reduceEq, reduceIte, Stands]
  constructor
  · rintro ⟨r, hr, ⟨m, hm, ⟨⟨hmorg, -⟩, ⟨hmuser, hu⟩, hrevoked⟩, ⟨rfl, ho⟩, hlive, -⟩ | ⟨-, ⟨rfl, ho⟩, hlive, ⟨rfl, hu⟩ | hno⟩⟩
    · exact ⟨ho, hmuser ▸ hu, r, hr, rfl, hlive, .inr ⟨m, hm, hmorg, hmuser, hrevoked⟩⟩
    · exact ⟨ho, hu, r, hr, rfl, hlive, .inl rfl⟩
    · exact absurd rfl hno
  · rintro ⟨ho, hu, r, hr, rfl, hlive, hstands⟩
    refine ⟨r, hr, ?_⟩
    -- A founder may be a member as well, and then the join finds the member's row.
    by_cases hmember : ∃ m ∈ db .orgMemberships, m .orgId = r .orgId ∧ m .userId = u ∧ m .revokedAt = .null
    · obtain ⟨m, hm, hmorg, rfl, hrevoked⟩ := hmember
      exact .inl ⟨m, hm, ⟨⟨hmorg, hmorg ▸ ho⟩, ⟨rfl, hu⟩, hrevoked⟩, ⟨rfl, ho⟩, hlive, .inr hu⟩
    · refine .inr ⟨?_, ⟨rfl, ho⟩, hlive, .inl ?_⟩
      · rintro m hm ⟨⟨hmorg, -⟩, ⟨hmuser, -⟩, hrevoked⟩
        exact hmember ⟨m, hm, hmorg, hmuser, hrevoked⟩
      · obtain rfl := hstands.resolve_right hmember
        exact ⟨rfl, hu⟩

theorem holds_project {projectId orgId : Expr π} {r : Row Column}
    (hproject : ∀ p, projectId.eval db bound (env.set "rule_project" p) = r .projectId)
    (horg : ∀ p, orgId.eval db bound (env.set "rule_project" p) = r .orgId) :
    (Cond.select (.table .projects "rule_project")
      (.and (.eq (.col "rule_project" .projectId) projectId)
        (.and (.eq (.col "rule_project" .orgId) orgId) (.isNull (.col "rule_project" .deletedAt))))).Holds db bound env ↔
      LiveProject db r := by
  simp only [Cond.holds_select_table, Cond.holds_and, Cond.holds_eq, Cond.holds_isNull, hproject, horg, Scalar.eval, Env.set_self,
    LiveProject]
  grind

theorem allowed_workspace {action : WorkspaceAction} :
    Allowed db principal (K := .workspace) action row ↔ Active db principal ∧ WorkspaceRule db principal action row := by
  unfold Allowed template rule
  rw [Cond.holds_and, holds_active]
  refine and_congr_right fun _ => ?_
  simp only [RULE_SQL, workspaceRuleSql, Cond.holds_and]
  rw [holds_orgMember (o := row .orgId) (u := .text principal.userId) (fun _ _ => rfl) (fun _ _ => rfl),
    holds_project (r := row) (fun _ => rfl) (fun _ => rfl)]
  unfold WorkspaceRule
  refine and_congr ?_ (and_congr ?_ Iff.rfl)
  · split_ifs with hassign
    · simp only [Cond.holds_or, Cond.holds_isNull, Cond.holds_eq, Scalar.eval, text, Value.is_text, hassign, true_and]
      rfl
    · simp only [Cond.holds_isNull, Scalar.eval, hassign, false_and, or_false]
      rfl
  · rw [Cond.holds_eq]
    exact Value.is_text

theorem holds_activeUser {user : Expr π} {u : Value} (huser : ∀ p, user.eval db bound (env.set "rule_owner" p) = u) :
    (Cond.select (.table .users "rule_owner")
      (.and (.eq (.col "rule_owner" .userId) user) (.eq (.col "rule_owner" .state) (text "active")))).Holds db bound env ↔
      ActivePerson db u := by
  simp only [Cond.holds_select_table, Cond.holds_and, Cond.holds_eq, huser, Scalar.eval, Env.set_self, ActivePerson, text,
    Value.is_text]
  grind

theorem holds_sharePredicate {send : Bool} :
    (sharePredicateSql (fun c => .hole (.inr c)) send principal.actorId.isSome (.hole (.inl .user)) (.hole (.inl .actor)) :
      Rule (Marker ⊕ Column)).Holds db (valued principal row) env ↔ ShareOf db principal send (row .sessionId) (env "share") := by
  unfold ShareOf sharePredicateSql
  rw [Cond.holds_and, Cond.holds_eq, Cond.holds_and, Cond.holds_isNull]
  refine and_congr Iff.rfl (and_congr Iff.rfl ?_)
  rcases hactor : principal.actorId with _ | actorId <;> cases send <;>
    simp only [Option.isSome_none, Option.isSome_some, Bool.false_eq_true, if_false, if_true, Cond.holds_and, Cond.holds_eq,
      Cond.holds_select_table, Scalar.eval, Env.set_self, text, Sum.elim_inl, AuthorizationPrincipal.bound, Value.is_text, hactor,
      Option.elim_some, Option.mem_def, reduceCtorEq, false_implies, implies_true, true_and, forall_const, Option.some_inj,
      forall_eq']

theorem holds_sessionShare {send : Bool} :
    (sessionShareSql (fun c => .hole (.inr c)) send principal.actorId.isSome (.hole (.inl .user)) (.hole (.inl .actor)) :
      Rule (Marker ⊕ Column)).Holds db (valued principal row) env ↔ Shared db principal send (row .sessionId) := by
  unfold Shared sessionShareSql
  rw [Cond.holds_select_table]
  exact exists_congr fun g => and_congr_right fun _ => by rw [holds_sharePredicate, Env.set_self]

theorem holds_admitted {action : SessionAction} :
    (if action = .read ∨ action = .send then
        Cond.or (.eq (.col "rule_workspace" .ownerUserId) (.hole (.inl .user)))
          (sessionShareSql (fun c => .hole (.inr c)) (action = .send) principal.actorId.isSome (.hole (.inl .user))
            (.hole (.inl .actor)))
      else .eq (.col "rule_workspace" .ownerUserId) (.hole (.inl .user)) : Rule (Marker ⊕ Column)).Holds db
      (valued principal row) env ↔
      env "rule_workspace" .ownerUserId = .text principal.userId ∨
        (action = .read ∨ action = .send) ∧ Shared db principal (action = .send) (row .sessionId) := by
  have howned : (Cond.eq (.col "rule_workspace" .ownerUserId) (.hole (.inl .user)) : Rule (Marker ⊕ Column)).Holds db
      (valued principal row) env ↔ env "rule_workspace" .ownerUserId = .text principal.userId :=
    Cond.holds_eq.trans Value.is_text
  split_ifs with hshares
  · rw [Cond.holds_or, howned, holds_sessionShare, and_iff_right hshares]
  · rw [howned, or_iff_left fun h => hshares h.1]

theorem allowed_session {action : SessionAction} :
    Allowed db principal (K := .session) action row ↔ Active db principal ∧ SessionRule db principal action row := by
  unfold Allowed template rule
  rw [Cond.holds_and, holds_active]
  refine and_congr_right fun _ => ?_
  simp only [RULE_SQL, sessionRuleSql]
  rw [Cond.holds_and, Cond.holds_and, Cond.holds_isNull, holds_orgMember (o := row .orgId) (u := .text principal.userId)
    (fun _ _ => rfl) (fun _ _ => rfl), Cond.holds_select_join]
  unfold SessionRule LiveProject
  refine and_congr Iff.rfl (and_congr Iff.rfl (exists_congr fun w => and_congr_right fun _ => ?_))
  have howner : ∀ p, (Cond.select (.table .users "rule_owner") (.and (.eq (.col "rule_owner" .userId)
      (.col "rule_workspace" .ownerUserId)) (.eq (.col "rule_owner" .state) (text "active"))) : Rule (Marker ⊕ Column)).Holds db
      (valued principal row) ((unscoped.set "rule_workspace" w).set "rule_project" p) ↔ ActivePerson db (w .ownerUserId) :=
    fun p => holds_activeUser fun _ => rfl
  have hstands : ∀ p, (orgMemberSql (.col "rule_workspace" .orgId) (.col "rule_workspace" .ownerUserId) :
      Rule (Marker ⊕ Column)).Holds db (valued principal row) ((unscoped.set "rule_workspace" w).set "rule_project" p) ↔
      Stands db (w .orgId) (w .ownerUserId) :=
    fun p => holds_orgMember (fun _ _ => rfl) (fun _ _ => rfl)
  simp only [Cond.holds_and, howner, hstands, holds_admitted, Cond.holds_eq, Cond.holds_isNull, Scalar.eval, Env.set,
    String.reduceEq, reduceIte, Sum.elim_inr]
  grind

theorem stands_of_allowed_project {action : ProjectAction} (h : Allowed db principal (K := .project) action row) :
    Active db principal ∧ Stands db (row .orgId) (.text principal.userId) := by
  unfold Allowed template rule at h
  rw [Cond.holds_and, holds_active] at h
  simp only [RULE_SQL, projectRuleSql] at h
  rw [Cond.holds_and, Cond.holds_and, holds_orgMember (o := row .orgId) (u := .text principal.userId) (fun _ _ => rfl)
    (fun _ _ => rfl)] at h
  exact ⟨h.1, h.2.2.1⟩

theorem holds_orgRole {roles : List String} :
    (Cond.select
      (.leftJoin (.table .orgs "rule_org") .orgMemberships "rule_org_member"
        (.and (.eq (.col "rule_org_member" .orgId) (.col "rule_org" .orgId))
          (.and (.eq (.col "rule_org_member" .userId) (.hole (.inl .user))) (.isNull (.col "rule_org_member" .revokedAt)))))
      (.and (.eq (.col "rule_org" .orgId) (.hole (.inr .orgId)))
        (.and (.isNull (.col "rule_org" .deletedAt))
          (.or (.eq (.col "rule_org" .ownerUserId) (.hole (.inl .user)))
            (.among (.col "rule_org_member" .role) roles)))) : Rule (Marker ⊕ Column)).Holds db (valued principal row) env ↔
      HasRole db roles (row .orgId) (.text principal.userId) := by
  simp only [Cond.holds_select_leftJoin, Cond.holds_and, Cond.holds_or, Cond.holds_eq, Cond.holds_isNull, Cond.holds_among,
    Scalar.eval, Env.set, String.reduceEq, reduceIte, Sum.elim_inl, Sum.elim_inr, AuthorizationPrincipal.bound, Value.is_text,
    HasRole]
  constructor
  · rintro ⟨o, ho, ⟨m, hm, ⟨⟨hmorg, -⟩, hmuser, hrevoked⟩, ⟨hid, hnull⟩, hlive, hrole⟩ | ⟨-, ⟨hid, hnull⟩, hlive, hrole⟩⟩
    · exact ⟨hid ▸ hnull, Value.noConfusion, o, ho, hid, hlive,
        hrole.imp_right fun hin => ⟨m, hm, hmorg.trans hid, hmuser, hrevoked, hin⟩⟩
    · refine ⟨hid ▸ hnull, Value.noConfusion, o, ho, hid, hlive, hrole.imp_right ?_⟩
      rintro ⟨_, _, ⟨⟩⟩
  · rintro ⟨hnull, -, o, ho, hid, hlive, hrole⟩
    refine ⟨o, ho, ?_⟩
    rcases hrole with howner | ⟨m, hm, hmorg, hmuser, hrevoked, hin⟩
    · by_cases hmember : ∃ m ∈ db .orgMemberships, m .orgId = o .orgId ∧ m .userId = .text principal.userId ∧ m .revokedAt = .null
      · obtain ⟨m, hm, hmorg, hmuser, hrevoked⟩ := hmember
        exact .inl ⟨m, hm, ⟨⟨hmorg, hmorg.trans hid ▸ hnull⟩, hmuser, hrevoked⟩, ⟨hid, hid ▸ hnull⟩, hlive, .inl howner⟩
      · refine .inr ⟨?_, ⟨hid, hid ▸ hnull⟩, hlive, .inl howner⟩
        rintro m hm ⟨⟨hmorg, -⟩, hmuser, hrevoked⟩
        exact hmember ⟨m, hm, hmorg, hmuser, hrevoked⟩
    · exact .inl ⟨m, hm, ⟨⟨hmorg.trans hid.symm, hmorg ▸ hnull⟩, hmuser, hrevoked⟩, ⟨hid, hid ▸ hnull⟩, hlive, .inr hin⟩

theorem allowed_org {action : OrgAction} :
    Allowed db principal (K := .org) action row ↔ Active db principal ∧ OrgRule db principal action (row .orgId) := by
  unfold Allowed template rule
  rw [Cond.holds_and, holds_active]
  refine and_congr_right fun _ => ?_
  cases action with
  | member => exact holds_orgMember (fun _ _ => rfl) (fun _ _ => rfl)
  | administer => exact holds_orgRole
  | own => exact holds_orgRole

theorem HasRole.stands {roles : List String} {org user : Value} (h : HasRole db roles org user) : Stands db org user := by
  obtain ⟨horg, huser, o, ho, hid, hlive, hrole⟩ := h
  exact ⟨horg, huser, o, ho, hid, hlive, hrole.imp_right fun ⟨m, hm, hmorg, hmuser, hrevoked, _⟩ => ⟨m, hm, hmorg, hmuser, hrevoked⟩⟩

theorem OrgRule.stands {action : OrgAction} {org : Value} (h : OrgRule db principal action org) :
    Stands db org (.text principal.userId) := by
  cases action with
  | member => exact h
  | administer => exact HasRole.stands h
  | own => exact HasRole.stands h

end

end Claxedo.Access

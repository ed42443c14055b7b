import Claxedo.Lib.SqlHoles

/-! The one authorization rule of the control plane: conditions over its tables, with the person and the
actor left open. -/

namespace Claxedo.Access

open Claxedo.Lib.Sql

inductive Table where
  | users
  | actors
  | orgs
  | orgMemberships
  | projects
  | projectMemberships
  | teams
  | teamMemberships
  | teamProjectGrants
  | workspaces
  | sessions
  | sessionShareGrants
  | runtimeAccessTokens
  | orgInvitations
  | authorityAuditEvents
  deriving DecidableEq

inductive Column where
  | userId
  | actorId
  | state
  | kind
  | orgId
  | ownerUserId
  | role
  | projectId
  | teamId
  | workspaceId
  | backing
  | sessionId
  | grantId
  | targetUserId
  | level
  | revokedAt
  | deletedAt
  | createdAt
  | updatedAt
  | id
  | tokenHash
  | email
  | invitedBy
  | acceptedAt
  | expiresAt
  | deploymentId
  | mintedForUserId
  | action
  | before
  | after
  | count
  deriving DecidableEq

abbrev Expr (π : Type) := Scalar Table Column π

abbrev Rule (π : Type) := Cond Table Column π

abbrev Tables := Database Table Column

/-- The columns of a row, as the text of a rule names them. -/
abbrev RowSql (π : Type) := Column → Expr π

inductive WorkspaceAction where
  | open_
  | operate
  | createSession
  | assignHost
  | administer
  deriving DecidableEq

inductive SessionAction where
  | read
  | send
  | control
  | manageShares
  deriving DecidableEq

inductive ProjectAction where
  | read
  | write
  | admin
  | owner

inductive OrgAction where
  | member
  | administer
  | own
  deriving DecidableEq

section
variable {π : Type}

def text (s : String) : Expr π := .value (.text s)

def num (n : ℕ) : Expr π := .value (.num n)

def activePrincipalSql (withActor : Bool) (user actor : Expr π) : Rule π :=
  if withActor then
    .select
      (.join (.table .actors "principal_actor") .users "principal_user"
        (.and (.eq (.col "principal_user" .userId) (.col "principal_actor" .userId))
          (.eq (.col "principal_user" .state) (text "active"))))
      (.and (.eq (.col "principal_actor" .actorId) actor)
        (.and (.eq (.col "principal_actor" .userId) user) (.eq (.col "principal_actor" .state) (text "active"))))
  else
    .select (.table .users "principal_user")
      (.and (.eq (.col "principal_user" .userId) user) (.eq (.col "principal_user" .state) (text "active")))

/-- Whether `user` stands in the live organization `org` names: its founder or an active member. -/
def orgMemberSql (org user : Expr π) : Rule π :=
  .select
    (.leftJoin (.table .orgs "member_org") .orgMemberships "member_row"
      (.and (.eq (.col "member_row" .orgId) (.col "member_org" .orgId))
        (.and (.eq (.col "member_row" .userId) user) (.isNull (.col "member_row" .revokedAt)))))
    (.and (.eq (.col "member_org" .orgId) org)
      (.and (.isNull (.col "member_org" .deletedAt))
        (.or (.eq (.col "member_org" .ownerUserId) user) (.notNull (.col "member_row" .userId)))))

def workspaceRuleSql (action : WorkspaceAction) (w : RowSql π) (user : Expr π) : Rule π :=
  let live : Rule π :=
    if action = .assignHost then .or (.isNull (w .deletedAt)) (.eq (w .backing) (text "local-worktree"))
    else .isNull (w .deletedAt)
  .and live
    (.and (.eq (w .ownerUserId) user)
      (.and (orgMemberSql (w .orgId) user)
        (.select (.table .projects "rule_project")
          (.and (.eq (.col "rule_project" .projectId) (w .projectId))
            (.and (.eq (.col "rule_project" .orgId) (w .orgId)) (.isNull (.col "rule_project" .deletedAt)))))))

def sharePredicateSql (s : RowSql π) (send withActor : Bool) (user actor : Expr π) : Rule π :=
  let human : Rule π :=
    .select (.table .actors "share_actor")
      (.and (.eq (.col "share_actor" .actorId) actor) (.eq (.col "share_actor" .kind) (text "human")))
  let named : Rule π := .eq (.col "share" .targetUserId) user
  let held : Rule π := if withActor then .and human named else named
  let level : Rule π := if send then .and (.eq (.col "share" .level) (text "send")) held else held
  .and (.eq (.col "share" .sessionId) (s .sessionId)) (.and (.isNull (.col "share" .revokedAt)) level)

/-- A live share on this session naming the person. -/
def sessionShareSql (s : RowSql π) (send withActor : Bool) (user actor : Expr π) : Rule π :=
  .select (.table .sessionShareGrants "share") (sharePredicateSql s send withActor user actor)

def sessionRuleSql (action : SessionAction) (s : RowSql π) (withActor : Bool) (user actor : Expr π) : Rule π :=
  let owned : Rule π := .eq (.col "rule_workspace" .ownerUserId) user
  let admitted : Rule π :=
    if action = .read ∨ action = .send then .or owned (sessionShareSql s (action = .send) withActor user actor) else owned
  .and (.isNull (s .deletedAt))
    (.and (orgMemberSql (s .orgId) user)
      (.select
        (.join (.table .workspaces "rule_workspace") .projects "rule_project"
          (.and (.eq (.col "rule_project" .projectId) (.col "rule_workspace" .projectId))
            (.and (.eq (.col "rule_project" .orgId) (.col "rule_workspace" .orgId))
              (.isNull (.col "rule_project" .deletedAt)))))
        (.and (.eq (.col "rule_workspace" .workspaceId) (s .workspaceId))
          (.and (.eq (.col "rule_workspace" .orgId) (s .orgId))
            (.and (.eq (.col "rule_workspace" .projectId) (s .projectId))
              (.and (.isNull (.col "rule_workspace" .deletedAt))
                -- A share reaches its session only while the owner still stands.
                (.and
                  (.select (.table .users "rule_owner")
                    (.and (.eq (.col "rule_owner" .userId) (.col "rule_workspace" .ownerUserId))
                      (.eq (.col "rule_owner" .state) (text "active"))))
                  (.and (orgMemberSql (.col "rule_workspace" .orgId) (.col "rule_workspace" .ownerUserId))
                    admitted))))))))

def roleRankSql (column : Expr π) : Expr π :=
  .cases (.eq column (text "viewer")) (num 1)
    (.cases (.eq column (text "editor")) (num 2)
      (.cases (.eq column (text "admin")) (num 3)
        (.cases (.eq column (text "owner")) (num 4) (num 0))))

/-- What a person's organization role alone is worth on its projects. -/
def orgRoleRankSql (user orgId : Expr π) : Expr π :=
  .coalesce
    (.one
      (.cases (.eq (.col "rank_org" .ownerUserId) user) (num 3)
        (.cases (.among (.col "rank_org_member" .role) ["owner", "admin"]) (num 3)
          (.cases (.eq (.col "rank_org_member" .role) (text "member")) (num 1) (num 0))))
      (.leftJoin (.table .orgs "rank_org") .orgMemberships "rank_org_member"
        (.and (.eq (.col "rank_org_member" .orgId) (.col "rank_org" .orgId))
          (.and (.eq (.col "rank_org_member" .userId) user) (.isNull (.col "rank_org_member" .revokedAt)))))
      (.and (.eq (.col "rank_org" .orgId) orgId) (.isNull (.col "rank_org" .deletedAt))))
    (num 0)

/-- A person's rank on a project: the highest of owning it, their own grant, their teams' grants and their
organization role. -/
def projectRoleRankSql (user projectId orgId ownerUserId : Expr π) : Expr π :=
  .larger (.cases (.eq ownerUserId user) (num 4) (num 0))
    (.larger
      (.coalesce
        (.one (roleRankSql (.col "rank_member" .role)) (.table .projectMemberships "rank_member")
          (.and (.eq (.col "rank_member" .projectId) projectId)
            (.and (.eq (.col "rank_member" .userId) user) (.isNull (.col "rank_member" .revokedAt)))))
        (num 0))
      (.larger
        (.coalesce
          (.largest (roleRankSql (.col "rank_team_grant" .role))
            (.join
              (.join (.table .teamProjectGrants "rank_team_grant") .teamMemberships "rank_team_member"
                (.and (.eq (.col "rank_team_member" .teamId) (.col "rank_team_grant" .teamId))
                  (.and (.eq (.col "rank_team_member" .userId) user) (.isNull (.col "rank_team_member" .revokedAt)))))
              .teams "rank_team"
              (.and (.eq (.col "rank_team" .teamId) (.col "rank_team_grant" .teamId))
                (.and (.eq (.col "rank_team" .orgId) orgId) (.isNull (.col "rank_team" .deletedAt)))))
            (.and (.eq (.col "rank_team_grant" .projectId) projectId) (.isNull (.col "rank_team_grant" .revokedAt))))
          (num 0))
        (orgRoleRankSql user orgId)))

def actionRank : ProjectAction → ℕ
  | .read => 1
  | .write => 2
  | .admin => 3
  | .owner => 4

def projectRuleSql (action : ProjectAction) (p : RowSql π) (user : Expr π) : Rule π :=
  .and (.isNull (p .deletedAt))
    (.and (orgMemberSql (p .orgId) user)
      (.ge (projectRoleRankSql user (p .projectId) (p .orgId) (p .ownerUserId)) (num (actionRank action))))

def orgRuleSql (action : OrgAction) (orgId user : Expr π) : Rule π :=
  if action = .member then orgMemberSql orgId user
  else
    .select
      (.leftJoin (.table .orgs "rule_org") .orgMemberships "rule_org_member"
        (.and (.eq (.col "rule_org_member" .orgId) (.col "rule_org" .orgId))
          (.and (.eq (.col "rule_org_member" .userId) user) (.isNull (.col "rule_org_member" .revokedAt)))))
      (.and (.eq (.col "rule_org" .orgId) orgId)
        (.and (.isNull (.col "rule_org" .deletedAt))
          (.or (.eq (.col "rule_org" .ownerUserId) user)
            (.among (.col "rule_org_member" .role) (if action = .administer then ["owner", "admin"] else ["owner"])))))

/-- The share a runtime token is recorded under; null for the workspace's owner. -/
def admittingShareTemplate (withActor : Bool) (session : RowSql π) (user actor : Expr π) : Expr π :=
  .one
    (.cases (.eq (.col "rule_workspace" .ownerUserId) user) (.value .null)
      (.one (.col "share" .grantId) (.table .sessionShareGrants "share") (sharePredicateSql session false withActor user actor)))
    (.table .workspaces "rule_workspace") (.eq (.col "rule_workspace" .workspaceId) (session .workspaceId))

end

/-! The forms in which the authorities ask the rule: of a named resource, as a guard, over a row of their
own query. The person and the actor are bound in the order in which the text names them. -/

/-- What a rule leaves open. -/
inductive Marker where
  | user
  | actor

def USER : Expr Marker := .hole .user

def ACTOR : Expr Marker := .hole .actor

structure AuthorizationPrincipal where
  userId : String
  actorId : Option String := none

inductive ResourceKind where
  | workspace
  | session
  | project
  | org

def ActionOn : ResourceKind → Type
  | .workspace => WorkspaceAction
  | .session => SessionAction
  | .project => ProjectAction
  | .org => OrgAction

structure SessionRef where
  sessionId : String
  workspaceId : String

structure ProjectRef where
  projectId : String
  orgId : Option String := none

/-- A resource by its id. -/
def Resource : ResourceKind → Type
  | .workspace => String
  | .session => SessionRef
  | .project => ProjectRef
  | .org => String

/-- A column of the caller's query. -/
structure ColumnOf where
  label : String
  column : Column

/-- The resource as a row of the caller's query: a table's alias, or the column that holds the organization's id. -/
def ResourceRow : ResourceKind → Type
  | .workspace => String
  | .session => String
  | .project => String
  | .org => ColumnOf

def ColumnOf.scalar {π : Type} (c : ColumnOf) : Scalar Table Column π := .col c.label c.column

abbrev Sql := Cond Table Column Placeholder

structure BoundSql where
  sql : Sql
  bind : List Value

structure BoundScalar where
  sql : Scalar Table Column Placeholder
  bind : List Value

/-- `select 1 from rows where cond`. -/
structure BoundQuery where
  rows : Rows Table Column Placeholder
  cond : Sql
  bind : List Value

section
variable (principal : AuthorizationPrincipal)

/-- What a marker stands for; an actor that is not given is bound as null. -/
def AuthorizationPrincipal.bound : Marker → Value
  | .user => .text principal.userId
  | .actor => principal.actorId.elim .null .text

def bindPrincipal (template : Rule Marker) : BoundSql :=
  { sql := template.subst fun _ => .hole (), bind := template.holes.map principal.bound }

def bindPrincipalScalar (template : Expr Marker) : BoundScalar :=
  { sql := template.subst fun _ => .hole (), bind := template.holes.map principal.bound }

/-- A row of the caller's query as the text of a rule names its columns. -/
def ResourceRow.sql {π : Type} : (K : ResourceKind) → ResourceRow K → RowSql π
  | .workspace, w => .col w
  | .session, s => .col s
  | .project, p => .col p
  | .org, orgId => fun _ => .col orgId.label orgId.column

def RULE_SQL {π : Type} (withActor : Bool) (user actor : Expr π) : (K : ResourceKind) → ActionOn K → RowSql π → Rule π
  | .workspace, action, w => workspaceRuleSql action w user
  | .session, action, s => sessionRuleSql action s withActor user actor
  | .project, action, p => projectRuleSql action p user
  | .org, action, o => orgRuleSql action (o .orgId) user

def rule {π : Type} (withActor : Bool) (user actor : Expr π) {K : ResourceKind} (action : ActionOn K) (row : RowSql π) : Rule π :=
  .and (activePrincipalSql withActor user actor) (RULE_SQL withActor user actor K action row)

/-- The rule over a row of the caller's own query. -/
def maySql {K : ResourceKind} (action : ActionOn K) (row : ResourceRow K) : BoundSql :=
  bindPrincipal principal (rule principal.actorId.isSome USER ACTOR action (ResourceRow.sql K row))

/-- `where column = ? and cond`, with what binds them. -/
def BoundSql.whose (rest : BoundSql) (column : ColumnOf) (v : Value) : BoundSql :=
  { sql := .and (.eq column.scalar (.hole ())) rest.sql, bind := v :: rest.bind }

def RESOURCE_QUERY : (K : ResourceKind) → Resource K → (ResourceRow K → BoundSql) → BoundQuery
  | .workspace, workspaceId, asked =>
    let q := BoundSql.whose (asked "w") ⟨"w", .workspaceId⟩ (.text workspaceId)
    { rows := .table .workspaces "w", cond := q.sql, bind := q.bind }
  | .session, ref, asked =>
    let q := BoundSql.whose (BoundSql.whose (asked "s") ⟨"s", .workspaceId⟩ (.text ref.workspaceId)) ⟨"s", .sessionId⟩
      (.text ref.sessionId)
    { rows := .table .sessions "s", cond := q.sql, bind := q.bind }
  | .project, ref, asked =>
    let inner := asked "p"
    let q := BoundSql.whose
      { sql := .and (.eq (.col "p" .orgId) (.coalesce (.hole ()) (.col "p" .orgId))) inner.sql
        bind := ref.orgId.elim .null .text :: inner.bind } ⟨"p", .projectId⟩ (.text ref.projectId)
    { rows := .table .projects "p", cond := q.sql, bind := q.bind }
  | .org, orgId, asked =>
    let q := BoundSql.whose (asked ⟨"o", .orgId⟩) ⟨"o", .orgId⟩ (.text orgId)
    { rows := .table .orgs "o", cond := q.sql, bind := q.bind }

def mayQuery {K : ResourceKind} (action : ActionOn K) (resource : Resource K) : BoundQuery :=
  RESOURCE_QUERY K resource fun row => maySql principal action row

/-- Whether a query has a first row; one whose values do not fit its placeholders is not run. -/
def BoundQuery.first (q : BoundQuery) (db : Tables) : Bool :=
  match (Cond.select q.rows q.cond).fill q.bind with
  | some (cond, []) => cond.Holds db id fun _ _ => .null
  | _ => false

def may {K : ResourceKind} (db : Tables) (action : ActionOn K) (resource : Resource K) : Bool :=
  (mayQuery principal action resource).first db

def mayGuard {K : ResourceKind} (action : ActionOn K) (resource : Resource K) : BoundSql :=
  let query := mayQuery principal action resource
  { sql := .select query.rows query.cond, bind := query.bind }

/-- `read` on session `s` for the person a column of the caller's query names. -/
def sessionReaderSql (s : String) (user : ColumnOf) : Sql :=
  (Cond.and (activePrincipalSql false USER ACTOR) (sessionRuleSql .read (.col s) false USER ACTOR)).subst fun
    | .user => user.scalar
    | .actor => .hole ()

def admittingShareSql (session : String) : BoundScalar :=
  bindPrincipalScalar principal (admittingShareTemplate principal.actorId.isSome (.col session) USER ACTOR)

end

/-- Wherever it stands in a statement, its values bound in order, the text comes to the condition. -/
def BoundSql.Fills (b : BoundSql) (cond : Cond Table Column Value) : Prop :=
  ∀ more, b.sql.fill (b.bind ++ more) = some (cond, more)

/-- The condition a statement asks over a row holds where `p` does. -/
def BoundSql.Answers (b : BoundSql) (db : Tables) (env : Env Column) (p : Prop) : Prop :=
  ∃ cond, b.Fills cond ∧ (cond.Holds db id env ↔ p)

/-- The value a statement asks over a row is `v`. -/
def BoundScalar.Gives (b : BoundScalar) (db : Tables) (env : Env Column) (v : Value) : Prop :=
  ∃ a, (∀ more, b.sql.fill (b.bind ++ more) = some (a, more)) ∧ a.eval db id env = v

end Claxedo.Access

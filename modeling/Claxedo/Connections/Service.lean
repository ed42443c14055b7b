import Claxedo.Connections.Tokens
import Claxedo.Lib.Table

/-! `createConnectionsService`: the calls that write connections, over a connection store and a credential store that share no
transaction. Each operation of a store is one step, and any of them may fail. -/

namespace Claxedo.Connections

open Claxedo.Lib

abbrev ConnectionFields := List (String × String)

inductive ConnectionMethod where
  | key
  | oauth
  deriving DecidableEq

structure Prompt where
  id : String
  isSecret : Bool := false

structure IntegrationDeclaration where
  methods : List ConnectionMethod
  prompts : List Prompt := []
  capabilities : List String := []

/-- Which parts of `auth` an implementation has. -/
structure IntegrationAuth where
  verify : Bool := false
  callback : Bool := false
  canonicalFields : Option (List String) := none

structure IntegrationEntry where
  decl : IntegrationDeclaration
  auth : IntegrationAuth

abbrev IntegrationRegistry := String → Option IntegrationEntry

def declaredNonSecretFields (decl : IntegrationDeclaration) (fields : ConnectionFields)
    (canonicalFieldIds : List String := []) : ConnectionFields :=
  let allowed := (decl.prompts.filter fun prompt => !prompt.isSecret).map Prompt.id ++ canonicalFieldIds
  fields.filter fun field => field.1 ∈ allowed

/-- The implementation's values over the caller's, through the same filter. -/
def canonicalFields (entry : IntegrationEntry) (fields : ConnectionFields) : Option ConnectionFields → ConnectionFields
  | none => fields
  | some verified =>
    (declaredNonSecretFields entry.decl verified (entry.auth.canonicalFields.getD [])).foldl
      (fun fields field => Assoc.assign field.1 field.2 fields) fields

/-- Connection ids are numbered as `newId` mints them. -/
structure ConnectionRow where
  id : ℕ
  integrationId : String
  owner : Option String
  accountLabel : Option String := none
  grantedCapabilities : List String := []
  fields : ConnectionFields := []
  createdAt : ℕ
  updatedAt : ℕ

namespace ConnectionStore

def held (row : ConnectionRow) (rows : List ConnectionRow) : Bool :=
  rows.any fun stored => stored.integrationId = row.integrationId && stored.owner = row.owner && stored.id ≠ row.id

/-- `none` is the refusal with `ConnectionExistsError`. -/
def upsert (row : ConnectionRow) (rows : List ConnectionRow) : Option (List ConnectionRow) :=
  if held row rows then none else some (Table.put ConnectionRow.id row rows)

def get (integrationId : String) (owner : Option String) (rows : List ConnectionRow) : Option ConnectionRow :=
  (rows.filter fun row => row.owner = owner).find? fun row => row.integrationId = integrationId

def getById (id : ℕ) (rows : List ConnectionRow) : Option ConnectionRow := Table.get ConnectionRow.id id rows

def list (owner : String) (rows : List ConnectionRow) : List ConnectionRow := rows.filter fun row => row.owner = some owner

def delete (id : ℕ) (rows : List ConnectionRow) : List ConnectionRow := rows.filter fun row => row.id ≠ id

end ConnectionStore

/-- A connection's own credential, and the signing material the removed webhook routes may have left. -/
inductive ProviderId where
  | connection (id : ℕ)
  | webhookSigning (id : ℕ)
  deriving DecidableEq

/-- A credential of the store, and the call that put it. -/
structure StoredCredential where
  call : ℕ
  credential : Credential

inductive VerifyReason where
  | unauthorized
  | network

inductive VerifyResult where
  | ok (fields : Option ConnectionFields) (accountLabel : Option String)
  | refused (reason : VerifyReason)

structure OAuthTokens where
  accessToken : String
  refreshToken : Option ℕ
  expiresAt : Option ℤ
  fields : Option ConnectionFields := none

def OAuthTokens.secret (tokens : OAuthTokens) : Secret := .envelope ⟨tokens.accessToken, tokens.refreshToken⟩

structure ConnectInput where
  integrationId : String
  owner : Option String
  fields : ConnectionFields := []
  secret : String
  confirmReplace : Bool := false

/-- What an OAuth attempt remembers of who started it. -/
structure PendingAttempt where
  integrationId : String
  owner : Option String

inductive ConnectRefusal where
  | unknownIntegration
  | connectionExists
  | verifyFailed (reason : VerifyReason)

inductive ReverifyAnswer where
  | verified (result : VerifyResult)
  | unsupported
  | missing

/-- How a call ends. The device grant's answer is what its attempt is settled with. -/
inductive ServiceAnswer where
  | connected
  | refused (refusal : ConnectRefusal)
  | callback (ok : Bool)
  | deviceSettled (ok : Bool)
  | removed (removed : Bool)
  | removedOwner (removed : ℕ)
  | reverified (answer : ReverifyAnswer)
  | threw

/-- The three callers of `storeConnection`. -/
inductive Connecting where
  | connect
  | handleCallback
  | deviceGrant

def Connecting.stored : Connecting → ServiceAnswer
  | connect => .connected
  | handleCallback => .callback true
  | deviceGrant => .deviceSettled true

def Connecting.failed : Connecting → ServiceAnswer
  | connect => .threw
  | handleCallback => .callback false
  | deviceGrant => .deviceSettled false

/-- The input of `storeConnection`. -/
structure Grant where
  caller : Connecting
  integrationId : String
  owner : Option String
  fields : ConnectionFields
  accountLabel : Option String := none
  kind : CredentialKind
  secret : Secret
  expiresAt : Option ℤ := none

def Grant.credential (grant : Grant) : Credential := ⟨grant.kind, .available, grant.secret, grant.expiresAt⟩

/-- A `storeConnection` past its read: the id it writes, and when the row it found was created. -/
structure Storing where
  grant : Grant
  id : ℕ
  createdAt : Option ℕ

inductive RemovalPart where
  | credential
  | webhookSigning
  | row
  deriving DecidableEq

/-- What `removeOwner` has still to do after the row at hand. -/
structure Cascade where
  owner : String
  rest : List ConnectionRow
  removed : ℕ

/-- The removal of one connection, by `remove` or within a cascade. -/
structure Removal where
  id : ℕ
  part : RemovalPart
  cascade : Option Cascade

/-- Where a call stands: the operation it awaits, or how it ended. -/
inductive ServiceStage where
  | asking (input : ConnectInput)
  | verifying (input : ConnectInput) (fields : ConnectionFields)
  | exchanging (pending : PendingAttempt)
  | looking (grant : Grant)
  | putting (storing : Storing)
  | confirming (storing : Storing)
  | upserting (storing : Storing)
  | finding (id : ℕ)
  | readingSecret (row : ConnectionRow)
  | reverifying (row : ConnectionRow) (secret : Secret)
  | marking (row : ConnectionRow) (fields : Option ConnectionFields) (accountLabel : Option String)
  | rewriting (row : ConnectionRow) (fields : Option ConnectionFields) (accountLabel : Option String)
  | seeking (id : ℕ)
  | listing (owner : String)
  | removing (removal : Removal)
  | ended (answer : ServiceAnswer)

/-- `connected` is which call last stored each connection's row with success. -/
structure Service where
  rows : List ConnectionRow := []
  credentials : List (ProviderId × StoredCredential) := []
  minted : ℕ := 0
  calls : List ServiceStage := []
  connected : List (ℕ × ℕ) := []

/-- What is asked of the service. A callback carries what `attempts.consume` answered, a device grant the tokens its poll was
answered with and the label its `verify` came to. -/
inductive Request where
  | connect (input : ConnectInput)
  | handleCallback (pending : Option PendingAttempt) (code : Option String)
  | deviceGrant (pending : PendingAttempt) (tokens : OAuthTokens) (accountLabel : Option String)
  | reverify (id : ℕ)
  | remove (id : ℕ)
  | removeOwner (owner : String)

section
variable (registry : IntegrationRegistry)

def verifies (integrationId : String) : Bool := (registry integrationId).any fun entry => entry.auth.verify

def Request.stage : Request → ServiceStage
  | connect input =>
    match registry input.integrationId with
    | none => .ended (.refused .unknownIntegration)
    | some entry =>
      if .key ∈ entry.decl.methods ∧ entry.auth.verify = true then .asking input else .ended (.refused .unknownIntegration)
  | handleCallback none _ => .ended (.callback false)
  | handleCallback (some _) none => .ended (.callback false)
  | handleCallback (some pending) (some _) =>
    if (registry pending.integrationId).any fun entry => entry.auth.callback then .exchanging pending else .ended (.callback false)
  | deviceGrant pending tokens accountLabel =>
    .looking
      { caller := .deviceGrant, integrationId := pending.integrationId, owner := pending.owner, fields := [],
        accountLabel := accountLabel, kind := .oauthToken, secret := tokens.secret, expiresAt := tokens.expiresAt }
  | reverify id => .finding id
  | remove id => .seeking id
  | removeOwner owner => if owner = "" then .ended (.removedOwner 0) else .listing owner

/-- The next row of a cascade, which steps past rows of another owner. -/
def nextRemoval (owner : String) (removed : ℕ) : List ConnectionRow → ServiceStage
  | [] => .ended (.removedOwner removed)
  | row :: rest =>
    if row.owner ≠ some owner then nextRemoval owner removed rest
    else .removing ⟨row.id, .credential, some ⟨owner, rest, removed⟩⟩

/-- After a row's deletion, with whether there was one. -/
def Removal.next (removal : Removal) (deleted : Bool) : ServiceStage :=
  match removal.cascade with
  | none => .ended (.removed deleted)
  | some cascade => nextRemoval cascade.owner (if deleted then cascade.removed + 1 else cascade.removed) cascade.rest

/-- How a call ends that an operation failed. -/
def ServiceStage.failed : ServiceStage → ServiceStage
  | exchanging _ => .ended Connecting.handleCallback.failed
  | looking grant => .ended grant.caller.failed
  | putting storing | confirming storing | upserting storing => .ended storing.grant.caller.failed
  | ended answer => .ended answer
  | _ => .ended .threw

def Storing.row (storing : Storing) (now : ℕ) : ConnectionRow where
  id := storing.id
  integrationId := storing.grant.integrationId
  owner := storing.grant.owner
  accountLabel := storing.grant.accountLabel
  grantedCapabilities := ((registry storing.grant.integrationId).map fun entry => entry.decl.capabilities).getD []
  fields := storing.grant.fields
  createdAt := storing.createdAt.getD now
  updatedAt := now

/-- The row's fields in the form its implementation gives them. -/
def canonical (row : ConnectionRow) (fields : Option ConnectionFields) : ConnectionFields :=
  match registry row.integrationId with
  | none => row.fields
  | some entry => canonicalFields entry row.fields fields

end

namespace Service

def credential (s : Service) (id : ℕ) : Option StoredCredential := Assoc.lookup (.connection id) s.credentials

def set (s : Service) (i : ℕ) (stage : ServiceStage) : Service := { s with calls := s.calls.modify i fun _ => stage }

def put (s : Service) (key : ProviderId) (stored : StoredCredential) : Service :=
  { s with credentials := Assoc.assign key stored s.credentials }

def deleteByProvider (s : Service) (key : ProviderId) : Service := { s with credentials := Assoc.erase key s.credentials }

def setAvailable (s : Service) (id : ℕ) : Service :=
  match s.credential id with
  | none => s
  | some stored => s.put (.connection id) { stored with credential := { stored.credential with status := .available } }

def deleteRow (s : Service) (id : ℕ) : Service := { s with rows := ConnectionStore.delete id s.rows }

/-- The operation call `i` awaits lands, and the call goes on to its next. -/
def land (registry : IntegrationRegistry) (s : Service) (i now : ℕ) : ServiceStage → Service
  | .asking input =>
    if (ConnectionStore.get input.integrationId input.owner s.rows).isSome = true ∧ input.confirmReplace = false then
      s.set i (.ended (.refused .connectionExists))
    else
      match registry input.integrationId with
      | none => s.set i (.ended (.refused .unknownIntegration))
      | some entry => s.set i (.verifying input (declaredNonSecretFields entry.decl input.fields))
  | .looking grant =>
    match ConnectionStore.get grant.integrationId grant.owner s.rows with
    | some existing => s.set i (.putting ⟨grant, existing.id, some existing.createdAt⟩)
    | none => { s with minted := s.minted + 1 }.set i (.putting ⟨grant, s.minted, none⟩)
  | .putting storing => (s.put (.connection storing.id) ⟨i, storing.grant.credential⟩).set i (.confirming storing)
  | .confirming storing =>
    if s.credential storing.id = none then s.set i (.ended storing.grant.caller.failed) else s.set i (.upserting storing)
  | .upserting storing =>
    match ConnectionStore.upsert (storing.row registry now) s.rows with
    | none => s.set i (.ended storing.grant.caller.failed)
    | some rows =>
      { s with rows, connected := Assoc.assign storing.id i s.connected }.set i (.ended storing.grant.caller.stored)
  | .finding id =>
    match ConnectionStore.getById id s.rows with
    | none => s.set i (.ended (.reverified .unsupported))
    | some row =>
      if verifies registry row.integrationId then s.set i (.readingSecret row) else s.set i (.ended (.reverified .unsupported))
  | .readingSecret row =>
    match s.credential row.id with
    | none => s.set i (.ended (.reverified .missing))
    | some stored => s.set i (.reverifying row stored.credential.secret)
  | .marking row fields accountLabel =>
    if canonical registry row fields = row.fields then
      (s.setAvailable row.id).set i (.ended (.reverified (.verified (.ok fields accountLabel))))
    else (s.setAvailable row.id).set i (.rewriting row fields accountLabel)
  | .rewriting row fields accountLabel =>
    match ConnectionStore.upsert { row with fields := canonical registry row fields, updatedAt := now } s.rows with
    | none => s.set i (.ended .threw)
    | some rows => { s with rows }.set i (.ended (.reverified (.verified (.ok fields accountLabel))))
  | .seeking id =>
    match ConnectionStore.getById id s.rows with
    | none => s.set i (.ended (.removed false))
    | some row => s.set i (.removing ⟨row.id, .credential, none⟩)
  | .listing owner => s.set i (nextRemoval owner 0 (ConnectionStore.list owner s.rows))
  | .removing ⟨id, .credential, cascade⟩ =>
    (s.deleteByProvider (.connection id)).set i (.removing ⟨id, .webhookSigning, cascade⟩)
  | .removing ⟨id, .webhookSigning, cascade⟩ =>
    (s.deleteByProvider (.webhookSigning id)).set i (.removing ⟨id, .row, cascade⟩)
  | .removing ⟨id, .row, cascade⟩ =>
    (s.deleteRow id).set i (Removal.next ⟨id, .row, cascade⟩ (ConnectionStore.getById id s.rows).isSome)
  -- these await the provider, or nothing
  | .verifying .. | .exchanging _ | .reverifying .. | .ended _ => s

/-- The implementation's `verify` answers the call that asked it, or throws. -/
def verified (s : Service) (registry : IntegrationRegistry) (i : ℕ) (result : Option VerifyResult) : ServiceStage → Service
  | .verifying input fields =>
    match result with
    | none => s.set i (.ended .threw)
    | some (.refused reason) => s.set i (.ended (.refused (.verifyFailed reason)))
    | some (.ok verified accountLabel) =>
      s.set i (.looking
        { caller := .connect, integrationId := input.integrationId, owner := input.owner,
          fields := ((registry input.integrationId).map fun entry => canonicalFields entry fields verified).getD fields,
          accountLabel := accountLabel, kind := .apiKey, secret := .text input.secret })
  | .reverifying row _ =>
    match result with
    | none => s.set i (.ended .threw)
    | some (.refused reason) => s.set i (.ended (.reverified (.verified (.refused reason))))
    | some (.ok fields accountLabel) => s.set i (.marking row fields accountLabel)
  | _ => s

/-- The provider answers a callback's code with tokens, or the exchange throws. -/
def exchanged (s : Service) (registry : IntegrationRegistry) (i : ℕ) (tokens : Option OAuthTokens) : ServiceStage → Service
  | .exchanging pending =>
    match tokens with
    | none => s.set i (.ended (.callback false))
    | some tokens =>
      s.set i (.looking
        { caller := .handleCallback, integrationId := pending.integrationId, owner := pending.owner,
          fields := ((registry pending.integrationId).map fun entry => canonicalFields entry [] tokens.fields).getD [],
          kind := .oauthToken, secret := tokens.secret, expiresAt := tokens.expiresAt })
  | _ => s

end Service

/-- What happens next: a call comes in, an operation of call `i` lands or fails, or the provider answers call `i`. -/
inductive ServiceEvent where
  | start (request : Request)
  | operation (i : ℕ) (fails : Bool) (now : ℕ)
  | verified (i : ℕ) (result : Option VerifyResult)
  | exchanged (i : ℕ) (tokens : Option OAuthTokens)

namespace Service

def step (registry : IntegrationRegistry) (s : Service) : ServiceEvent → Service
  | .start request => { s with calls := s.calls ++ [request.stage registry] }
  | .operation i fails now =>
    match s.calls[i]? with
    | none => s
    | some stage => if fails then s.set i stage.failed else s.land registry i now stage
  | .verified i result =>
    match s.calls[i]? with
    | none => s
    | some stage => s.verified registry i result stage
  | .exchanged i tokens =>
    match s.calls[i]? with
    | none => s
    | some stage => s.exchanged registry i tokens stage

end Service

end Claxedo.Connections

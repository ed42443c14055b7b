import Claxedo.Lib.Lists
import Claxedo.Lib.Run

/-! `createTokenService` over one connection: a live token is read, or refreshed by one refresh at a time, over a credential
store whose answers take their time. -/

namespace Claxedo.Connections

open Claxedo.Lib

inductive CredentialKind where
  | apiKey
  | oauthToken
  deriving DecidableEq

inductive CredentialStatus where
  | available
  | expired
  | revoked
  | error
  deriving DecidableEq

/-- Refresh tokens are numbered as the provider issues them. -/
structure OAuthEnvelope where
  access : String
  refresh : Option ℕ
  deriving DecidableEq

/-- A stored secret: a key's text, or the JSON of an envelope. -/
inductive Secret where
  | text (text : String)
  | envelope (envelope : OAuthEnvelope)
  deriving DecidableEq

structure Credential where
  kind : CredentialKind
  status : CredentialStatus
  secret : Secret
  expiresAt : Option ℤ
  deriving DecidableEq

/-- What `get` tells of a credential. -/
structure CredentialRecord where
  kind : CredentialKind
  status : CredentialStatus
  expiresAt : Option ℤ

def Credential.record (credential : Credential) : CredentialRecord := ⟨credential.kind, credential.status, credential.expiresAt⟩

def REFRESH_BUFFER_MS : ℤ := 5 * 60000

def parseEnvelope : Secret → Option OAuthEnvelope
  | .text _ => none
  | .envelope envelope => if envelope.access = "" then none else some envelope

/-- How a read of the store goes: it throws `ConnectionsUnavailableError` or another error, or answers. -/
inductive StoreRead (α : Type) where
  | answered (answer : α)
  | unavailable
  | threw

inductive TokenType where
  | bearer
  | basic

/-- The declaration's and the implementation's parts that the token path reads. -/
structure Integration where
  keyTokenType : Option TokenType
  refreshes : Bool

inductive TokenFailure where
  | notAvailable (credentialStatus : String)
  | unavailable
  | refreshTransient
  | threw

inductive TokenAnswer where
  | token (token : Secret) (tokenType : TokenType) (fields : List (String × String))
  | failed (failure : TokenFailure)

def CredentialStatus.text : CredentialStatus → String
  | available => "available"
  | expired => "expired"
  | revoked => "revoked"
  | error => "error"

inductive RefreshAnswer where
  | accepted (accessToken : String) (refreshToken : Option ℕ) (expiresAt : Option ℤ)
  | refused
  | transient
  deriving DecidableEq

inductive RefreshOutcome where
  | refreshed
  | refused
  | transient
  deriving DecidableEq

/-- `refreshOnce` and its `finally`. -/
inductive RefreshStage where
  | asking
  | answered (answer : RefreshAnswer)
  | putting (credential : Credential) (landed : Bool)
  | settingError (landed : Bool)
  | settling (outcome : RefreshOutcome)
  | settled (outcome : RefreshOutcome)
  deriving DecidableEq

/-- A refresh: the token it passed on, how many credentials had been stored when it started, and what the provider answered. -/
structure Refresh where
  token : ℕ
  after : ℕ
  answer : Option RefreshAnswer := none
  stage : RefreshStage := .asking
  deriving DecidableEq

inductive TokenStage where
  | getting
  | got (record : StoreRead (Option CredentialRecord))
  | reading (record : CredentialRecord)
  | read (record : CredentialRecord) (secret : StoreRead (Option Secret))
  | settingError (landed : Bool)
  | awaiting (refresh : ℕ)
  | rereading
  | reread (secret : StoreRead (Option Secret))
  | ended (answer : TokenAnswer)

structure TokenService where
  integration : Option Integration
  fields : List (String × String) := []
  credential : Option Credential := none
  stored : ℕ := 0
  issued : ℕ := 0
  inflight : Option ℕ := none
  refreshes : List Refresh := []
  calls : List TokenStage := []

namespace TokenService

def setCall (s : TokenService) (i : ℕ) (stage : TokenStage) : TokenService := { s with calls := s.calls.set i stage }

def fail (s : TokenService) (i : ℕ) (failure : TokenFailure) : TokenService := s.setCall i (.ended (.failed failure))

def setRefresh (s : TokenService) (r : ℕ) (stage : RefreshStage) : TokenService :=
  { s with refreshes := s.refreshes.modify r fun refresh => { refresh with stage := stage } }

def put (s : TokenService) (credential : Credential) : TokenService := { s with credential := some credential, stored := s.stored + 1 }

def setStatus (s : TokenService) (status : CredentialStatus) : TokenService :=
  { s with credential := s.credential.map fun credential => { credential with status := status } }

/-- The secret of a credential that is available. -/
def resolveSecret (s : TokenService) : Option Secret :=
  match s.credential with
  | some credential => if credential.status = .available then some credential.secret else none
  | none => none

/-- `getLiveToken` up to its first read. -/
def getLiveToken (s : TokenService) : TokenService :=
  { s with
    calls := s.calls ++
      [match s.integration with
        | none => .ended (.failed (.notAvailable "reconnect_required"))
        | some _ => .getting] }

/-- `refreshOnce` up to the provider, or to the status of a credential that nothing can refresh. -/
def refreshOnce (s : TokenService) (refreshToken : ℕ) : TokenService :=
  { s with
    refreshes := s.refreshes ++
      [{ token := refreshToken
         after := s.stored
         stage := if (s.integration.map Integration.refreshes).getD false then .asking else .settingError false }]
    inflight := some s.refreshes.length }

def joinRefresh (s : TokenService) (i refreshToken : ℕ) : TokenService :=
  match s.inflight with
  | some r => s.setCall i (.awaiting r)
  | none => (s.refreshOnce refreshToken).setCall i (.awaiting s.refreshes.length)

def fresh (record : CredentialRecord) (now : ℤ) : Bool :=
  match record.expiresAt with
  | none => true
  | some expiresAt => expiresAt - now > REFRESH_BUFFER_MS

/-- A call's read or write takes effect. -/
def land (s : TokenService) (i : ℕ) (fails : Option Bool) : TokenService :=
  match s.calls[i]? with
  | some .getting =>
    s.setCall i (.got (match fails with
      | none => .answered (s.credential.map Credential.record)
      | some unavailable => if unavailable then .unavailable else .threw))
  | some (.reading record) =>
    s.setCall i (.read record (match fails with
      | none => .answered s.resolveSecret
      | some unavailable => if unavailable then .unavailable else .threw))
  | some (.settingError false) => (s.setStatus .error).setCall i (.settingError true)
  | some .rereading =>
    s.setCall i (.reread (match fails with
      | none => .answered s.resolveSecret
      | some unavailable => if unavailable then .unavailable else .threw))
  | _ => s

/-- `getLiveToken` goes on after a read, a write or a refresh. -/
def resume (s : TokenService) (i : ℕ) (now : ℤ) : TokenService :=
  match s.calls[i]? with
  | some (.got .unavailable) | some (.read _ .unavailable) | some (.reread .unavailable) => s.fail i .unavailable
  | some (.got .threw) | some (.read _ .threw) | some (.reread .threw) => s.fail i .threw
  | some (.got (.answered none)) => s.fail i (.notAvailable "missing")
  | some (.got (.answered (some record))) =>
    if record.status ≠ .available then s.fail i (.notAvailable record.status.text)
    else if record.kind = .apiKey ∧ (s.integration.bind Integration.keyTokenType).isNone then s.fail i (.notAvailable "reconnect_required")
    else s.setCall i (.reading record)
  | some (.read record (.answered none)) => s.fail i (.notAvailable record.status.text)
  | some (.read record (.answered (some secret))) =>
    match record.kind with
    | .apiKey =>
      match s.integration.bind Integration.keyTokenType with
      | some tokenType => s.setCall i (.ended (.token secret tokenType s.fields))
      | none => s
    | .oauthToken =>
      match parseEnvelope secret with
      | none => s.fail i (.notAvailable "error")
      | some envelope =>
        if fresh record now then s.setCall i (.ended (.token (.text envelope.access) .bearer s.fields))
        else
          match envelope.refresh with
          | none => s.setCall i (.settingError false)
          | some refreshToken => s.joinRefresh i refreshToken
  | some (.settingError true) => s.fail i (.notAvailable "error")
  | some (.awaiting r) =>
    match (s.refreshes[r]?).map Refresh.stage with
    | some (.settled .refreshed) => s.setCall i .rereading
    | some (.settled .refused) => s.fail i (.notAvailable "error")
    | some (.settled .transient) => s.fail i .refreshTransient
    | _ => s
  | some (.reread (.answered secret)) =>
    match secret.bind parseEnvelope with
    | none => s.fail i (.notAvailable "error")
    | some envelope => s.setCall i (.ended (.token (.text envelope.access) .bearer s.fields))
  | _ => s

/-- The provider had accepted the token before. -/
def accepted (s : TokenService) (token : ℕ) : Bool :=
  s.refreshes.any fun refresh => refresh.token = token && match refresh.answer with
    | some (.accepted ..) => true
    | _ => false

/-- What the provider says: it accepts a token once, and where it rotates tokens hands out a new one for it. -/
inductive ProviderTold where
  | accepts (accessToken : String) (rotates : Bool) (expiresAt : Option ℤ)
  | refuses
  | fails
  deriving DecidableEq

def providerAnswer (s : TokenService) (token : ℕ) : ProviderTold → RefreshAnswer
  | .accepts accessToken rotates expiresAt =>
    if s.accepted token then .refused else .accepted accessToken (if rotates then some s.issued else none) expiresAt
  | .refuses => .refused
  | .fails => .transient

def provide (s : TokenService) (r : ℕ) (told : ProviderTold) : TokenService :=
  match s.refreshes[r]? with
  | none => s
  | some refresh =>
    match refresh.stage with
    | .asking =>
      let answer := s.providerAnswer refresh.token told
      { s with
        refreshes := s.refreshes.modify r fun refresh => { refresh with answer := some answer, stage := .answered answer }
        issued := s.issued + 1 }
    | _ => s

/-- `refreshOnce` goes on after the provider's answer or its write, and its `finally` after that. -/
def resumeRefresh (s : TokenService) (r : ℕ) : TokenService :=
  match s.refreshes[r]? with
  | none => s
  | some refresh =>
    match refresh.stage with
    | .answered (.accepted accessToken refreshToken expiresAt) =>
      s.setRefresh r (.putting ⟨.oauthToken, .available, .envelope ⟨accessToken, some (refreshToken.getD refresh.token)⟩,
          expiresAt⟩ false)
    | .answered .refused => s.setRefresh r (.settingError false)
    | .answered .transient => s.setRefresh r (.settling .transient)
    | .putting _ true => s.setRefresh r (.settling .refreshed)
    | .settingError true => s.setRefresh r (.settling .refused)
    | .settling outcome => { s.setRefresh r (.settled outcome) with inflight := none }
    | _ => s

/-- A refresh's write takes effect. -/
def landRefresh (s : TokenService) (r : ℕ) : TokenService :=
  match s.refreshes[r]? with
  | none => s
  | some refresh =>
    match refresh.stage with
    | .putting credential false => (s.put credential).setRefresh r (.putting credential true)
    | .settingError false => (s.setStatus .error).setRefresh r (.settingError true)
    | _ => s

/-- `storeConnection` stores a new credential; a grant's refresh token is the provider's newest. -/
def reconnect (s : TokenService) (kind : CredentialKind) (text : String) (refreshes : Bool) (expiresAt : Option ℤ) : TokenService :=
  match kind with
  | .apiKey => s.put ⟨.apiKey, .available, .text text, expiresAt⟩
  | .oauthToken =>
    { s.put ⟨.oauthToken, .available, .envelope ⟨text, if refreshes then some s.issued else none⟩, expiresAt⟩ with issued := s.issued + 1 }

end TokenService

inductive TokenLabel where
  | call
  | land (call : ℕ) (fails : Option Bool)
  | resume (call : ℕ) (now : ℤ)
  | provide (refresh : ℕ) (told : TokenService.ProviderTold)
  | resumeRefresh (refresh : ℕ)
  | landRefresh (refresh : ℕ)
  | reconnect (kind : CredentialKind) (text : String) (refreshes : Bool) (expiresAt : Option ℤ)

def TokenService.step (s : TokenService) : TokenLabel → TokenService
  | .call => s.getLiveToken
  | .land call fails => s.land call fails
  | .resume call now => s.resume call now
  | .provide refresh told => s.provide refresh told
  | .resumeRefresh refresh => s.resumeRefresh refresh
  | .landRefresh refresh => s.landRefresh refresh
  | .reconnect kind text refreshes expiresAt => s.reconnect kind text refreshes expiresAt

end Claxedo.Connections

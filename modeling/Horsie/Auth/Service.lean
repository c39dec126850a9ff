import Horsie.Auth.Store
import Horsie.Lib.Transition

/-!
# The service, statement by statement

A request to the service is a sequence of statements on the shared tables, and the statements of any
number of requests, on any number of servers, run in any order. `Task` is where a request stands:
the statement it runs next, with all it has read, or its answer. A request that never gets another
turn is one whose server died.
-/

namespace Horsie.Auth

open Horsie.Lib

def webTokenTtlSecs : ℤ := 30 * 24 * 60 * 60
def accessTokenTtlSecs : ℤ := 60 * 60
def refreshTokenTtlSecs : ℤ := 90 * 24 * 60 * 60
def deviceCodeTtlSecs : ℤ := 600
def devicePollIntervalSecs : ℤ := 5
def userCodeLen : ℕ := 8

/-- What a human types, in upper case and with its dash. -/
def normalizeUserCode (input : String) : String :=
  let bare := (input.toList.filter Char.isAlphanum).map Char.toUpper
  if bare.length = userCodeLen then
    String.ofList (bare.take (userCodeLen / 2)) ++ "-" ++
      String.ofList (bare.drop (userCodeLen / 2))
  else String.ofList bare

/-! ## Requests -/

inductive Request
  | startDeviceAuthorization
  | approveDevice (userCode : String) (principal : Principal)
  | denyDevice (userCode : String)
  | pollDeviceToken (deviceCode : String)
  | refresh (refreshToken : String)
  | login (principal : Principal)
  | mintAgentToken (label : String) (principal : Principal)
  | revokeToken (id : String)
deriving DecidableEq

inductive DeviceError
  | authorizationPending
  | slowDown
  | expiredToken
  | accessDenied
  | internal
deriving DecidableEq

structure DeviceAuthorization where
  deviceCode : String
  userCode : String
  expiresIn : ℤ
  interval : ℤ
deriving DecidableEq

structure IssuedTokens where
  accessToken : String
  refreshToken : String
  expiresIn : ℤ
deriving DecidableEq

inductive Answer
  | authorized (code : DeviceAuthorization)
  | flag (value : Bool)
  | issued (pair : IssuedTokens)
  | refused (error : DeviceError)
  | minted (secret id : String)
  | failed
deriving DecidableEq

inductive Task
  | purgeExpired
  | insertDeviceCode
  | approveDeviceCode (userCode : String) (principal : Principal)
  | denyDeviceCode (userCode : String)
  | getDeviceCode (deviceHash : String)
  | consumeDeviceCode (deviceHash : String) (principal : Principal)
  | markDevicePolled (deviceHash : String)
  | lookupToken (hash : String)
  | revokeChain (chainId : String)
  /-- The update of `revoke_token` of a token presented to be rotated. -/
  | retireToken (id : String) (principal : Principal) (chainId : Option String)
  /-- The query after it, where it touched no row: nobody reads its result. -/
  | retiredExists (id : String) (principal : Principal) (chainId : Option String)
  | insertAccess (principal : Principal) (chainId : String)
  | insertRefresh (principal : Principal) (chainId accessToken : String)
  | insertToken (kind : TokenKind) (principal : Principal) (label : Option String)
    (ttl : Option ℤ)
  | revokeToken (id : String)
  | tokenExists (id : String)
  | done (answer : Answer)
deriving DecidableEq

/-- Everything a statement may have generated just before it. -/
structure Generated where
  secret : String
  id : String
  userCode : String
deriving DecidableEq

section

variable (hashSecret : String → String)

def Request.begin : Request → Task
  | startDeviceAuthorization => .purgeExpired
  | approveDevice userCode principal => .approveDeviceCode (normalizeUserCode userCode) principal
  | denyDevice userCode => .denyDeviceCode (normalizeUserCode userCode)
  | pollDeviceToken deviceCode => .getDeviceCode (hashSecret deviceCode)
  | refresh refreshToken =>
    if parse refreshToken = some .refresh then .lookupToken (hashSecret refreshToken)
    else .done (.refused .accessDenied)
  | login principal => .insertToken .web principal none (some webTokenTtlSecs)
  | mintAgentToken label principal =>
    if (trim label).isEmpty then .done .failed
    else .insertToken .agent principal (some (trim label)) none
  | revokeToken id => .revokeToken id

/-- What a poll does with the row it read. -/
def Task.afterDeviceCode (now : ℤ) (deviceHash : String) : Option DeviceCode → Task
  | none => .done (.refused .expiredToken)
  | some row =>
    if row.consumedAt.isSome || decide (row.expiresAt ≤ now) then .done (.refused .expiredToken)
    else if row.deniedAt.isSome then .done (.refused .accessDenied)
    else
      match row.principal with
      | some principal => .consumeDeviceCode deviceHash principal
      | none =>
        if row.lastPolledAt.any fun t => decide (now - t < devicePollIntervalSecs) then
          .done (.refused .slowDown)
        else .markDevicePolled deviceHash

/-- What a refresh does with the row it read. -/
def Task.afterToken (now : ℤ) : Option Token → Task
  | none => .done (.refused .accessDenied)
  | some row =>
    if row.kind ≠ .refresh then .done (.refused .accessDenied)
    else if row.revokedAt.isSome then
      match row.chainId with
      | some chainId => .revokeChain chainId
      | none => .done (.refused .accessDenied)
    else if row.expiresAt.any (fun t => decide (t ≤ now)) then .done (.refused .accessDenied)
    else .retireToken row.id row.principal row.chainId

def afterInsert (s : AuthStore) (inserted : Option AuthStore) (next failed : Task) :
    AuthStore × Task :=
  match inserted with
  | some s' => (s', next)
  | none => (s, failed)

/-- The next statement of a task, with what was generated for it: the tables after it, and where
the task stands then. -/
def Task.run (now : ℤ) (new : Generated) (s : AuthStore) : Task → AuthStore × Task
  | purgeExpired => (s.purgeExpiredDeviceCodes now, .insertDeviceCode)
  | insertDeviceCode =>
    afterInsert s
      (s.insertDeviceCode (hashSecret new.secret) new.userCode now (now + deviceCodeTtlSecs))
      (.done (.authorized
        ⟨new.secret, new.userCode, deviceCodeTtlSecs, devicePollIntervalSecs⟩))
      (.done .failed)
  | approveDeviceCode userCode principal =>
    let (s, approved) := s.approveDeviceCode userCode principal now
    (s, .done (.flag approved))
  | denyDeviceCode userCode =>
    let (s, denied) := s.denyDeviceCode userCode now
    (s, .done (.flag denied))
  | getDeviceCode deviceHash => (s, .afterDeviceCode now deviceHash (s.getDeviceCode deviceHash))
  | consumeDeviceCode deviceHash principal =>
    (s.consumeDeviceCode deviceHash now, .insertAccess principal new.id)
  | markDevicePolled deviceHash =>
    (s.markDevicePolled deviceHash now, .done (.refused .authorizationPending))
  | lookupToken hash => (s, .afterToken now (s.lookupTokenIncludingRevoked hash))
  | revokeChain chainId => (s.revokeChain chainId now, .done (.refused .accessDenied))
  | retireToken id principal chainId =>
    let (s, touched) := s.revokeToken id now
    (s, if touched then .insertAccess principal (chainId.getD new.id)
      else .retiredExists id principal chainId)
  | retiredExists _ principal chainId => (s, .insertAccess principal (chainId.getD new.id))
  | insertAccess principal chainId =>
    afterInsert s
      (s.insertToken new.id .access principal (hashSecret new.secret) none (some chainId)
        (some (now + accessTokenTtlSecs)) now)
      (.insertRefresh principal chainId new.secret) (.done (.refused .internal))
  | insertRefresh principal chainId accessToken =>
    afterInsert s
      (s.insertToken new.id .refresh principal (hashSecret new.secret) none (some chainId)
        (some (now + refreshTokenTtlSecs)) now)
      (.done (.issued ⟨accessToken, new.secret, accessTokenTtlSecs⟩)) (.done (.refused .internal))
  | insertToken kind principal label ttl =>
    afterInsert s
      (s.insertToken new.id kind principal (hashSecret new.secret) label none (ttl.map (now + ·))
        now)
      (.done (.minted new.secret new.id)) (.done .failed)
  | revokeToken id =>
    let (s, touched) := s.revokeToken id now
    (s, if touched then .done (.flag true) else .tokenExists id)
  | tokenExists id => (s, .done (.flag (s.tokenExists id)))
  | done answer => (s, .done answer)

end

/-! ## The system -/

/-- A request under way, or answered. Its time was read when it came. -/
structure Call where
  request : Request
  now : ℤ
  task : Task
deriving DecidableEq

structure World where
  store : AuthStore
  calls : List Call
  codes : List String
  replayed : List String

inductive Label
  | arrive (request : Request) (now : ℤ)
  | statement (call : ℕ) (new : Generated)
deriving DecidableEq

def World.init : World where
  store := .empty
  calls := []
  codes := []
  replayed := []

/-- The step of one label. A generated device code is one that was never generated before. -/
def World.step? (hashSecret : String → String) (w : World) : Label → Option World
  | .arrive request now =>
    some { w with calls := w.calls ++ [⟨request, now, request.begin hashSecret⟩] }
  | .statement i new =>
    match w.calls[i]? with
    | none => none
    | some call =>
      if call.task = .insertDeviceCode ∧ hashSecret new.secret ∈ w.codes then none
      else
        let (store, task) := call.task.run hashSecret call.now new w.store
        some
          { store
            calls := w.calls.set i { call with task }
            codes := if call.task = .insertDeviceCode then hashSecret new.secret :: w.codes
              else w.codes
            replayed :=
              match call.task with
              | .revokeChain chainId => chainId :: w.replayed
              | _ => w.replayed }

def service (hashSecret : String → String) : System World Label :=
  .ofStep? .init (World.step? hashSecret)

end Horsie.Auth

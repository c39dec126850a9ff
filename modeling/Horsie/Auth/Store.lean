import Horsie.Lib.Table
import Horsie.Lib.Text
import Mathlib.Data.Int.Basic

/-!
# Tokens and device codes

The rows of every issued token and of the device codes that are answered in a browser, and the
statements on them, each atomic. Which of them run, and in which order, is the service's business:
an update says how many rows it touched, and nothing here looks at that.
-/

namespace Horsie.Auth

open Horsie.Lib

inductive TokenKind
  | web
  | access
  | refresh
  | agent
deriving DecidableEq

def TokenKind.fromTag (tag : String) : Option TokenKind :=
  if tag = "web" then some .web
  else if tag = "usr" then some .access
  else if tag = "ref" then some .refresh
  else if tag = "agt" then some .agent
  else none

def parse (secret : String) : Option TokenKind :=
  match stripPrefix "hsk_" secret with
  | none => none
  | some rest =>
    match splitOnce ['_'] rest.toList with
    | none => none
    | some (tag, body) => if body.isEmpty then none else TokenKind.fromTag (String.ofList tag)

inductive Principal
  | anonymous
  | user (id : String)
deriving DecidableEq

/-! ## Rows -/

/-- A row of `auth_tokens`. -/
structure Token where
  id : String
  kind : TokenKind
  principal : Principal
  tokenHash : String
  label : Option String
  chainId : Option String
  expiresAt : Option ℤ
  createdAt : ℤ
  lastUsedAt : Option ℤ
  revokedAt : Option ℤ
deriving DecidableEq

/-- What `lookup_token` asks of a row. -/
def Token.live (row : Token) (now : ℤ) : Bool :=
  row.revokedAt.isNone && row.expiresAt.all (now < ·)

/-- A row of `auth_device_codes`. -/
structure DeviceCode where
  deviceCodeHash : String
  userCode : String
  principal : Option Principal
  createdAt : ℤ
  expiresAt : ℤ
  approvedAt : Option ℤ
  deniedAt : Option ℤ
  consumedAt : Option ℤ
  lastPolledAt : Option ℤ
deriving DecidableEq

def tokenKeys : List (Token → String) := [Token.id, Token.tokenHash]
def deviceCodeKeys : List (DeviceCode → String) := [DeviceCode.deviceCodeHash, DeviceCode.userCode]

/-- The two tables. -/
structure AuthStore where
  tokens : Table Token String tokenKeys
  deviceCodes : Table DeviceCode String deviceCodeKeys

namespace AuthStore

def empty : AuthStore where
  tokens := .empty
  deviceCodes := .empty

theorem tokenKeys_set {f : Token → Token} (hid : ∀ r, (f r).id = r.id)
    (hhash : ∀ r, (f r).tokenHash = r.tokenHash) : ∀ key ∈ tokenKeys, ∀ r, key (f r) = key r := by
  simp only [tokenKeys, List.forall_mem_cons]
  exact ⟨hid, hhash, fun _ h => absurd h List.not_mem_nil⟩

theorem deviceCodeKeys_set {f : DeviceCode → DeviceCode}
    (hhash : ∀ r, (f r).deviceCodeHash = r.deviceCodeHash)
    (huser : ∀ r, (f r).userCode = r.userCode) :
    ∀ key ∈ deviceCodeKeys, ∀ r, key (f r) = key r := by
  simp only [deviceCodeKeys, List.forall_mem_cons]
  exact ⟨hhash, huser, fun _ h => absurd h List.not_mem_nil⟩

variable (s : AuthStore)

/-! ## Tokens -/

def insertToken (id : String) (kind : TokenKind) (principal : Principal) (hash : String)
    (label chainId : Option String) (expiresAt : Option ℤ) (now : ℤ) : Option AuthStore :=
  (s.tokens.insert?
    { id, kind, principal, tokenHash := hash, label, chainId, expiresAt, createdAt := now
      lastUsedAt := none, revokedAt := none }).map fun tokens => { s with tokens }

/-- `UPDATE … SET revoked_at = now WHERE p AND revoked_at IS NULL`. -/
def revokeWhere (p : Token → Bool) (now : ℤ) : AuthStore :=
  { s with
    tokens := s.tokens.update (fun row => p row && row.revokedAt.isNone)
      (fun row => { row with revokedAt := some now })
      (tokenKeys_set (fun _ => rfl) fun _ => rfl) }

/-- The update of `revoke_token`, and whether it touched a row. -/
def revokeToken (id : String) (now : ℤ) : AuthStore × Bool :=
  (s.revokeWhere (fun row => decide (row.id = id)) now,
    s.tokens.affects fun row => decide (row.id = id) && row.revokedAt.isNone)

/-- The query `revoke_token` makes where its update touched no row. -/
def tokenExists (id : String) : Bool := (s.tokens.find Token.id id).isSome

def lookupTokenIncludingRevoked (hash : String) : Option Token := s.tokens.find Token.tokenHash hash

def revokeChain (chainId : String) (now : ℤ) : AuthStore :=
  s.revokeWhere (fun row => decide (row.chainId = some chainId)) now

/-! ## Device codes -/

def insertDeviceCode (deviceHash userCode : String) (now expiresAt : ℤ) : Option AuthStore :=
  (s.deviceCodes.insert?
    { deviceCodeHash := deviceHash, userCode, principal := none, createdAt := now, expiresAt
      approvedAt := none, deniedAt := none, consumedAt := none, lastPolledAt := none }).map
    fun deviceCodes => { s with deviceCodes }

def getDeviceCode (deviceHash : String) : Option DeviceCode :=
  s.deviceCodes.find DeviceCode.deviceCodeHash deviceHash

def answerable (userCode : String) (now : ℤ) (row : DeviceCode) : Bool :=
  decide (row.userCode = userCode) && decide (now < row.expiresAt) && row.approvedAt.isNone &&
    row.deniedAt.isNone

def approveDeviceCode (userCode : String) (principal : Principal) (now : ℤ) : AuthStore × Bool :=
  ({ s with
      deviceCodes := s.deviceCodes.update (answerable userCode now)
        (fun row => { row with approvedAt := some now, principal := some principal })
        (deviceCodeKeys_set (fun _ => rfl) fun _ => rfl) },
    s.deviceCodes.affects (answerable userCode now))

def denyDeviceCode (userCode : String) (now : ℤ) : AuthStore × Bool :=
  ({ s with
      deviceCodes := s.deviceCodes.update (answerable userCode now)
        (fun row => { row with deniedAt := some now })
        (deviceCodeKeys_set (fun _ => rfl) fun _ => rfl) },
    s.deviceCodes.affects (answerable userCode now))

def markDevicePolled (deviceHash : String) (now : ℤ) : AuthStore :=
  { s with
    deviceCodes := s.deviceCodes.update (fun row => decide (row.deviceCodeHash = deviceHash))
      (fun row => { row with lastPolledAt := some now })
      (deviceCodeKeys_set (fun _ => rfl) fun _ => rfl) }

def consumeDeviceCode (deviceHash : String) (now : ℤ) : AuthStore :=
  { s with
    deviceCodes := s.deviceCodes.update (fun row => decide (row.deviceCodeHash = deviceHash))
      (fun row => { row with consumedAt := some now })
      (deviceCodeKeys_set (fun _ => rfl) fun _ => rfl) }

def purgeExpiredDeviceCodes (now : ℤ) : AuthStore :=
  { s with deviceCodes := s.deviceCodes.delete fun row => decide (row.expiresAt ≤ now) }

end AuthStore

end Horsie.Auth

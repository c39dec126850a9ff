import Horsie.Lib.Text
import Mathlib.Data.Option.Basic

/-!
# The row of an MCP server

One server as it is stored: how it is authenticated to, and the columns a sign-in fills. An edit of
the settings keeps what it does not name, and saving a pair of tokens touches no other column.
The tokens an authorization server issues are named by the number of their issue.
-/

namespace Horsie.Mcp

open Lib

/-- Endpoints of an authorization server as they are kept. Those entered by hand may leave some
out. -/
structure AsMetadata where
  authorizationEndpoint : Option String
  tokenEndpoint : Option String
  registrationEndpoint : Option String
deriving DecidableEq

structure OauthState where
  clientId : Option String
  clientSecret : Option String
  accessToken : Option ℕ
  refreshToken : Option ℕ
  expiresAt : Option ℕ
  metadata : Option AsMetadata
deriving DecidableEq

def OauthState.empty : OauthState := ⟨none, none, none, none, none, none⟩

inductive AuthKind
  | none
  | bearer
  | oauth
  | githubApp
deriving DecidableEq

inductive StoredAuth
  | none
  | bearer (token : Option String)
  | oauth (st : OauthState)
  | githubApp
deriving DecidableEq

namespace StoredAuth

def kind : StoredAuth → AuthKind
  | none => .none
  | bearer _ => .bearer
  | oauth _ => .oauth
  | githubApp => .githubApp

def bearerToken : StoredAuth → Option String
  | bearer token => token
  | none | oauth _ | githubApp => Option.none

def columns : StoredAuth → OauthState
  | oauth st => st
  | none | bearer _ | githubApp => .empty

def pair (a : StoredAuth) : Option ℕ × Option ℕ := (a.columns.accessToken, a.columns.refreshToken)

end StoredAuth

def secret (s : Option String) : Option String := s.filter fun v => !v.isEmpty

/-- The columns of a row. Those of a sign-in are there whatever the kind is, and only read where it
is one. -/
structure McpServerRow where
  url : String
  kind : AuthKind
  bearer : Option String
  oauth : OauthState
deriving DecidableEq

namespace McpServerRow

variable (r : McpServerRow)

def auth : StoredAuth :=
  match r.kind with
  | .none => .none
  | .githubApp => .githubApp
  | .bearer => .bearer (secret r.bearer)
  | .oauth => .oauth { r.oauth with clientSecret := secret r.oauth.clientSecret }

def pair : Option ℕ × Option ℕ := r.auth.pair

def ofAuth (url : String) (a : StoredAuth) : McpServerRow := ⟨url, a.kind, a.bearerToken, a.columns⟩

def saveOauthClient (clientId : String) (clientSecret : Option String) (metadata : AsMetadata) :
    McpServerRow :=
  { r with oauth := { r.oauth with
      clientId := some clientId
      clientSecret := clientSecret
      metadata := some metadata } }

def saveOauthTokens (access : ℕ) (refresh expiresAt : Option ℕ) : McpServerRow :=
  { r with oauth := { r.oauth with
      accessToken := some access
      refreshToken := refresh.or r.oauth.refreshToken
      expiresAt := expiresAt } }

end McpServerRow

/-! ## Edits -/

structure McpOAuthInput where
  clientId : Option String
  clientSecret : Option String
  authorizationEndpoint : Option String
  tokenEndpoint : Option String
  registrationEndpoint : Option String
deriving DecidableEq

inductive McpAuthInput
  | none
  | bearer (token : Option String)
  | oauth (o : McpOAuthInput)
  | githubApp
deriving DecidableEq

structure McpServerInput where
  name : String
  url : String
  auth : McpAuthInput
deriving DecidableEq

/-- A secret that is left out stays as it is stored, and an empty one clears it. -/
def resolveSecret (input existing : Option String) : Option String :=
  match input with
  | none => existing
  | some v => if v.isEmpty then none else some v

/-- Endpoints entered by hand, if any were. -/
def manualMeta (o : McpOAuthInput) : Option AsMetadata :=
  if o.authorizationEndpoint.isNone && o.tokenEndpoint.isNone && o.registrationEndpoint.isNone then
    none
  else some ⟨o.authorizationEndpoint, o.tokenEndpoint, o.registrationEndpoint⟩

/-- What is stored for an edit, over what is stored already. A sign-in keeps its tokens. -/
def authFromInput (input : McpAuthInput) (existing : StoredAuth) : StoredAuth :=
  match input with
  | .none => .none
  | .githubApp => .githubApp
  | .bearer token =>
    .bearer (resolveSecret token
      (match existing with
      | .bearer s => s
      | .none | .githubApp | .oauth _ => none))
  | .oauth o =>
    let prior :=
      match existing with
      | .oauth s => s
      | .none | .bearer _ | .githubApp => .empty
    .oauth
      { clientId := o.clientId.or prior.clientId
        clientSecret := resolveSecret o.clientSecret prior.clientSecret
        accessToken := prior.accessToken
        refreshToken := prior.refreshToken
        expiresAt := prior.expiresAt
        metadata := (manualMeta o).or prior.metadata }

def validateServerName (name : String) : Except String Unit :=
  if name.isEmpty then .error "MCP server name cannot be empty"
  else if name.toList.all fun c => c.isAlphanum || c = '_' || c = '-' then .ok ()
  else
    .error ("MCP server name '" ++ name ++ "' may only contain letters, digits, '_' and '-': " ++
      "it becomes part of every tool id this server contributes " ++
      "(mcp__<name>__<tool>), and providers reject anything else")

def McpServerInput.validate (checkFetchUrl : String → Except String Unit)
    (input : McpServerInput) : Except String String :=
  match validateServerName (trim input.name) with
  | .error why => .error why
  | .ok _ =>
    if (trim input.url).isEmpty then .error "MCP server url cannot be empty"
    else (checkFetchUrl (trim input.url)).map fun _ => trim input.url

/-! ## What an edit keeps -/

section

variable {r : McpServerRow} {a existing : StoredAuth} {o : McpOAuthInput} {input : McpAuthInput}
  {url clientId : String} {clientSecret : Option String} {metadata : AsMetadata} {access : ℕ}
  {refresh expiresAt : Option ℕ}

theorem pair_of_oauth (h : r.kind = .oauth) :
    r.pair = (r.oauth.accessToken, r.oauth.refreshToken) := by
  unfold McpServerRow.pair McpServerRow.auth
  rw [h]
  rfl

theorem pair_of_not_oauth (h : r.kind ≠ .oauth) : r.pair = (none, none) := by
  unfold McpServerRow.pair McpServerRow.auth
  cases hk : r.kind with
  | oauth => exact absurd hk h
  | none | bearer | githubApp => rfl

theorem pair_ofAuth : (McpServerRow.ofAuth url a).pair = a.pair := by
  cases a <;> rfl

theorem pair_saveOauthClient :
    (r.saveOauthClient clientId clientSecret metadata).pair = r.pair := by
  by_cases hk : r.kind = .oauth
  · rw [pair_of_oauth hk]
    exact pair_of_oauth hk
  · rw [pair_of_not_oauth hk]
    exact pair_of_not_oauth hk

theorem pair_saveOauthTokens (h : r.kind = .oauth) :
    (r.saveOauthTokens access refresh expiresAt).pair =
      (some access, refresh.or r.oauth.refreshToken) :=
  pair_of_oauth h

/-- An edit that leaves a server one to sign in to keeps the tokens it has found. -/
theorem pair_authFromInput : (authFromInput (.oauth o) existing).pair = existing.pair := by
  cases existing <;> rfl

theorem kind_authFromInput (h : (authFromInput input existing).kind = .oauth) :
    ∃ o, input = .oauth o := by
  cases input with
  | oauth o => exact ⟨o, rfl⟩
  | none | bearer | githubApp => cases h

end

end Horsie.Mcp

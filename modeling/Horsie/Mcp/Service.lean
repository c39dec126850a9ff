import Horsie.Lib.Map
import Horsie.Lib.Take
import Horsie.Lib.Transition
import Horsie.Mcp.Store

/-!
# The tokens of an MCP server

Every turn reads the row of a server for itself, calls the token endpoint where its token is about
to expire or was rejected, and writes the new pair back, in three steps that nothing keeps together
with those of other turns, of the callbacks of a browser and of edits of the settings. The
authorization server rotates: a refresh token is good for one redemption.
-/

namespace Horsie.Mcp

open Lib

/-! ## A bearer -/

inductive Token
  | issued (pair : ℕ)
  | other (text : String)
deriving DecidableEq

/-- Whether a token is near its expiry. One without is not. -/
def needsRefresh (expiresAt : Option ℕ) (now : ℕ) : Bool := expiresAt.any fun exp => exp ≤ now + 120

/-- The endpoints that are kept, where they are enough: here that of tokens. -/
def parseMeta (metadata : Option AsMetadata) : Option String :=
  metadata.bind fun m => if m.authorizationEndpoint.isSome then m.tokenEndpoint else none

/-- What a row comes to: a token or none, an error, or a refresh token to redeem first. -/
inductive Resolution
  | token (t : Option Token)
  | fails (why : String)
  | refresh (pair : ℕ)
deriving DecidableEq

/-- What the row of a server comes to, where the connection to GitHub answers `github`. -/
def resolveBearer (server : String) (github : Except String (Option String)) (now : ℕ)
    (force : Bool) : StoredAuth → Resolution
  | .none => .token none
  | .bearer t => .token (t.map .other)
  | .oauth st =>
    match st.accessToken with
    | none =>
      .fails ("MCP server '" ++ server ++ "' is not authorized — connect it in Settings")
    | some access =>
      if !force && !needsRefresh st.expiresAt now then .token (some (.issued access))
      else
        match parseMeta st.metadata, st.refreshToken,
          st.clientId.filter fun id => !id.isEmpty with
        | some _, some refresh, some _ => .refresh refresh
        | _, _, _ => .token (some (.issued access))
  | .githubApp =>
    match github with
    | .ok (some t) => .token (some (.other t))
    | .ok none =>
      .fails "GitHub is not connected — connect it in Settings to enable GitHub MCP"
    | .error why => .fails why

def exchangeable (server : String) : StoredAuth → Except String Unit
  | .oauth st =>
    match parseMeta st.metadata, st.clientId.filter fun id => !id.isEmpty with
    | none, _ => .error "missing authorization-server endpoints"
    | some _, none => .error "no registered client"
    | some _, some _ => .ok ()
  | _ => .error ("server '" ++ server ++ "' is not an OAuth server")

/-! ## Who is at work -/

/-- Where the bearer provider of a turn is. -/
inductive Phase
  | idle
  | resolving (force : Bool)
  | refreshing (pair : ℕ)
  | saving (pair : ℕ) (expiresAt : Option ℕ)
deriving DecidableEq

inductive Task
  | turn (url : String) (cached : Option (Option Token)) (held : List Token) (phase : Phase)
  | connect (url : String)
  | callback (url : String)
  | exchanging (url : String)
  | storing (url : String) (pair : ℕ) (rotates : Bool) (expiresAt : Option ℕ)
  | upsert (url : String) (auth : McpAuthInput)
  | writing (url : String) (auth : McpAuthInput) (existing : StoredAuth)
  | done
deriving DecidableEq

/-- The URL of a pair that was issued and that a task is to save. -/
def Task.owed : Task → Option String
  | turn url _ _ (.saving _ _) | storing url _ _ _ => some url
  | _ => none

def Task.isSaving (t : Task) : Bool := t.owed.isSome

structure World where
  row : McpServerRow
  /-- The URL an authorization in flight was begun for, by its state. -/
  pending : Map String String
  tasks : List Task
  issued : List String
  redeemed : List ℕ
  /-- The pair that was issued last came without a refresh token. -/
  bare : Bool
  /-- An edit made the server one without a sign-in, and no pair was saved since. -/
  discarded : Bool

inductive Event
  | turn
  | ask (i : ℕ) (force : Bool)
  | read (i now : ℕ) (github : Except String (Option String))
  | post (i : ℕ) (reached : Bool) (expiresAt : Option ℕ)
  | save (i : ℕ)
  | send (i : ℕ) (t : Token)
  /-- A turn is stopped, a browser has gone, or the database fails. -/
  | drop (i : ℕ)
  | connect
  | saveClient (i : ℕ) (clientId : String) (clientSecret : Option String) (metadata : AsMetadata)
  | stash (i : ℕ) (state : String)
  | expire (state : String)
  | callback (state : String)
  | check (i : ℕ)
  /-- A code is presented, if the authorization server is reached, and answered with a pair that
  has a refresh token or has none. -/
  | exchange (i : ℕ) (reached rotates : Bool) (expiresAt : Option ℕ)
  | upsert (input : McpServerInput)
  | readUpsert (i : ℕ)
  | writeUpsert (i : ℕ)

namespace World

variable (x : World)

def exchanging : Bool := x.tasks.any Task.isSaving

/-- Whether every pair that is to be saved was issued for a URL. -/
def owedFor (url : String) : Bool := x.tasks.all fun t => t.owed.all fun u => u == url

def last : Option ℕ := if x.issued.isEmpty then none else some (x.issued.length - 1)

def latest : Option ℕ × Option ℕ := (x.last, if x.bare then none else x.last)

def moved (i : ℕ) (t : Task) : World := { x with tasks := x.tasks.set i t }

def begun (t : Task) : World := { x with tasks := x.tasks ++ [t] }

def granted (i : ℕ) (url : String) (bare : Bool) (t : Task) : World :=
  { x with issued := x.issued ++ [url], bare := bare, tasks := x.tasks.set i t }

def saved (i pair : ℕ) (refresh expiresAt : Option ℕ) (t : Task) : World :=
  { x with
    row := x.row.saveOauthTokens pair refresh expiresAt
    tasks := x.tasks.set i t
    discarded := x.discarded && x.row.kind != .oauth }

def wrote (i : ℕ) (url : String) (a : StoredAuth) : World :=
  { x with
    row := .ofAuth url a
    tasks := x.tasks.set i .done
    discarded := x.discarded || a.kind != .oauth }

end World

section

variable (server : String) (checkFetchUrl : String → Except String Unit)

inductive Step : World → Event → World → Prop
  | turn {x : World} : Step x .turn (x.begun (.turn x.row.url none [] .idle))
  | cached {x : World} {i : ℕ} {url : String} {t : Option Token} {held : List Token}
      (hi : x.tasks[i]? = some (.turn url (some t) held .idle)) :
      Step x (.ask i false) (x.moved i (.turn url (some t) (held ++ t.toList) .idle))
  | ask {x : World} {i : ℕ} {url : String} {cached : Option (Option Token)} {held : List Token}
      {force : Bool} (hi : x.tasks[i]? = some (.turn url cached held .idle))
      (h : force = true ∨ cached = none) :
      Step x (.ask i force) (x.moved i (.turn url cached held (.resolving force)))
  | answer {x : World} {i now : ℕ} {github : Except String (Option String)} {url : String}
      {cached : Option (Option Token)} {held : List Token} {force : Bool} {t : Option Token}
      (hi : x.tasks[i]? = some (.turn url cached held (.resolving force)))
      (h : resolveBearer server github now force x.row.auth = .token t) :
      Step x (.read i now github) (x.moved i (.turn url (some t) (held ++ t.toList) .idle))
  | fails {x : World} {i now : ℕ} {github : Except String (Option String)} {url why : String}
      {cached : Option (Option Token)} {held : List Token} {force : Bool}
      (hi : x.tasks[i]? = some (.turn url cached held (.resolving force)))
      (h : resolveBearer server github now force x.row.auth = .fails why) :
      Step x (.read i now github) (x.moved i (.turn url cached held .idle))
  | refresh {x : World} {i now pair : ℕ} {github : Except String (Option String)} {url : String}
      {cached : Option (Option Token)} {held : List Token} {force : Bool}
      (hi : x.tasks[i]? = some (.turn url cached held (.resolving force)))
      (h : resolveBearer server github now force x.row.auth = .refresh pair) :
      Step x (.read i now github) (x.moved i (.turn url cached held (.refreshing pair)))
  | unreached {x : World} {i pair : ℕ} {url : String} {cached : Option (Option Token)}
      {held : List Token} {expiresAt : Option ℕ}
      (hi : x.tasks[i]? = some (.turn url cached held (.refreshing pair))) :
      Step x (.post i false expiresAt) (x.moved i (.turn url cached held .idle))
  | replayed {x : World} {i pair : ℕ} {url : String} {cached : Option (Option Token)}
      {held : List Token} {expiresAt : Option ℕ}
      (hi : x.tasks[i]? = some (.turn url cached held (.refreshing pair)))
      (h : pair ∈ x.redeemed) :
      Step x (.post i true expiresAt)
        { x.moved i (.turn url cached held .idle) with redeemed := x.redeemed ++ [pair] }
  | rotated {x : World} {i pair : ℕ} {url grant : String}
      {cached : Option (Option Token)} {held : List Token} {expiresAt : Option ℕ}
      (hi : x.tasks[i]? = some (.turn url cached held (.refreshing pair)))
      (h : pair ∉ x.redeemed) (hgrant : x.issued[pair]? = some grant) :
      Step x (.post i true expiresAt)
        { x.granted i grant false (.turn url cached held (.saving x.issued.length expiresAt)) with
          redeemed := x.redeemed ++ [pair] }
  | saved {x : World} {i pair : ℕ} {url : String} {cached : Option (Option Token)}
      {held : List Token} {expiresAt : Option ℕ}
      (hi : x.tasks[i]? = some (.turn url cached held (.saving pair expiresAt))) :
      Step x (.save i) (x.saved i pair (some pair) expiresAt
        (.turn url (some (some (.issued pair))) (held ++ [.issued pair]) .idle))
  | send {x : World} {i : ℕ} {url : String} {cached : Option (Option Token)} {held : List Token}
      {phase : Phase} {t : Token} (hi : x.tasks[i]? = some (.turn url cached held phase))
      (h : t ∈ held) : Step x (.send i t) x
  | drop {x : World} {i : ℕ} {t : Task} (hi : x.tasks[i]? = some t) :
      Step x (.drop i) (x.moved i .done)
  | connect {x : World} (h : x.row.kind = .oauth) :
      Step x .connect (x.begun (.connect x.row.url))
  | saveClient {x : World} {i : ℕ} {url clientId : String} {clientSecret : Option String}
      {metadata : AsMetadata} (hi : x.tasks[i]? = some (.connect url)) :
      Step x (.saveClient i clientId clientSecret metadata)
        { x with row := x.row.saveOauthClient clientId clientSecret metadata }
  | stash {x : World} {i : ℕ} {url state : String} (hi : x.tasks[i]? = some (.connect url)) :
      Step x (.stash i state)
        { x.moved i .done with pending := x.pending.insert state url }
  | expire {x : World} {state : String} :
      Step x (.expire state) { x with pending := x.pending.erase state }
  | callback {x : World} {url state : String} (h : x.pending.lookup state = some url) :
      Step x (.callback state)
        { x.begun (.callback url) with pending := x.pending.erase state }
  | checked {x : World} {i : ℕ} {url : String} (hi : x.tasks[i]? = some (.callback url))
      (h : exchangeable server x.row.auth = .ok ()) :
      Step x (.check i) (x.moved i (.exchanging url))
  | refused {x : World} {i : ℕ} {url why : String} (hi : x.tasks[i]? = some (.callback url))
      (h : exchangeable server x.row.auth = .error why) : Step x (.check i) (x.moved i .done)
  | unanswered {x : World} {i : ℕ} {url : String} {rotates : Bool} {expiresAt : Option ℕ}
      (hi : x.tasks[i]? = some (.exchanging url)) :
      Step x (.exchange i false rotates expiresAt) (x.moved i .done)
  | exchanged {x : World} {i : ℕ} {url : String} {rotates : Bool} {expiresAt : Option ℕ}
      (hi : x.tasks[i]? = some (.exchanging url)) :
      Step x (.exchange i true rotates expiresAt)
        (x.granted i url (!rotates) (.storing url x.issued.length rotates expiresAt))
  | stored {x : World} {i pair : ℕ} {url : String} {rotates : Bool} {expiresAt : Option ℕ}
      (hi : x.tasks[i]? = some (.storing url pair rotates expiresAt)) :
      Step x (.save i)
        (x.saved i pair (if rotates then some pair else none) expiresAt .done)
  | upsert {x : World} {input : McpServerInput} {url : String}
      (h : input.validate checkFetchUrl = .ok url) :
      Step x (.upsert input) (x.begun (.upsert url input.auth))
  | readUpsert {x : World} {i : ℕ} {url : String} {auth : McpAuthInput}
      (hi : x.tasks[i]? = some (.upsert url auth)) :
      Step x (.readUpsert i) (x.moved i (.writing url auth x.row.auth))
  | writeUpsert {x : World} {i : ℕ} {url : String} {auth : McpAuthInput}
      {existing : StoredAuth} (hi : x.tasks[i]? = some (.writing url auth existing)) :
      Step x (.writeUpsert i) (x.wrote i url (authFromInput auth existing))

/-- A server to sign in to, before anybody has. -/
structure Unsigned (x : World) : Prop where
  kind : x.row.kind = .oauth
  access : x.row.oauth.accessToken = none
  refresh : x.row.oauth.refreshToken = none
  pending : x.pending = ∅
  tasks : x.tasks = []
  issued : x.issued = []
  redeemed : x.redeemed = []

/-- Whoever uses one server, in any order of their steps. -/
def signingIn : System World Event where
  Init := Unsigned
  Step := Step server checkFetchUrl

end

namespace World

/-- Whether a step keeps exchanges apart and edits whole: a turn takes a bearer of a sign-in for the
URL it dials; a token or code is presented while no pair is to be saved, a token as it is stored and
a code for the URL of the row, with a refresh token in its answer unless none is stored; nobody
gives up with a pair to save; and an edit that leaves a server to sign in to is written over the
pair it has read, with a new URL only where no pair is stored and none for another is to be. -/
def careful (x : World) : Event → Bool
  | .read i _ _ =>
    x.tasks[i]?.all fun t =>
      match t with
      | .turn url _ _ _ => x.row.kind != .oauth || url == x.row.url
      | _ => true
  | .post i reached _ =>
    !reached || x.tasks[i]?.all fun t =>
      match t with
      | .turn _ _ _ (.refreshing pair) => !x.exchanging && x.row.pair.2 == some pair
      | _ => true
  | .exchange i reached rotates _ =>
    !reached || x.tasks[i]?.all fun t =>
      match t with
      | .exchanging url =>
        !x.exchanging && (x.row.kind != .oauth || url == x.row.url) &&
          (rotates || x.row.pair.2 == none)
      | _ => true
  | .drop i => x.tasks[i]?.all fun t => !t.isSaving
  | .writeUpsert i =>
    x.tasks[i]?.all fun t =>
      match t with
      | .writing url auth existing =>
        (authFromInput auth existing).kind != .oauth ||
          existing.pair == x.row.pair && (url == x.row.url || x.row.pair == (none, none)) &&
            x.owedFor url
      | _ => true
  | _ => true

end World

/-- What holds of a run to `y`: every refresh token was presented once; the pair that is stored is
the last that was issued, or was discarded with the sign-in; an edit changes no pair; and a token
goes to the URL it was granted for. -/
structure Directed (tr : List (World × Event × World)) (y : World) : Prop where
  once : y.redeemed.Nodup
  latest : y.exchanging = false → y.row.kind = .oauth → y.row.pair = y.latest ∨
    y.row.pair = (none, none) ∧ y.discarded = true
  upserts : ∀ w ∈ tr, ∀ i, w.2.1 = .writeUpsert i → w.2.2.row.kind = .oauth →
    w.2.2.row.pair = w.1.row.pair
  sends : ∀ w ∈ tr, ∀ i pair, w.2.1 = .send i (.issued pair) → ∀ url cached held phase,
    w.1.tasks[i]? = some (.turn url cached held phase) → w.1.issued[pair]? = some url

/-! ## What a bearer comes to -/

section

variable {server : String} {github : Except String (Option String)} {now n : ℕ} {force : Bool}
  {a : StoredAuth}

theorem resolveBearer_issued
    (h : resolveBearer server github now force a = .token (some (.issued n))) :
    a.kind = .oauth ∧ a.pair.1 = some n := by
  cases a with
  | none => cases h
  | bearer t =>
    cases t <;> cases h
  | githubApp =>
    unfold resolveBearer at h
    cases github with
    | error why => cases h
    | ok t => cases t <;> cases h
  | oauth st =>
    unfold resolveBearer at h
    dsimp only at h
    cases hacc : st.accessToken with
    | none =>
      rw [hacc] at h
      cases h
    | some access =>
      rw [hacc] at h
      dsimp only at h
      refine ⟨rfl, hacc.trans ?_⟩
      split_ifs at h with hfresh
      · exact congrArg some (Token.issued.inj (Option.some.inj (Resolution.token.inj h)))
      · split at h
        · cases h
        · exact congrArg some (Token.issued.inj (Option.some.inj (Resolution.token.inj h)))

theorem resolveBearer_refresh (h : resolveBearer server github now force a = .refresh n) :
    a.kind = .oauth ∧ a.pair.2 = some n := by
  cases a with
  | none => cases h
  | bearer t =>
    cases t <;> cases h
  | githubApp =>
    unfold resolveBearer at h
    cases github with
    | error why => cases h
    | ok t => cases t <;> cases h
  | oauth st =>
    unfold resolveBearer at h
    dsimp only at h
    cases hacc : st.accessToken with
    | none =>
      rw [hacc] at h
      cases h
    | some access =>
      rw [hacc] at h
      dsimp only at h
      split_ifs at h with hfresh
      split at h
      · rename_i hrefresh _
        refine ⟨rfl, hrefresh.trans ?_⟩
        exact congrArg some (Resolution.refresh.inj h)
      · cases h

end

theorem kind_auth {r : McpServerRow} : r.auth.kind = r.kind := by
  unfold McpServerRow.auth
  cases r.kind <;> rfl

/-! ## What is known of every task -/

/-- A pair was issued last, for a URL that is the row's as long as there is one to sign in to. -/
structure World.Owes (x : World) (url : String) (n : ℕ) : Prop where
  grant : x.issued[n]? = some url
  last : n + 1 = x.issued.length
  url : x.row.kind = .oauth → x.row.url = url

def Phase.Sound (x : World) (url : String) : Phase → Prop
  | idle | resolving _ => True
  | refreshing n => x.issued[n]? = some url
  | saving n _ => x.Owes url n ∧ x.bare = false

/-- A turn has tokens of its own URL only, and what is to be saved is the last pair. -/
def Task.Sound (x : World) : Task → Prop
  | turn url cached held phase =>
    (∀ n, (.issued n ∈ held ∨ cached = some (some (.issued n))) → x.issued[n]? = some url) ∧
      phase.Sound x url
  | storing url n rotates _ =>
    x.Owes url n ∧ x.bare = !rotates ∧ (rotates = false → x.row.pair.2 = none)
  | connect _ | callback _ | exchanging _ | upsert _ _ | writing _ _ _ | done => True

/-- What keeps tokens from being lost, replayed and misdirected. -/
structure Safe (x : World) : Prop where
  sound : ∀ (i : ℕ) (t : Task), x.tasks[i]? = some t → t.Sound x
  alone : ∀ (i j : ℕ) (t t' : Task), x.tasks[i]? = some t → x.tasks[j]? = some t' →
    t.isSaving = true → t'.isSaving = true → i = j
  granted : ∀ n, x.row.pair.1 = some n ∨ x.row.pair.2 = some n → x.issued[n]? = some x.row.url
  latest : x.exchanging = false → x.row.kind = .oauth → x.row.pair = x.latest ∨
    x.row.pair = (none, none) ∧ x.discarded = true
  kind : x.row.kind ≠ .oauth → x.discarded = true
  once : x.redeemed.Nodup
  past : ∀ n ∈ x.redeemed, n + 1 < x.issued.length

section

variable {server : String} {checkFetchUrl : String → Except String Unit} {x y : World} {i n : ℕ}
  {t t' : Task} {url : String} {l : Event}

theorem safe_of_unsigned (h : Unsigned x) : Safe x where
  sound i t hi := absurd hi (by simp [h.tasks])
  alone i j t t' hi := absurd hi (by simp [h.tasks])
  granted n hn := by
    rw [pair_of_oauth h.kind, h.access, h.refresh] at hn
    rcases hn with hn | hn <;> cases hn
  latest _ _ := by
    left
    rw [pair_of_oauth h.kind, h.access, h.refresh]
    unfold World.latest World.last
    rw [h.issued]
    cases x.bare <;> rfl
  kind hk := absurd h.kind hk
  once := by
    rw [h.redeemed]
    exact List.nodup_nil
  past n hn := by
    rw [h.redeemed] at hn
    cases hn

theorem last_of_length (h : n + 1 = x.issued.length) : x.last = some n := by
  unfold World.last
  cases hissued : x.issued with
  | nil =>
    rw [hissued] at h
    cases h
  | cons a as =>
    rw [hissued] at h
    simp only [List.isEmpty_cons, Bool.false_eq_true, if_false]
    rw [← h]
    rfl

theorem length_of_last (h : x.last = some n) : n + 1 = x.issued.length := by
  unfold World.last at h
  cases hissued : x.issued with
  | nil =>
    rw [hissued] at h
    cases h
  | cons a as =>
    rw [hissued] at h
    simp only [List.isEmpty_cons, Bool.false_eq_true, if_false, List.length_cons] at h
    rw [← Option.some.inj h]
    rfl

theorem last_of_latest (h : x.latest.2 = some n) : x.last = some n := by
  unfold World.latest at h
  split_ifs at h
  exact h

theorem Task.Sound.mono (h : t.Sound x)
    (hissued : ∀ (n : ℕ) (url : String), x.issued[n]? = some url → y.issued[n]? = some url)
    (howed : ∀ u : String, t.owed = some u → y.issued.length = x.issued.length ∧
      y.bare = x.bare ∧ (y.row.kind = .oauth → (x.row.kind = .oauth → x.row.url = u) →
        y.row.url = u) ∧ (x.row.pair.2 = none → y.row.pair.2 = none)) :
    t.Sound y := by
  have howes {u : String} {n : ℕ} (ht : t.owed = some u) (ho : x.Owes u n) : y.Owes u n := by
    obtain ⟨hlength, -, hurl, -⟩ := howed u ht
    exact ⟨hissued n u ho.grant, ho.last.trans hlength.symm, fun hk => hurl hk ho.url⟩
  cases t with
  | turn url cached held phase =>
    refine ⟨fun n hn => hissued n url (h.1 n hn), ?_⟩
    have hphase := h.2
    cases phase with
    | idle | resolving => trivial
    | refreshing n => exact hissued n url hphase
    | saving n e =>
      obtain ⟨-, hbare, -⟩ := howed url rfl
      exact ⟨howes rfl hphase.1, hbare.trans hphase.2⟩
  | storing url n rotates e =>
    obtain ⟨-, hbare, -, hnone⟩ := howed url rfl
    exact ⟨howes rfl h.1, hbare.trans h.2.1, fun hr => hnone (h.2.2 hr)⟩
  | connect | callback | exchanging | upsert | writing | done => trivial

theorem isSaving_of_owed {u : String} (h : t.owed = some u) : t.isSaving = true := by
  unfold Task.isSaving
  rw [h]
  rfl

theorem not_isSaving (h : x.exchanging = false) (ht : t ∈ x.tasks) : t.isSaving = false :=
  Bool.eq_false_iff.mpr (List.any_eq_false.mp h t ht)

theorem exchanging_of_kept (hkept : ∀ t ∈ x.tasks, t.isSaving = true → t ∈ y.tasks)
    (h : y.exchanging = false) : x.exchanging = false := by
  refine List.any_eq_false.mpr fun t ht hsaving => ?_
  have hy := not_isSaving h (hkept t ht hsaving)
  rw [hsaving] at hy
  cases hy

theorem mem_set_of_saving (hi : x.tasks[i]? = some t) (hquiet : t.isSaving = false) :
    ∀ u ∈ x.tasks, u.isSaving = true → u ∈ x.tasks.set i t' := by
  intro u hu hsaving
  obtain ⟨j, hj⟩ := List.mem_iff_getElem?.mp hu
  by_cases hji : j = i
  · subst hji
    rw [hi] at hj
    rw [Option.some.inj hj, hsaving] at hquiet
    cases hquiet
  · refine List.mem_iff_getElem?.mpr ⟨j, ?_⟩
    rw [List.getElem?_set_ne (Ne.symm hji)]
    exact hj

/-! ## Steps that issue and save nothing -/

/-- A step after which every task is one of before or another that saves nothing. -/
theorem Safe.quiet {r : McpServerRow} {p : Map String String} {q : List Task} (h : Safe x)
    (hpair : r.pair = x.row.pair) (hkind : r.kind = x.row.kind) (hurl : r.url = x.row.url)
    (hkept : ∀ t ∈ x.tasks, t.isSaving = true → t ∈ q)
    (htasks : ∀ (j : ℕ) (t : Task), q[j]? = some t →
      x.tasks[j]? = some t ∨ t.isSaving = false ∧ t.Sound x) :
    Safe { x with row := r, pending := p, tasks := q } := by
  have hidle {p : Map String String}
      (hy : ({ x with row := r, pending := p, tasks := q } : World).exchanging = false) :
      x.exchanging = false :=
    exchanging_of_kept hkept hy
  have hsame {t : Task} (ht : t.Sound x) :
      t.Sound { x with row := r, pending := p, tasks := q } :=
    ht.mono (fun _ _ hn => hn) fun u _ =>
      ⟨rfl, rfl, fun hk hu => hurl.trans (hu (hkind.symm.trans hk)), fun hnone => by
        rw [hpair]
        exact hnone⟩
  have hold {j : ℕ} {t : Task} (hj : q[j]? = some t) (ht : t.isSaving = true) :
      x.tasks[j]? = some t := by
    rcases htasks j t hj with hx | ⟨hquiet, -⟩
    · exact hx
    · rw [ht] at hquiet
      cases hquiet
  constructor
  case sound =>
    intro j t hj
    rcases htasks j t hj with hx | ⟨-, hsound⟩
    · exact hsame (h.sound j t hx)
    · exact hsame hsound
  case alone =>
    intro i j t t' hi hj ht ht'
    exact h.alone i j t t' (hold hi ht) (hold hj ht') ht ht'
  case granted =>
    intro n hn
    rw [hpair] at hn
    rw [hurl]
    exact h.granted n hn
  case latest =>
    intro hy hk
    rw [hpair]
    exact h.latest (hidle hy) (hkind.symm.trans hk)
  case kind => exact fun hk => h.kind fun hx => hk (hkind.trans hx)
  case once => exact h.once
  case past => exact h.past

theorem Safe.moved (h : Safe x) (hi : x.tasks[i]? = some t) (hquiet : t.isSaving = false)
    (hquiet' : t'.isSaving = false) (hsound : t'.Sound x) : Safe (x.moved i t') := by
  refine h.quiet (r := x.row) (p := x.pending) rfl rfl rfl (mem_set_of_saving hi hquiet) ?_
  intro j u hj
  rcases getElem?_set_cases hj with ⟨-, rfl⟩ | ⟨-, hx⟩
  · exact .inr ⟨hquiet', hsound⟩
  · exact .inl hx

theorem Safe.begun {p : Map String String} (h : Safe x) (hquiet : t.isSaving = false)
    (hsound : t.Sound x) : Safe { x.begun t with pending := p } := by
  refine h.quiet (r := x.row) rfl rfl rfl (fun u hu _ => List.mem_append_left _ hu) ?_
  intro j u hj
  rcases getElem?_snoc_cases hj with hx | ⟨-, rfl⟩
  · exact .inl hx
  · exact .inr ⟨hquiet, hsound⟩

/-! ## A pair is issued -/

theorem Safe.grants {q : List ℕ} {grant : String} {bare : Bool} (h : Safe x)
    (hidle : x.exchanging = false) (hi : x.tasks[i]? = some t)
    (hsaving : t'.isSaving = true)
    (hsound : t'.Sound { x.granted i grant bare t' with redeemed := q }) (hq : q.Nodup)
    (hpast : ∀ n ∈ q, n < x.issued.length) :
    Safe { x.granted i grant bare t' with redeemed := q } := by
  have hgrows (n : ℕ) (url : String) (hn : x.issued[n]? = some url) :
      (x.issued ++ [grant])[n]? = some url := getElem?_snoc_of_some hn
  have hbusy : ({ x.granted i grant bare t' with redeemed := q } : World).exchanging = true := by
    refine List.any_eq_true.mpr ⟨t', List.mem_iff_getElem?.mpr ⟨i, ?_⟩, hsaving⟩
    exact List.getElem?_set_self (List.getElem?_eq_some_iff.mp hi).1
  have hself {j : ℕ} {u : Task} (hj : (x.tasks.set i t')[j]? = some u)
      (hu : u.isSaving = true) : j = i := by
    rcases getElem?_set_cases hj with ⟨hji, -⟩ | ⟨-, hx⟩
    · exact hji
    · rw [not_isSaving hidle (List.mem_iff_getElem?.mpr ⟨j, hx⟩)] at hu
      cases hu
  constructor
  case sound =>
    intro j u hj
    rcases getElem?_set_cases hj with ⟨-, rfl⟩ | ⟨-, hx⟩
    · exact hsound
    · refine (h.sound j u hx).mono hgrows fun url hu => ?_
      have hnot := not_isSaving hidle (List.mem_iff_getElem?.mpr ⟨j, hx⟩)
      rw [isSaving_of_owed hu] at hnot
      cases hnot
  case alone =>
    intro j k u u' hj hk hu hu'
    exact (hself hj hu).trans (hself hk hu').symm
  case granted => exact fun n hn => hgrows n _ (h.granted n hn)
  case latest =>
    intro hy
    rw [hbusy] at hy
    cases hy
  case kind => exact h.kind
  case once => exact hq
  case past =>
    intro n hn
    show n + 1 < (x.issued ++ [grant]).length
    rw [List.length_append, List.length_singleton]
    exact Nat.succ_lt_succ (hpast n hn)

theorem Safe.not_redeemed (h : Safe x) (hn : n + 1 = x.issued.length) : n ∉ x.redeemed := by
  intro hmem
  have hlt := h.past n hmem
  omega

/-! ## A pair is saved -/

theorem Safe.saved {refresh expiresAt : Option ℕ} (h : Safe x) (hi : x.tasks[i]? = some t)
    (hsaving : t.isSaving = true) (howes : x.Owes url n)
    (hlatest : x.row.kind = .oauth → (some n, refresh.or x.row.oauth.refreshToken) = x.latest)
    (hquiet : t'.isSaving = false) (hsound : t'.Sound (x.saved i n refresh expiresAt t')) :
    Safe (x.saved i n refresh expiresAt t') := by
  have hpair (hk : x.row.kind = .oauth) :
      (x.row.saveOauthTokens n refresh expiresAt).pair = x.latest :=
    (pair_saveOauthTokens hk).trans (hlatest hk)
  have hidle {j : ℕ} {u : Task} (hj : (x.tasks.set i t')[j]? = some u) : u.isSaving = false := by
    rcases getElem?_set_cases hj with ⟨-, rfl⟩ | ⟨hji, hx⟩
    · exact hquiet
    · by_contra hu
      exact hji (h.alone j i u t hx hi (eq_true_of_ne_false hu) hsaving)
  constructor
  case sound =>
    intro j u hj
    have hnot := hidle hj
    rcases getElem?_set_cases hj with ⟨-, rfl⟩ | ⟨-, hx⟩
    · exact hsound
    · refine (h.sound j u hx).mono (fun _ _ hn => hn) fun url hu => ?_
      rw [isSaving_of_owed hu] at hnot
      cases hnot
  case alone =>
    intro j k u u' hj hk hu
    rw [hidle hj] at hu
    cases hu
  case granted =>
    intro m hm
    dsimp only [World.saved] at hm ⊢
    by_cases hk : x.row.kind = .oauth
    · rw [hpair hk] at hm
      have hmn : m = n := by
        have hlast := last_of_length howes.last
        rcases hm with hm | hm
        · exact Option.some.inj (hm.symm.trans hlast)
        · exact Option.some.inj ((last_of_latest hm).symm.trans hlast)
      rw [hmn]
      exact howes.grant.trans (congrArg some (howes.url hk).symm)
    · rw [pair_of_not_oauth (r := x.row.saveOauthTokens n refresh expiresAt) hk] at hm
      rcases hm with hm | hm <;> cases hm
  case latest => exact fun _ hk => .inl (hpair hk)
  case kind =>
    intro hk
    show (x.discarded && x.row.kind != .oauth) = true
    rw [h.kind hk, Bool.true_and, bne_iff_ne]
    exact hk
  case once => exact h.once
  case past => exact h.past

/-! ## An edit is written -/

theorem Safe.wrote {input : McpAuthInput} {existing : StoredAuth} (h : Safe x)
    (hi : x.tasks[i]? = some t) (hquiet : t.isSaving = false)
    (hedit : (authFromInput input existing).kind ≠ .oauth ∨
      (existing.pair = x.row.pair ∧ (url = x.row.url ∨ x.row.pair = (none, none))) ∧
        x.owedFor url = true) :
    Safe (x.wrote i url (authFromInput input existing)) := by
  have hidle (hy : (x.wrote i url (authFromInput input existing)).exchanging = false) :
      x.exchanging = false := exchanging_of_kept (mem_set_of_saving hi hquiet) hy
  have hpair (hk : (authFromInput input existing).kind = .oauth) :
      (x.wrote i url (authFromInput input existing)).row.pair = x.row.pair := by
    obtain ⟨o, rfl⟩ := kind_authFromInput hk
    rcases hedit with hne | ⟨⟨hread, -⟩, -⟩
    · exact absurd hk hne
    · exact pair_ofAuth.trans (pair_authFromInput.trans hread)
  have hold {j : ℕ} {u : Task} (hj : (x.tasks.set i .done)[j]? = some u)
      (hu : u.isSaving = true) : x.tasks[j]? = some u := by
    rcases getElem?_set_cases hj with ⟨-, rfl⟩ | ⟨-, hx⟩
    · cases hu
    · exact hx
  constructor
  case sound =>
    intro j u hj
    rcases getElem?_set_cases hj with ⟨-, rfl⟩ | ⟨-, hx⟩
    · trivial
    · refine (h.sound j u hx).mono (fun _ _ hn => hn) fun v hv => ⟨rfl, rfl, fun hk _ => ?_, ?_⟩
      · rcases hedit with hne | ⟨-, hfor⟩
        · exact absurd hk hne
        · have hall := List.all_eq_true.mp hfor u (List.mem_iff_getElem?.mpr ⟨j, hx⟩)
          rw [hv, Option.all_some, beq_iff_eq] at hall
          exact hall.symm
      · intro hnone
        by_cases hk : (authFromInput input existing).kind = .oauth
        · rw [hpair hk]
          exact hnone
        · rw [pair_of_not_oauth hk]
  case alone =>
    intro j k u u' hj hk hu hu'
    exact h.alone j k u u' (hold hj hu) (hold hk hu') hu hu'
  case granted =>
    intro n hn
    by_cases hk : (authFromInput input existing).kind = .oauth
    · rw [hpair hk] at hn
      show x.issued[n]? = some url
      rcases hedit with hne | ⟨⟨-, hurl | hnone⟩, -⟩
      · exact absurd hk hne
      · rw [hurl]
        exact h.granted n hn
      · rw [hnone] at hn
        rcases hn with hn | hn <;> cases hn
    · rw [pair_of_not_oauth hk] at hn
      rcases hn with hn | hn <;> cases hn
  case latest =>
    intro hy hk
    rw [hpair hk]
    show x.row.pair = x.latest ∨
      x.row.pair = (none, none) ∧
        (x.discarded || (authFromInput input existing).kind != .oauth) = true
    by_cases hrow : x.row.kind = .oauth
    · rcases h.latest (hidle hy) hrow with hlast | ⟨hnone, hdiscarded⟩
      · exact .inl hlast
      · exact .inr ⟨hnone, by rw [hdiscarded, Bool.true_or]⟩
    · exact .inr ⟨pair_of_not_oauth hrow, by rw [h.kind hrow, Bool.true_or]⟩
  case kind =>
    intro hk
    show (x.discarded || (authFromInput input existing).kind != .oauth) = true
    rw [Bool.or_eq_true, bne_iff_ne]
    exact .inr hk
  case once => exact h.once
  case past => exact h.past

/-! ## Every step -/

variable {cached : Option (Option Token)} {held : List Token} {phase : Phase}

theorem sound_handed {t : Option Token} (h : (Task.turn url cached held phase).Sound x)
    (ht : ∀ n, t = some (.issued n) → x.issued[n]? = some url) :
    (Task.turn url (some t) (held ++ t.toList) .idle).Sound x := by
  refine ⟨fun n hn => ?_, trivial⟩
  rcases hn with hn | hn
  · rcases List.mem_append.mp hn with hold | hnew
    · exact h.1 n (.inl hold)
    · exact ht n (Option.mem_toList.mp hnew)
  · exact ht n (Option.some.inj hn)

/-- The refresh token that is stored while no pair is to be saved is of the last pair. -/
theorem Safe.length_of_stored (h : Safe x) (hidle : x.exchanging = false)
    (hn : x.row.pair.2 = some n) : n + 1 = x.issued.length := by
  have hk : x.row.kind = .oauth := by
    by_contra hne
    rw [pair_of_not_oauth hne] at hn
    cases hn
  rcases h.latest hidle hk with hlast | ⟨hnone, -⟩
  · rw [hlast] at hn
    exact length_of_last (last_of_latest hn)
  · rw [hnone] at hn
    cases hn

theorem Safe.step (h : Safe x) (hl : x.careful l = true)
    (hs : Step server checkFetchUrl x l y) : Safe y := by
  cases hs with
  | turn =>
    refine h.begun (p := x.pending) rfl ⟨fun n hn => ?_, trivial⟩
    rcases hn with hn | hn <;> cases hn
  | cached hi =>
    refine h.moved hi rfl rfl (sound_handed (h.sound _ _ hi) fun n hn => ?_)
    exact (h.sound _ _ hi).1 n (.inr (congrArg some hn))
  | ask hi => exact h.moved hi rfl rfl ⟨(h.sound _ _ hi).1, trivial⟩
  | answer hi hr =>
    refine h.moved hi rfl rfl (sound_handed (h.sound _ _ hi) fun n hn => ?_)
    rw [hn] at hr
    obtain ⟨hk, hpair⟩ := resolveBearer_issued hr
    rw [kind_auth] at hk
    simp only [World.careful, hi, Option.all_some, hk, bne_self_eq_false, Bool.false_or,
      beq_iff_eq] at hl
    rw [hl]
    exact h.granted n (.inl hpair)
  | fails hi => exact h.moved hi rfl rfl ⟨(h.sound _ _ hi).1, trivial⟩
  | @refresh i now pair github url cached held force hi hr =>
    obtain ⟨hk, hpair⟩ := resolveBearer_refresh hr
    rw [kind_auth] at hk
    simp only [World.careful, hi, Option.all_some, hk, bne_self_eq_false, Bool.false_or,
      beq_iff_eq] at hl
    refine h.moved hi rfl rfl ⟨(h.sound _ _ hi).1, ?_⟩
    show x.issued[pair]? = some url
    rw [hl]
    exact h.granted pair (.inr hpair)
  | unreached hi => exact h.moved hi rfl rfl ⟨(h.sound _ _ hi).1, trivial⟩
  | replayed hi hmem =>
    simp only [World.careful, hi, Option.all_some, Bool.not_true, Bool.false_or,
      Bool.and_eq_true, Bool.not_eq_true', beq_iff_eq] at hl
    exact absurd hmem (h.not_redeemed (h.length_of_stored hl.1 hl.2))
  | @rotated i pair url grant cached held expiresAt hi hmem hgrant =>
    obtain ⟨hheld, hurl⟩ := h.sound _ _ hi
    simp only [World.careful, hi, Option.all_some, Bool.not_true, Bool.false_or,
      Bool.and_eq_true, Bool.not_eq_true', beq_iff_eq] at hl
    obtain ⟨hidle, hstored⟩ := hl
    have hlast := h.length_of_stored hidle hstored
    have hrow := h.granted pair (.inr hstored)
    obtain rfl := Option.some.inj (hgrant.symm.trans hurl)
    have hsame := Option.some.inj (hrow.symm.trans hgrant)
    refine h.grants hidle hi rfl ⟨fun n hn => getElem?_snoc_of_some (hheld n hn), ?_, rfl⟩ ?_ ?_
    · refine ⟨List.getElem?_concat_length, ?_, fun _ => hsame⟩
      show x.issued.length + 1 = (x.issued ++ [grant]).length
      rw [List.length_append]
      rfl
    · exact h.once.append (List.nodup_singleton pair) (List.disjoint_singleton.mpr hmem)
    · intro n hn
      rcases List.mem_append.mp hn with hold | hnew
      · have hlt := h.past n hold
        omega
      · rw [List.mem_singleton.mp hnew]
        omega
  | @saved i pair url cached held expiresAt hi =>
    obtain ⟨-, howes, hbare⟩ := h.sound _ _ hi
    have hsound := sound_handed (t := some (.issued pair)) (h.sound _ _ hi) fun n hn => by
      rw [← Token.issued.inj (Option.some.inj hn)]
      exact howes.grant
    refine h.saved hi rfl howes (fun _ => ?_) rfl hsound
    unfold World.latest
    rw [last_of_length howes.last, hbare]
    rfl
  | send => exact h
  | drop hi =>
    simp only [World.careful, hi, Option.all_some, Bool.not_eq_true'] at hl
    exact h.moved hi hl rfl trivial
  | connect => exact h.begun (p := x.pending) rfl trivial
  | saveClient =>
    exact h.quiet (p := x.pending) pair_saveOauthClient rfl rfl (fun u hu _ => hu)
      (fun j u hj => .inl hj)
  | @stash i url state hi =>
    refine h.quiet (r := x.row) rfl rfl rfl (mem_set_of_saving hi rfl) fun j u hj => ?_
    rcases getElem?_set_cases hj with ⟨-, rfl⟩ | ⟨-, hx⟩
    · exact .inr ⟨rfl, trivial⟩
    · exact .inl hx
  | expire =>
    exact h.quiet (r := x.row) (q := x.tasks) rfl rfl rfl (fun u hu _ => hu)
      (fun j u hj => .inl hj)
  | callback => exact h.begun rfl trivial
  | checked hi => exact h.moved hi rfl rfl trivial
  | refused hi => exact h.moved hi rfl rfl trivial
  | unanswered hi => exact h.moved hi rfl rfl trivial
  | @exchanged i url rotates expiresAt hi =>
    simp only [World.careful, hi, Option.all_some, Bool.not_true, Bool.false_or,
      Bool.and_eq_true, Bool.or_eq_true, Bool.not_eq_true', beq_iff_eq, bne_iff_ne] at hl
    obtain ⟨⟨hidle, hrow⟩, hrotates⟩ := hl
    refine h.grants (q := x.redeemed) hidle hi rfl
      ⟨⟨List.getElem?_concat_length, ?_, fun hk => ?_⟩, rfl, fun hr => ?_⟩ h.once fun n hn => ?_
    · show x.issued.length + 1 = (x.issued ++ [url]).length
      rw [List.length_append]
      rfl
    · rcases hrow with hne | hsame
      · exact absurd hk hne
      · exact hsame.symm
    · rcases hrotates with htrue | hnone
      · rw [hr] at htrue
        cases htrue
      · exact hnone
    · have hlt := h.past n hn
      omega
  | @stored i pair url rotates expiresAt hi =>
    obtain ⟨howes, hbare, hnone⟩ := h.sound _ _ hi
    refine h.saved hi rfl howes (fun hk => ?_) rfl trivial
    unfold World.latest
    rw [last_of_length howes.last, hbare]
    cases rotates with
    | true => rfl
    | false =>
      have hempty := hnone rfl
      rw [pair_of_oauth hk] at hempty
      exact congrArg (Prod.mk (some pair)) hempty
  | upsert => exact h.begun (p := x.pending) rfl trivial
  | readUpsert hi => exact h.moved hi rfl rfl trivial
  | writeUpsert hi =>
    simp only [World.careful, hi, Option.all_some, Bool.and_eq_true, Bool.or_eq_true,
      beq_iff_eq, bne_iff_ne] at hl
    exact h.wrote hi rfl hl

theorem pair_of_writeUpsert (hl : x.careful (.writeUpsert i) = true)
    (hs : Step server checkFetchUrl x (.writeUpsert i) y) (hk : y.row.kind = .oauth) :
    y.row.pair = x.row.pair := by
  cases hs with
  | @writeUpsert _ url auth existing hi =>
    simp only [World.careful, hi, Option.all_some, Bool.and_eq_true, Bool.or_eq_true,
      beq_iff_eq, bne_iff_ne] at hl
    rcases hl with hne | ⟨⟨hread, -⟩, -⟩
    · exact absurd hk hne
    · obtain ⟨o, rfl⟩ := kind_authFromInput hk
      exact pair_ofAuth.trans (pair_authFromInput.trans hread)

theorem Safe.grant_of_send (h : Safe x) (hs : Step server checkFetchUrl x (.send i (.issued n)) y)
    (hi : x.tasks[i]? = some (.turn url cached held phase)) : x.issued[n]? = some url := by
  cases hs with
  | send hi' hheld =>
    rw [hi] at hi'
    cases hi'
    exact (h.sound _ _ hi).1 n (.inl hheld)

end

/-- In every run whose steps keep exchanges apart and edits whole, no token is lost, replayed or
misdirected. -/
theorem tokens_directed (server : String) (checkFetchUrl : String → Except String Unit)
    {x y : World} {tr : List (World × Event × World)} (hx : Unsigned x)
    (h : (signingIn server checkFetchUrl).Exec x tr y)
    (hcare : ∀ w ∈ tr, w.1.careful w.2.1 = true) : Directed tr y := by
  have hstep (s : World) (l : Event) (t : World) (_ : (signingIn server checkFetchUrl).Reachable s)
      (hsafe : Safe s) (hl : s.careful l = true) (hs : Step server checkFetchUrl s l t) : Safe t :=
    hsafe.step hl hs
  have hbefore {w : World × Event × World} (hw : w ∈ tr) :
      Safe w.1 ∧ Step server checkFetchUrl w.1 w.2.1 w.2.2 :=
    h.guarded_mem (G := fun x l => x.careful l = true) hstep (.init hx) (safe_of_unsigned hx)
      hcare hw
  have hsafe : Safe y :=
    h.guarded (G := fun x l => x.careful l = true) hstep (.init hx) (safe_of_unsigned hx) hcare
  refine ⟨hsafe.once, hsafe.latest, ?_, ?_⟩
  · intro w hw i hl hk
    have hw' := hcare w hw
    have hs := (hbefore hw).2
    rw [hl] at hw' hs
    exact pair_of_writeUpsert hw' hs hk
  · intro w hw i n hl url cached held phase hi
    obtain ⟨hsafe, hs⟩ := hbefore hw
    rw [hl] at hs
    exact hsafe.grant_of_send hs hi

/-! ## Runs -/

namespace World

def step? (server : String) (checkFetchUrl : String → Except String Unit) (x : World) :
    Event → Option World
  | .turn => some (x.begun (.turn x.row.url none [] .idle))
  | .ask i force =>
    match x.tasks[i]?, force with
    | some (.turn url (some t) held .idle), false =>
      some (x.moved i (.turn url (some t) (held ++ t.toList) .idle))
    | some (.turn url none held .idle), force =>
      some (x.moved i (.turn url none held (.resolving force)))
    | some (.turn url cached held .idle), true =>
      some (x.moved i (.turn url cached held (.resolving true)))
    | _, _ => none
  | .read i now github =>
    match x.tasks[i]? with
    | some (.turn url cached held (.resolving force)) =>
      match resolveBearer server github now force x.row.auth with
      | .token t => some (x.moved i (.turn url (some t) (held ++ t.toList) .idle))
      | .fails _ => some (x.moved i (.turn url cached held .idle))
      | .refresh pair => some (x.moved i (.turn url cached held (.refreshing pair)))
    | _ => none
  | .post i reached expiresAt =>
    match x.tasks[i]?, reached with
    | some (.turn url cached held (.refreshing _)), false =>
      some (x.moved i (.turn url cached held .idle))
    | some (.turn url cached held (.refreshing pair)), true =>
      if pair ∈ x.redeemed then
        some { x.moved i (.turn url cached held .idle) with redeemed := x.redeemed ++ [pair] }
      else
        match x.issued[pair]? with
        | some grant => some
          { x.granted i grant false (.turn url cached held (.saving x.issued.length expiresAt)) with
            redeemed := x.redeemed ++ [pair] }
        | none => none
    | _, _ => none
  | .save i =>
    match x.tasks[i]? with
    | some (.turn url _ held (.saving pair expiresAt)) => some (x.saved i pair (some pair) expiresAt
        (.turn url (some (some (.issued pair))) (held ++ [.issued pair]) .idle))
    | some (.storing _ pair rotates expiresAt) =>
      some (x.saved i pair (if rotates then some pair else none) expiresAt .done)
    | _ => none
  | .send i t =>
    match x.tasks[i]? with
    | some (.turn _ _ held _) => if t ∈ held then some x else none
    | _ => none
  | .drop i => if i < x.tasks.length then some (x.moved i .done) else none
  | .connect => if x.row.kind = .oauth then some (x.begun (.connect x.row.url)) else none
  | .saveClient i clientId clientSecret metadata =>
    match x.tasks[i]? with
    | some (.connect _) =>
      some { x with row := x.row.saveOauthClient clientId clientSecret metadata }
    | _ => none
  | .stash i state =>
    match x.tasks[i]? with
    | some (.connect url) =>
      some { x.moved i .done with pending := x.pending.insert state url }
    | _ => none
  | .expire state => some { x with pending := x.pending.erase state }
  | .callback state =>
    match x.pending.lookup state with
    | some url => some { x.begun (.callback url) with pending := x.pending.erase state }
    | none => none
  | .check i =>
    match x.tasks[i]? with
    | some (.callback url) =>
      match exchangeable server x.row.auth with
      | .ok () => some (x.moved i (.exchanging url))
      | .error _ => some (x.moved i .done)
    | _ => none
  | .exchange i reached rotates expiresAt =>
    match x.tasks[i]?, reached with
    | some (.exchanging _), false => some (x.moved i .done)
    | some (.exchanging url), true =>
      some (x.granted i url (!rotates) (.storing url x.issued.length rotates expiresAt))
    | _, _ => none
  | .upsert input =>
    match input.validate checkFetchUrl with
    | .ok url => some (x.begun (.upsert url input.auth))
    | .error _ => none
  | .readUpsert i =>
    match x.tasks[i]? with
    | some (.upsert url auth) => some (x.moved i (.writing url auth x.row.auth))
    | _ => none
  | .writeUpsert i =>
    match x.tasks[i]? with
    | some (.writing url auth existing) => some (x.wrote i url (authFromInput auth existing))
    | _ => none

theorem step_of_step? {server : String} {checkFetchUrl : String → Except String Unit}
    {x y : World} {l : Event} (h : x.step? server checkFetchUrl l = some y) :
    Step server checkFetchUrl x l y := by
  cases l with
  | turn =>
    cases h
    exact .turn
  | ask i force =>
    dsimp only [step?] at h
    split at h
    · rename_i hi
      cases h
      exact .cached hi
    · rename_i hi
      cases h
      exact .ask hi (.inr rfl)
    · rename_i hi
      cases h
      exact .ask hi (.inl rfl)
    · cases h
  | read i now github =>
    dsimp only [step?] at h
    split at h
    · rename_i hi
      split at h
      · rename_i hr
        cases h
        exact .answer hi hr
      · rename_i hr
        cases h
        exact .fails hi hr
      · rename_i hr
        cases h
        exact .refresh hi hr
    · cases h
  | post i reached expiresAt =>
    dsimp only [step?] at h
    split at h
    · rename_i hi
      cases h
      exact .unreached hi
    · rename_i hi
      split_ifs at h with hmem
      · cases h
        exact .replayed hi hmem
      · split at h
        · rename_i hgrant
          cases h
          exact .rotated hi hmem hgrant
        · cases h
    · cases h
  | save i =>
    dsimp only [step?] at h
    split at h
    · rename_i hi
      cases h
      exact .saved hi
    · rename_i hi
      cases h
      exact .stored hi
    · cases h
  | send i t =>
    dsimp only [step?] at h
    split at h
    · rename_i hi
      split_ifs at h with hheld
      cases h
      exact .send hi hheld
    · cases h
  | drop i =>
    obtain ⟨hlt, h⟩ := Option.ite_none_right_eq_some.mp h
    cases h
    exact .drop (List.getElem?_eq_getElem hlt)
  | connect =>
    obtain ⟨hk, h⟩ := Option.ite_none_right_eq_some.mp h
    cases h
    exact .connect hk
  | saveClient i clientId clientSecret metadata =>
    dsimp only [step?] at h
    split at h
    · rename_i hi
      cases h
      exact .saveClient hi
    · cases h
  | stash i state =>
    dsimp only [step?] at h
    split at h
    · rename_i hi
      cases h
      exact .stash hi
    · cases h
  | expire state =>
    cases h
    exact .expire
  | callback state =>
    dsimp only [step?] at h
    split at h
    · rename_i hlookup
      cases h
      exact .callback hlookup
    · cases h
  | check i =>
    dsimp only [step?] at h
    split at h
    · rename_i hi
      split at h
      · rename_i hok
        cases h
        exact .checked hi hok
      · rename_i hwhy
        cases h
        exact .refused hi hwhy
    · cases h
  | exchange i reached rotates expiresAt =>
    dsimp only [step?] at h
    split at h
    · rename_i hi
      cases h
      exact .unanswered hi
    · rename_i hi
      cases h
      exact .exchanged hi
    · cases h
  | upsert input =>
    dsimp only [step?] at h
    split at h
    · rename_i hok
      cases h
      exact .upsert hok
    · cases h
  | readUpsert i =>
    dsimp only [step?] at h
    split at h
    · rename_i hi
      cases h
      exact .readUpsert hi
    · cases h
  | writeUpsert i =>
    dsimp only [step?] at h
    split at h
    · rename_i hi
      cases h
      exact .writeUpsert hi
    · cases h

def added : World where
  row := .ofAuth "https://mcp.example" (.oauth .empty)
  pending := ∅
  tasks := []
  issued := []
  redeemed := []
  bare := false
  discarded := false

theorem unsigned_added : Unsigned added := ⟨rfl, rfl, rfl, rfl, rfl, rfl, rfl⟩

def endpoints : AsMetadata := ⟨some "https://as.example/authorize", some "https://as.example/token",
  none⟩

/-- Somebody signs in, to a token that is about to expire. -/
def signIn : List Event :=
  [.connect, .saveClient 0 "client" none endpoints, .stash 0 "state", .callback "state", .check 1,
    .exchange 1 true true (some 60), .save 1]

def edit : McpServerInput := ⟨"docs", "https://mcp.example", .oauth ⟨none, none, none, none, none⟩⟩

/-- A turn refreshes the token and sends it, and an edit keeps it. -/
theorem tokens_directed_later : ∃ (tr : List (World × Event × World)) (y : World),
    Directed tr y ∧ y.row.pair = (some 1, some 1) ∧ y.redeemed = [0] := by
  let ls : List Event := signIn ++ [Event.turn, .ask 2 false, .read 2 0 (.ok none),
    .post 2 true (some 3600), .save 2, .send 2 (.issued 1), .upsert edit, .readUpsert 3,
    .writeUpsert 3]
  let y := (System.steps? (System.guarded? (fun x l => x.careful l = true)
    (step? "docs" fun _ => .ok ())) added ls).get (by decide +kernel)
  obtain ⟨tr, htr, -, hcare⟩ := System.exec_of_guarded?
    (M := signingIn "docs" fun _ => .ok ()) (G := fun x l => x.careful l = true)
    (fun _ _ _ _ => step_of_step?) (t := y) (Option.some_get _).symm
  exact ⟨tr, y, tokens_directed "docs" (fun _ => .ok ()) unsigned_added htr hcare,
    by decide +kernel, by decide +kernel⟩

/-- Two turns read one refresh token, and both present it. -/
theorem token_replayed : ¬ ∀ (server : String) (checkFetchUrl : String → Except String Unit)
    (x y : World) (tr : List (World × Event × World)), Unsigned x →
      (signingIn server checkFetchUrl).Exec x tr y → Directed tr y := by
  let ls : List Event := signIn ++ [Event.turn, .turn, .ask 2 false, .ask 3 false,
    .read 2 0 (.ok none), .read 3 0 (.ok none), .post 2 true (some 3600),
    .post 3 true (some 3600)]
  let y := (System.steps? (step? "docs" fun _ => .ok ()) added ls).get (by decide +kernel)
  obtain ⟨tr, htr, -⟩ := System.exec_of_steps? (M := signingIn "docs" fun _ => .ok ())
    (fun _ _ _ => step_of_step?) (t := y) (Option.some_get _).symm
  intro hall
  have honce := (hall "docs" (fun _ => .ok ()) added y tr unsigned_added htr).once
  have htwice : y.redeemed = [0, 0] := by decide +kernel
  rw [htwice] at honce
  exact absurd honce (by decide)

end World

end Horsie.Mcp

import Horsie.Lib.Map
import Horsie.Lib.Text
import Mathlib.Algebra.Order.Ring.Int
import Mathlib.Data.List.Infix
import Mathlib.Data.List.Sort

/-!
# The settings, and the models built from them

The stored providers and models, what a request to change one of them has to look like, and the
registry sessions find their models in: an alias is good for a client of its provider, set up with
the credential of that provider and what the model says of itself.
-/

namespace Horsie.Config

open Lib

/-! ## Thinking -/

inductive ThinkingDialect
  | anthropicEffort
  | anthropicAlwaysOn
  | anthropicBudget
  | openAiEffort
  | zaiThinking
  | kimiThinking
  | noControl
deriving DecidableEq

def ThinkingDialect.parse : String → Option ThinkingDialect
  | "anthropic_effort" => some .anthropicEffort
  | "anthropic_always_on" => some .anthropicAlwaysOn
  | "anthropic_budget" => some .anthropicBudget
  | "openai_effort" => some .openAiEffort
  | "zai_thinking" => some .zaiThinking
  | "kimi_thinking" => some .kimiThinking
  | "none" => some .noControl
  | _ => none

inductive ThinkingEffort
  | none
  | minimal
  | low
  | medium
  | high
  | xhigh
  | max
deriving DecidableEq

def ThinkingEffort.parse : String → Option ThinkingEffort
  | "none" => some .none
  | "minimal" => some .minimal
  | "low" => some .low
  | "medium" => some .medium
  | "high" => some .high
  | "xhigh" => some .xhigh
  | "max" => some .max
  | _ => Option.none

/-! ## Rows and requests -/

structure ProviderRow where
  name : String
  kind : String
  baseUrl : Option String
  apiKey : Option String
  keepThinkingSignature : Bool
deriving DecidableEq

structure ModelRow where
  modelAlias : String
  provider : String
  modelId : String
  maxTokens : Option ℤ
  contextWindow : Option ℤ
  thinkingDialect : Option String
  forcedToolsDisableThinking : Bool
  supportsImages : Bool
  supportsDocuments : Bool
deriving DecidableEq

structure ProviderInput where
  name : String
  kind : String
  baseUrl : Option String
  apiKey : Option String
  keepThinkingSignature : Option Bool
deriving DecidableEq

structure ModelInput where
  modelAlias : String
  provider : String
  modelId : String
  maxTokens : Option ℕ
  contextWindow : Option ℕ
  thinkingEfforts : Option (List String)
  thinkingEffort : Option String
  thinkingDialect : Option String
  forcedToolsDisableThinking : Option Bool
  supportsImages : Option Bool
  supportsDocuments : Option Bool
deriving DecidableEq

inductive Wire
  | anthropic
  | openai
  | responses
deriving DecidableEq

/-- What the libraries make of what they are given: why a URL is none to fetch, and why a client
cannot be set up with a key. -/
structure Crates where
  checkFetchUrl : String → Except String Unit
  connects : Wire → String → Except String Unit

def trimmed (v : Option String) : Option String := (v.map trim).filter fun s => !s.isEmpty

/-- A secret that is left out stays as it is stored, and an empty one clears it. -/
def resolveSecret (input existing : Option String) : Option String :=
  match input with
  | none => existing.filter fun s => !s.isEmpty
  | some v => if v.isEmpty then none else some v

def defaultContextWindow (modelId : String) : Option ℕ :=
  ([("claude-", 200000), ("gpt-4o", 128000), ("gpt-4.1", 1000000), ("o1", 200000), ("o3", 200000),
    ("deepseek", 1048576)].find? fun x => decide (x.1.toList <:+: modelId.toList)).map (·.2)

def providerKinds : List String := ["anthropic", "openai", "openai-responses", "chatgpt"]

/-- The name of a provider, where its fields are in order. -/
def Crates.validateProvider (k : Crates) (input : ProviderInput) : Except String String :=
  let name := trim input.name
  if name.isEmpty then .error "provider name cannot be empty"
  else if input.kind ∉ providerKinds then
    .error ("unsupported provider kind '" ++ input.kind ++ "' (expected 'anthropic', 'openai', " ++
      "'openai-responses' or 'chatgpt')")
  else
    match trimmed input.baseUrl with
    | some base => (k.checkFetchUrl base).map fun _ => name
    | none => .ok name

/-- The alias of a model, where its fields are in order. -/
def validateModel (input : ModelInput) : Except String String :=
  let modelAlias := trim input.modelAlias
  let offered := input.thinkingEfforts.getD []
  if modelAlias.isEmpty then .error "model alias cannot be empty"
  else if (trim input.modelId).isEmpty then .error ("model '" ++ modelAlias ++ "' needs a model id")
  else
    match input.thinkingDialect.filter fun d => (ThinkingDialect.parse d).isNone with
    | some d => .error ("model '" ++ modelAlias ++ "' has unknown thinking dialect '" ++ d ++ "'")
    | none =>
      match offered.find? fun e => (ThinkingEffort.parse e).isNone with
      | some e =>
        .error ("model '" ++ modelAlias ++ "' offers unknown thinking effort '" ++ e ++ "'")
      | none =>
        match input.thinkingEffort.filter (· ∉ offered) with
        | some chosen =>
          .error ("model '" ++ modelAlias ++ "' default thinking effort '" ++ chosen ++
            "' is not among its offered efforts")
        | none => .ok modelAlias

def ProviderInput.row (input : ProviderInput) (name : String) (stored : Option String) :
    ProviderRow where
  name := name
  kind := input.kind
  baseUrl := trimmed input.baseUrl
  apiKey := if input.kind = "chatgpt" then none else resolveSecret input.apiKey stored
  keepThinkingSignature := input.keepThinkingSignature.getD false

def ModelInput.row (input : ModelInput) (modelAlias : String) : ModelRow where
  modelAlias := modelAlias
  provider := input.provider
  modelId := trim input.modelId
  maxTokens := input.maxTokens.map Int.ofNat
  contextWindow :=
    (input.contextWindow.or (defaultContextWindow (trim input.modelId))).map Int.ofNat
  thinkingDialect := input.thinkingDialect
  forcedToolsDisableThinking := input.forcedToolsDisableThinking.getD false
  supportsImages := input.supportsImages.getD false
  supportsDocuments := input.supportsDocuments.getD false

/-! ## Clients -/

/-- What a client authorizes with: a key, or a sign-in that is kept for a provider. -/
inductive Credential
  | apiKey (key : String)
  | chatGpt (provider tokens : String)
deriving DecidableEq

structure LlmProvider where
  wire : Wire
  credential : Credential
  model : String
  baseUrl : String
  maxTokens : Option ℕ
  keepThinkingSignature : Bool
  thinkingDialect : ThinkingDialect
  forcedToolsDisableThinking : Bool
deriving DecidableEq

structure ModelEntry where
  provider : LlmProvider
  contextWindow : Option ℕ
  supportsImages : Bool
  supportsDocuments : Bool
deriving DecidableEq

abbrev Registry := Map String ModelEntry

/-- A stored number that fits the wire. -/
def narrowed (v : Option ℤ) : Option ℕ :=
  v.bind fun n => if 0 ≤ n ∧ n < 4294967296 then some n.toNat else none

def unslashed (url : String) : String :=
  String.ofList ((url.toList.reverse.dropWhile (· = '/')).reverse)

def requiredKey (provider : String) (apiKey : Option String) : Except String String :=
  match apiKey.filter fun s => !s.isEmpty with
  | some key => .ok key
  | none => .error ("provider '" ++ provider ++ "' has no API key — add one in settings")

namespace Crates

variable (k : Crates)

def buildAnthropic (p : ProviderRow) (m : ModelRow) (dialect : ThinkingDialect) :
    Except String LlmProvider := do
  let key ← requiredKey p.name p.apiKey
  k.connects .anthropic key
  .ok ⟨.anthropic, .apiKey key, m.modelId, p.baseUrl.getD "https://api.anthropic.com",
    narrowed m.maxTokens, p.keepThinkingSignature, dialect, false⟩

def buildOpenai (p : ProviderRow) (m : ModelRow) (dialect : ThinkingDialect) :
    Except String LlmProvider := do
  let key ← requiredKey p.name p.apiKey
  k.connects .openai key
  .ok ⟨.openai, .apiKey key, m.modelId, unslashed (p.baseUrl.getD "https://api.openai.com"),
    narrowed m.maxTokens, false, dialect, m.forcedToolsDisableThinking⟩

def buildResponses (p : ProviderRow) (m : ModelRow) (dialect : ThinkingDialect) :
    Except String LlmProvider := do
  let key ← requiredKey p.name p.apiKey
  k.connects .responses key
  .ok ⟨.responses, .apiKey key, m.modelId, unslashed (p.baseUrl.getD "https://api.openai.com"),
    narrowed m.maxTokens, false, dialect, false⟩

def buildChatgpt (p : ProviderRow) (m : ModelRow) (tokens : String) (dialect : ThinkingDialect) :
    LlmProvider :=
  ⟨.responses, .chatGpt p.name tokens, m.modelId,
    (p.baseUrl.map unslashed).getD "https://chatgpt.com", narrowed m.maxTokens, false, dialect,
    false⟩

def buildProvider (p : ProviderRow) (m : ModelRow) (chatgpt : Map String String) :
    Except String LlmProvider :=
  let dialect := (m.thinkingDialect.bind ThinkingDialect.parse).getD .noControl
  match p.kind with
  | "anthropic" => k.buildAnthropic p m dialect
  | "openai" => k.buildOpenai p m dialect
  | "openai-responses" => k.buildResponses p m dialect
  | "chatgpt" =>
    match chatgpt.lookup p.name with
    | some tokens => .ok (buildChatgpt p m tokens dialect)
    | none =>
      .error ("provider '" ++ p.name ++ "' is a ChatGPT plan but has no sign-in yet — " ++
        "sign in from settings before using its models")
  | other => .error ("provider '" ++ p.name ++ "' has unsupported kind '" ++ other ++ "'")

/-- What an alias is good for. -/
def buildEntry (providers : List ProviderRow) (chatgpt : Map String String) (m : ModelRow) :
    Except String ModelEntry :=
  match providers.find? fun p => p.name = m.provider with
  | none =>
    .error ("model '" ++ m.modelAlias ++ "' references unknown provider '" ++ m.provider ++ "'")
  | some p => (k.buildProvider p m chatgpt).map fun built =>
    ⟨built, narrowed m.contextWindow, m.supportsImages, m.supportsDocuments⟩

def buildRegistry (providers : List ProviderRow) (models : List ModelRow)
    (chatgpt : Map String String) : Except String Registry :=
  models.foldlM (fun reg m => (k.buildEntry providers chatgpt m).map (reg.insert m.modelAlias)) ∅

variable {k} {providers : List ProviderRow} {models : List ModelRow} {chatgpt : Map String String}

theorem buildRegistry_ok_iff : (∃ reg, k.buildRegistry providers models chatgpt = .ok reg) ↔
    ∀ m ∈ models, ∃ entry, k.buildEntry providers chatgpt m = .ok entry := by
  unfold buildRegistry
  generalize (∅ : Registry) = reg
  induction models generalizing reg with
  | nil => exact ⟨fun _ m hm => absurd hm List.not_mem_nil, fun _ => ⟨reg, rfl⟩⟩
  | cons m ms ih =>
    rw [List.foldlM_cons]
    cases hm : k.buildEntry providers chatgpt m with
    | error why =>
      constructor
      · rintro ⟨reg, h⟩
        cases h
      · intro h
        obtain ⟨entry, hentry⟩ := h m List.mem_cons_self
        rw [hm] at hentry
        cases hentry
    | ok entry =>
      refine (ih (reg.insert m.modelAlias entry)).trans ?_
      rw [List.forall_mem_cons]
      exact ⟨fun h => ⟨⟨entry, hm⟩, h⟩, fun h => h.2⟩

theorem buildEntry_signedIn {provider tokens : String} {m : ModelRow} {entry : ModelEntry}
    (h : k.buildEntry providers chatgpt m = .ok entry) :
    ∃ entry, k.buildEntry providers (chatgpt.insert provider tokens) m = .ok entry := by
  unfold buildEntry at h ⊢
  cases hp : providers.find? fun p => p.name = m.provider with
  | none =>
    rw [hp] at h
    cases h
  | some p =>
    rw [hp] at h
    dsimp only at h ⊢
    by_cases hk : p.kind = "chatgpt"
    · unfold buildProvider
      rw [hk]
      cases hl : (chatgpt.insert provider tokens).lookup p.name with
      | some found => exact ⟨_, rfl⟩
      | none =>
        exfalso
        rw [Map.lookup_insert_eq] at hl
        split_ifs at hl
        unfold buildProvider at h
        rw [hk] at h
        dsimp only at h
        rw [hl] at h
        cases h
    · have hsame : k.buildProvider p m (chatgpt.insert provider tokens) =
          k.buildProvider p m chatgpt := by
        unfold buildProvider
        split <;> first | rfl | exact absurd ‹_› hk
      rw [hsame]
      exact ⟨entry, h⟩

end Crates

end Horsie.Config

import Horsie.Agent.State

/-!
# The Messages API

What the provider keeps of the token counts a stream reports: `message_start` sets them, the final
`message_delta` supersedes each one it carries, and `usage` adds the cached part of the prompt back
to the input, which the wire reports without it.
-/

namespace Horsie.LlmProviders

open Agent (Usage wrapAdd)

/-- The token counts of one stream event. -/
structure WireUsage where
  inputTokens : Option ℕ
  outputTokens : Option ℕ
  cacheCreationInputTokens : Option ℕ
  cacheReadInputTokens : Option ℕ
deriving DecidableEq

/-- The token counts gathered from a stream. -/
structure Counts where
  inputTokens : ℕ
  outputTokens : ℕ
  cacheCreationTokens : Option ℕ
  cacheReadTokens : Option ℕ
deriving DecidableEq

namespace Counts

/-- The counts of a stream that has reported nothing. -/
def zero : Counts := ⟨0, 0, none, none⟩

def messageStart (c : Counts) : Option WireUsage → Counts
  | none => c
  | some u =>
    { c with
      inputTokens := u.inputTokens.getD 0
      cacheCreationTokens := u.cacheCreationInputTokens
      cacheReadTokens := u.cacheReadInputTokens }

def messageDelta (c : Counts) : Option WireUsage → Counts
  | none => c
  | some u =>
    { inputTokens := u.inputTokens.getD c.inputTokens
      outputTokens := u.outputTokens.getD c.outputTokens
      cacheCreationTokens := u.cacheCreationInputTokens.or c.cacheCreationTokens
      cacheReadTokens := u.cacheReadInputTokens.or c.cacheReadTokens }

def usage (c : Counts) : Usage where
  inputTokens := wrapAdd 32 (wrapAdd 32 c.inputTokens (c.cacheCreationTokens.getD 0))
    (c.cacheReadTokens.getD 0)
  outputTokens := c.outputTokens
  cacheCreationTokens := c.cacheCreationTokens
  cacheReadTokens := c.cacheReadTokens

end Counts

end Horsie.LlmProviders

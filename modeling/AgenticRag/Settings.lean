import Mathlib.Data.Rat.Defs

/-!
# Settings

The part of `app/config.py` that the modelled functions read, with the defaults
of the source.
-/

namespace AgenticRag

/-- `visual_path` -/
inductive VisualPath where
  | degraded
  | full
  deriving DecidableEq

structure Settings where
  llmMultimodal : Bool := false
  visualPath : VisualPath := .degraded
  colqwenBaseUrl : String := "http://colqwen:8003"
  contextTokenBudget : ℕ := 3000
  contextMaxImages : ℕ := 4
  fusionRrfK : ℕ := 60
  semanticCacheSimilarity : ℚ := 95 / 100
  semanticCacheTtlS : ℕ := 86400
  evalEnabled : Bool := true
  maxGraphIterations : ℕ := 25
  maxRetrievalRetries : ℕ := 2
  maxGenerationRetries : ℕ := 1
  hallucinationCheckEnabled : Bool := true
  maxIndexingRetries : ℕ := 3

end AgenticRag

import AgenticRag.Chunking.Places
import AgenticRag.Ingestion.Stores

/-!
# Elements, chunks and the chunker's settings
-/

namespace AgenticRag.Chunker

open AgenticRag.Ingestion (ChunkType)

/-- `int(value)` of a finite double: its integer part. -/
def truncate (value : Float) : ℤ :=
  value.toModel.unpack.toInt 0 0

/-- `int(length * ratio)` -/
def overlapIn (ratio : Float) (length : ℕ) : ℤ :=
  truncate (Float.ofNat length * ratio)

/-- The exact product is 63. -/
example : overlapIn 0.35 180 = 62 := by decide +kernel

/-- The chunker's part of the settings, with an overlap shorter than a window. -/
structure ChunkSettings where
  chunkMinTokens : ℕ
  chunkMaxTokens : ℕ
  chunkOverlapRatio : Float
  tableRowSerializeThreshold : ℕ
  finite : chunkOverlapRatio.isFinite = true
  overlap_nonneg : 0 ≤ overlapIn chunkOverlapRatio (chunkMaxTokens * 19 / 5)
  overlap_lt : overlapIn chunkOverlapRatio (chunkMaxTokens * 19 / 5) <
    ((chunkMaxTokens * 19 / 5 : ℕ) : ℤ)

namespace ChunkSettings

def default : ChunkSettings where
  chunkMinTokens := 350
  chunkMaxTokens := 600
  chunkOverlapRatio := 0.15
  tableRowSerializeThreshold := 8
  finite := by decide +kernel
  overlap_nonneg := by decide +kernel
  overlap_lt := by decide +kernel

/-- `int(length * chunk_overlap_ratio)` -/
def overlapOf (settings : ChunkSettings) (length : ℕ) : ℤ :=
  overlapIn settings.chunkOverlapRatio length

/-- `min_c`, `max_c` and `overlap_c`, at 3.8 characters per token: for the first two the
double product has the integer part of the exact one. -/
def limits (settings : ChunkSettings) : Limits where
  minC := settings.chunkMinTokens * 19 / 5
  maxC := settings.chunkMaxTokens * 19 / 5
  overlapC := (settings.overlapOf (settings.chunkMaxTokens * 19 / 5)).toNat
  overlap_lt := (Int.toNat_lt settings.overlap_nonneg).mpr settings.overlap_lt

end ChunkSettings

structure Bbox where
  left : ℚ
  top : ℚ
  right : ℚ
  bottom : ℚ
  deriving DecidableEq

/-- The metadata of an element: the entries the chunker reads, and those it only copies. -/
structure Metadata where
  rows : Option (List (List Text)) := none
  header : Option (List Text) := none
  caption : Option Text := none
  others : List (String × String) := []
  deriving DecidableEq

structure ParsedElement where
  kind : ChunkType
  content : Text
  page : Option ℕ := none
  sectionTitle : Option Text := none
  bbox : Option Bbox := none
  metadata : Metadata := {}
  deriving DecidableEq

inductive TableRepr where
  | markdown
  | rows
  deriving DecidableEq

/-- `source_metadata`: the copied entries and those the chunker adds. -/
structure SourceMetadata where
  copied : Metadata := {}
  bbox : Option Bbox := none
  tableRepr : Option TableRepr := none
  rowRange : Option (ℕ × ℕ) := none
  deriving DecidableEq

structure ChunkData where
  chunkType : ChunkType
  rawContent : Text
  normalizedContent : Text
  chunkIndex : ℕ
  pageNumber : Option ℕ := none
  sectionTitle : Option Text := none
  sourceMetadata : SourceMetadata := {}
  deriving DecidableEq

end AgenticRag.Chunker

import AgenticRag.Chat.Thread
import AgenticRag.Graph.Evidence
import AgenticRag.Graph.Budget
import AgenticRag.Graph.Acceptance
import AgenticRag.Cache.Isolation
import AgenticRag.Cache.TagRace
import AgenticRag.Ingestion.Replicas
import AgenticRag.Ingestion.Worker
import AgenticRag.Ingestion.Handling
import AgenticRag.Ingestion.Documents
import AgenticRag.Ingestion.Deletion
import AgenticRag.Ingestion.Remains
import AgenticRag.Chat.Service
import AgenticRag.Chat.SharedAnswers
import AgenticRag.Chat.Provenance
import AgenticRag.Chat.Retrieval
import AgenticRag.Lifecycle.Staleness
import AgenticRag.Lifecycle.Removal
import AgenticRag.Auth.Session
import AgenticRag.Auth.Rotation
import AgenticRag.Auth.Epoch
import AgenticRag.Access.Documents
import AgenticRag.Access.Reading
import AgenticRag.Graph.Prompts
import AgenticRag.Graph.Numbering
import AgenticRag.Graph.Carried
import AgenticRag.Chat.Reports
import AgenticRag.Graph.Stream
import AgenticRag.Chat.Endpoints
import AgenticRag.Graph.Markers
import AgenticRag.Chat.Tokens
import AgenticRag.Chat.Concurrent
import AgenticRag.Quota.Recovery
import AgenticRag.Quota.Turns
import AgenticRag.Context.Packing
import AgenticRag.Graph.Grading
import AgenticRag.Chat.Verdicts
import AgenticRag.Graph.Clients
import AgenticRag.Chat.Outages
import AgenticRag.Cache.Failures
import AgenticRag.Core.Traces
import AgenticRag.Quota.Leaks
import AgenticRag.Ingestion.Dispatch
import AgenticRag.Ingestion.Exhaustion
import AgenticRag.Ingestion.Ledger
import AgenticRag.Ingestion.Statuses
import AgenticRag.Ingestion.Custody
import AgenticRag.Access.Uploads
import AgenticRag.Chunking.Packer
import AgenticRag.Chunking.Units
import AgenticRag.Chunking.Fillings
import AgenticRag.Chunking.Places
import AgenticRag.Chunking.Contiguity
import AgenticRag.Text.Normalize
import AgenticRag.Chunking.Starts
import AgenticRag.Chunking.Elements
import AgenticRag.Chunking.Sections
import AgenticRag.Chunking.Pages
import AgenticRag.Chunking.Minimum
import AgenticRag.Chunking.Tables
import AgenticRag.Chunking.RowChunks
import AgenticRag.Chunking.DoclingTables
import AgenticRag.Chunking.Builder
import AgenticRag.Chunking.Coverage
import AgenticRag.Chunking.TableReader
import AgenticRag.Text.Codecs
import AgenticRag.Chunking.TextParsers
import AgenticRag.Chunking.Boilerplate
import AgenticRag.Ingestion.FileTypes
import AgenticRag.Text.Lines
import AgenticRag.Text.HyphenBreaks
import AgenticRag.Text.NormalForm
import AgenticRag.Core.Windows
import AgenticRag.Chunking.LegacySplit
import AgenticRag.Chunking.LegacyPlaces
import AgenticRag.Graph.NormalMarkers
import AgenticRag.Client.Inline
import AgenticRag.Client.Markdown
import AgenticRag.Client.Sources
import AgenticRag.Graph.Replies
import AgenticRag.Core.Ranking
import AgenticRag.Cache.Freshness
import AgenticRag.Core.Grouping
import AgenticRag.Reports.KnowledgeGaps
import AgenticRag.Reports.Pairing
import AgenticRag.Reports.Gaps
import AgenticRag.Text.Json
import AgenticRag.Text.JsonReading
import AgenticRag.Core.Residual
import AgenticRag.Client.Events
import AgenticRag.Text.Utf8Stream
import AgenticRag.Client.EventReading
import AgenticRag.Core.Alternation
import AgenticRag.Context.Interleaving
import AgenticRag.Text.UuidText
import AgenticRag.Access.History
import AgenticRag.Access.Reopening
import AgenticRag.Ingestion.ObjectUris
import AgenticRag.Ingestion.FigureSink
import AgenticRag.Access.FigurePaths
import AgenticRag.Core.Positions
import AgenticRag.Client.ApiClient
import AgenticRag.Client.CookieJar
import AgenticRag.Access.Administration
import AgenticRag.Core.Keyed
import AgenticRag.Chat.Sessions
import AgenticRag.Chat.Ratings
import AgenticRag.Client.Desk
import AgenticRag.Client.Waiting
import AgenticRag.Client.Thread
import AgenticRag.Core.Paging
import AgenticRag.Access.AclAudit
import AgenticRag.Quota.Minutes
import AgenticRag.Chunking.Pipeline
import AgenticRag.Core.FileTree
import AgenticRag.Ingestion.Storage
import AgenticRag.Retrieval.MetadataLookup

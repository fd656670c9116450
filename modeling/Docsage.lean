import Docsage.Library.Transition
import Docsage.Library.Program
import Docsage.Library.Race
import Docsage.Library.Serial
import Docsage.Library.Windows
import Docsage.Library.Alternation
import Docsage.Library.Ranking
import Docsage.Library.SlidingWindow
import Docsage.Library.Leases
import Docsage.Library.Utf8
import Docsage.Library.Sentences
import Docsage.Library.Words
import Docsage.Library.JsonText
import Docsage.Library.JsonScan
import Docsage.Library.Patterns
import Docsage.Library.Csv
import Docsage.Library.Escapes
import Docsage.Library.FileTree
import Docsage.Library.PercentEncoding
import Docsage.Library.ConnectionString
import Docsage.Text.Newlines
import Docsage.Store.Tables
import Docsage.Infrastructure.DatabaseUrl
import Docsage.Infrastructure.ConnectionSettings
import Docsage.Storage.Uploads
import Docsage.Providers.Embedding
import Docsage.Providers.DemoGenerators
import Docsage.Providers.DemoNorm
import Docsage.Providers.Retry
import Docsage.Ingestion.Orm
import Docsage.Ingestion.Chunks
import Docsage.Ingestion.Run
import Docsage.Ingestion.DotNet
import Docsage.Providers.EmbeddedTexts
import Docsage.Ingestion.Outcome
import Docsage.Ingestion.Lifecycle
import Docsage.Ingestion.StatusOrder
import Docsage.Ingestion.References
import Docsage.Ingestion.Returns
import Docsage.Ingestion.Extract
import Docsage.Ingestion.ChunkParity
import Docsage.Ingestion.Contents
import Docsage.Ingestion.ChunkGeometry
import Docsage.Ingestion.MarkdownTables
import Docsage.Ingestion.TableDecoding
import Docsage.Ingestion.CsvTables
import Docsage.Ingestion.PdfLines
import Docsage.Ingestion.CsvParity
import Docsage.Enrichment.Demo
import Docsage.Enrichment.Keywords
import Docsage.Enrichment.Parity
import Docsage.Enrichment.TopKeywords
import Docsage.Enrichment.JsonObject
import Docsage.Enrichment.ObjectEnds
import Docsage.Enrichment.Passes
import Docsage.Enrichment.Excerpt
import Docsage.Enrichment.BadOutput
import Docsage.Api.Access
import Docsage.Api.Upload
import Docsage.Api.TextUploads
import Docsage.Api.Reviews
import Docsage.Retrieval.Retrieve
import Docsage.Retrieval.Completeness
import Docsage.Retrieval.Agreement
import Docsage.Retrieval.Merge
import Docsage.Ingestion.Searchable
import Docsage.Ingestion.DotNetOutcome
import Docsage.Ingestion.DotNetExtract
import Docsage.Ingestion.DotNetSearchable
import Docsage.Ingestion.PlanParity
import Docsage.Ingestion.PipelineParity
import Docsage.Ingestion.CsvUploads
import Docsage.Api.Documents
import Docsage.Api.Hidden
import Docsage.Api.Listed
import Docsage.Api.Creations
import Docsage.Auth.Logout
import Docsage.Auth.Windows
import Docsage.Auth.DotNet
import Docsage.Auth.SharedSessions
import Docsage.Auth.Guessing
import Docsage.System.World
import Docsage.System.Life
import Docsage.System.Refinement
import Docsage.System.Alone
import Docsage.System.Keys
import Docsage.System.Review
import Docsage.System.PendingFlags
import Docsage.System.Terminal
import Docsage.System.Decisions
import Docsage.System.Spaces
import Docsage.System.Deleted
import Docsage.System.Restart
import Docsage.System.Archive
import Docsage.System.Atomic
import Docsage.System.Purge
import Docsage.Chat.Answer
import Docsage.Chat.Sources
import Docsage.Chat.Protocol
import Docsage.Chat.Stored
import Docsage.Chat.Failures
import Docsage.Chat.Scope
import Docsage.Frontend.EventStream
import Docsage.Frontend.RoundTrip
import Docsage.Frontend.ChatPage
import Docsage.Frontend.Conversation
import Docsage.Frontend.LateTranscript
import Docsage.Frontend.DocumentDetail
import Docsage.Frontend.ShownEnrichments
import Docsage.Frontend.MarkdownLite
import Docsage.Frontend.Citations
import Docsage.Frontend.UploadPage
import Docsage.Frontend.UploadQueue
import Docsage.Providers.OpenAi
import Docsage.Library.LineEnds
import Docsage.Chat.OpenAiStream
import Docsage.Chat.Private
import Docsage.Library.Polling
import Docsage.Api.DotNetDocuments
import Docsage.Frontend.DocumentsPage
import Docsage.Frontend.LiveCards
import Docsage.Frontend.DetailDialog
import Docsage.Api.DotNetHidden
import Docsage.Api.Topics

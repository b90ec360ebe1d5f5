import AtlasRag.Lib.Run
import AtlasRag.Lib.Schedule
import AtlasRag.Lib.Table
import AtlasRag.Lib.LeasedJob
import AtlasRag.Platform.Postgres
import AtlasRag.Jobs.Outbox
import AtlasRag.Jobs.Publisher
import AtlasRag.Ingestion.Item
import AtlasRag.Ingestion.Chunk
import AtlasRag.Ingestion.Lifecycle
import AtlasRag.Ingestion.Invariant
import AtlasRag.Ingestion.Retry
import AtlasRag.Ingestion.Fencing
import AtlasRag.Ingestion.ChunkSet
import AtlasRag.Jobs.Undispatched
import AtlasRag.Ingestion.Delivery
import AtlasRag.Identity.Tables
import AtlasRag.Lib.Closure
import AtlasRag.Lib.Since
import AtlasRag.Lib.Workflow
import AtlasRag.Identity.EffectivePrincipals
import AtlasRag.Identity.Transactions
import AtlasRag.Identity.Changes
import AtlasRag.Identity.Safety
import AtlasRag.Identity.Superadmin
import AtlasRag.Identity.Retirement
import AtlasRag.Identity.Provisioning
import AtlasRag.Identity.Convergence
import AtlasRag.Identity.GroupGraph
import AtlasRag.Embedding.Tables
import AtlasRag.Embedding.Transactions
import AtlasRag.Embedding.Changes
import AtlasRag.Embedding.Safety
import AtlasRag.Embedding.Vectors
import AtlasRag.Embedding.InFlight
import AtlasRag.Embedding.Recovery
import AtlasRag.Embedding.ModelRegistry
import AtlasRag.Embedding.ModelIdentity
import AtlasRag.Identity.Conclusions
import AtlasRag.Identity.Decisions
import AtlasRag.Lib.Lists
import AtlasRag.Lib.LockMode
import AtlasRag.Knowledge.Tables
import AtlasRag.Platform.Text
import AtlasRag.Platform.Sha256
import AtlasRag.Lib.Effect
import AtlasRag.Knowledge.Requests
import AtlasRag.Knowledge.Transactions
import AtlasRag.Knowledge.Changes
import AtlasRag.Knowledge.Safety
import AtlasRag.Knowledge.Upload
import AtlasRag.Knowledge.Timeline
import AtlasRag.Knowledge.Transitions
import AtlasRag.Knowledge.Insertions
import AtlasRag.Knowledge.Access
import AtlasRag.Lib.Words
import AtlasRag.Lib.Windows
import AtlasRag.Platform.Str
import AtlasRag.Platform.Value
import AtlasRag.Platform.Dumps
import AtlasRag.Ingestion.Chunking.Config
import AtlasRag.Ingestion.Chunking.Tokenizer
import AtlasRag.Ingestion.Chunking.Chunkers
import AtlasRag.Ingestion.Chunking.Runs
import AtlasRag.Ingestion.Chunking.Drafts
import AtlasRag.Ingestion.Chunking.Cuts
import AtlasRag.Ingestion.Chunking.Bound
import AtlasRag.Ingestion.Pipeline
import AtlasRag.Ingestion.Acceptance
import AtlasRag.Platform.Loads
import AtlasRag.Extraction.Normalization
import AtlasRag.Extraction.Specification
import AtlasRag.Lib.Codes
import AtlasRag.Platform.Canonical
import AtlasRag.Platform.Auth.Keycloak
import AtlasRag.Platform.Auth.KeyCache
import AtlasRag.Platform.Auth.Cooldown
import AtlasRag.Platform.Auth.Freshness
import AtlasRag.Ingestion.Chunking.Storable
import AtlasRag.Ingestion.Chunking.Rows
import AtlasRag.Ingestion.RoundTrip
import AtlasRag.Lib.Segments
import AtlasRag.Embedding.Batching.Config
import AtlasRag.Embedding.Batching.Planner
import AtlasRag.Lib.Assoc
import AtlasRag.Embedding.Batching.Validation
import AtlasRag.Embedding.Batching.Attempts
import AtlasRag.Embedding.Batching.Batcher
import AtlasRag.Embedding.Worker
import AtlasRag.Embedding.Delivery
import AtlasRag.Embedding.Liveness
import AtlasRag.Lib.Outcomes
import AtlasRag.Knowledge.Edits
import AtlasRag.Api.Routes
import AtlasRag.Knowledge.Conclusions
import AtlasRag.Api.Gateway
import AtlasRag.Api.Stages
import AtlasRag.Api.Mediation
import AtlasRag.Api.Confinement

import HiringService.Contracts.Invalidation
import HiringService.Sequential.Reingestion
import HiringService.Service.Accounts
import HiringService.Service.Coherence
import HiringService.Service.Finality
import HiringService.Contracts.Ingestion
import HiringService.Service.Keys
import HiringService.Service.Ingestions
import HiringService.Metrics.Joins
import HiringService.Metrics.AboveMean
import HiringService.Metrics.ByQuarter
import HiringService.Service.Consistency
import HiringService.Service.Agreement
import HiringService.CsvShape
import HiringService.CsvRoundTrip
import HiringService.Translation
import HiringService.Contracts.Raised
import HiringService.Contracts.Savepoints
import HiringService.Contracts.Chunking
import HiringService.Metrics.SelfHealing
import HiringService.Redis.TextRefinement
import HiringService.Service.Ledger
import HiringService.Service.Polls
import HiringService.Service.Locks
import HiringService.Service.Answers
import HiringService.Api.Uploads
import HiringService.Api.Batches

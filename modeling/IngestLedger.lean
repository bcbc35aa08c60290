import IngestLedger.Bytes.Uleb128
import IngestLedger.Host
import IngestLedger.Ledger.Session
import IngestLedger.Logging
import IngestLedger.Rotation
import IngestLedger.Row.Document
import IngestLedger.RunMode.Document
import IngestLedger.Proofs.Coalescing
import IngestLedger.Proofs.Facts
import IngestLedger.Proofs.Keys
import IngestLedger.Proofs.Store
import IngestLedger.Proofs.Applying
import IngestLedger.Proofs.Calls
import IngestLedger.Proofs.Histories
import IngestLedger.Proofs.Convergence
import IngestLedger.Proofs.SingleCalls
import IngestLedger.Proofs.Lookups
import IngestLedger.Proofs.MultiKeys
import IngestLedger.Proofs.Records
import IngestLedger.Proofs.Rotations
import IngestLedger.Proofs.Signers
import IngestLedger.Proofs.Backfills
import IngestLedger.Proofs.Failures
import IngestLedger.Proofs.Ingestion
import IngestLedger.Proofs.RotationChains
import IngestLedger.Proofs.NewerRows
import IngestLedger.Proofs.Replays
import IngestLedger.Proofs.ChainGuard
import IngestLedger.Proofs.PersistedBackfills
import IngestLedger.Proofs.Restarts
import IngestLedger.Proofs.Agreement
import IngestLedger.Proofs.Interference
import IngestLedger.Proofs.KeyLayout
import IngestLedger.Proofs.RowLayouts
import IngestLedger.Proofs.CanonicalMultiKeys
import IngestLedger.Proofs.FileStores
import IngestLedger.Proofs.DamagedRows
import IngestLedger.Proofs.Plans
import IngestLedger.Proofs.Moves
import IngestLedger.Proofs.LiveProgress
import IngestLedger.Proofs.BackfillRows
import IngestLedger.Proofs.PlannedEvents
import IngestLedger.Proofs.Growth
import IngestLedger.Proofs.Counting
import IngestLedger.Proofs.FileGrammar
import IngestLedger.Proofs.FinishedBackfills
import IngestLedger.Proofs.ShortBursts
import IngestLedger.Proofs.CutFiles
import IngestLedger.Proofs.RotationEvents
import IngestLedger.Proofs.PartialCoalescing
import IngestLedger.Proofs.BatchOrder
import IngestLedger.Proofs.RunModeDocuments
import IngestLedger.Proofs.Listings
import IngestLedger.Proofs.OpenLedgers
import IngestLedger.Proofs.QuotedTexts
import IngestLedger.Proofs.LogFilters

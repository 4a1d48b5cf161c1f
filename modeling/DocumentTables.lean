import DocumentTables.Text.Blank
import DocumentTables.Text.Identifier
import DocumentTables.NameMap
import DocumentTables.Number.Binary64
import DocumentTables.Number.Shortest
import DocumentTables.Json.Value
import DocumentTables.Json.Writer
import DocumentTables.Json.Literal
import DocumentTables.Json.Reader
import DocumentTables.Document.Path
import DocumentTables.Text.Hidden
import DocumentTables.Text.Quoted
import DocumentTables.Error
import DocumentTables.Filter
import DocumentTables.Key.Basic
import DocumentTables.Key.Validation
import DocumentTables.Key.Order
import DocumentTables.Key.Schema
import DocumentTables.Duration
import DocumentTables.Config.Numeral
import DocumentTables.Config.Environment
import DocumentTables.Config.ConnectionParameters
import DocumentTables.Config.RetryPolicy
import DocumentTables.Config.CacheStrategy
import DocumentTables.Toml.Value
import DocumentTables.Toml.Scalar
import DocumentTables.Toml.Document
import DocumentTables.Toml.Reader
import DocumentTables.Files.Path
import DocumentTables.Config.Settings
import DocumentTables.Digest.Sha256
import DocumentTables.Files.Tree
import DocumentTables.Files.Calls
import DocumentTables.Cache.Stats
import DocumentTables.Cache.Memory
import DocumentTables.Cache.Disk
import DocumentTables.Cache.Store
import DocumentTables.Backend.Database
import DocumentTables.Backend.Basic
import DocumentTables.Backend.Memory
import DocumentTables.Backend.Faults
import DocumentTables.Connection.ParameterSource
import DocumentTables.Connection.Manager
import DocumentTables.Table.Basic
import DocumentTables.Table.Listing
import DocumentTables.Sample
import DocumentTables.Proofs.RetryLoop
import DocumentTables.Proofs.Equality
import DocumentTables.Proofs.KeyMap
import DocumentTables.Proofs.FieldMaps
import DocumentTables.Proofs.Projection
import DocumentTables.Proofs.KeyIdentity
import DocumentTables.Proofs.CollectionContents
import DocumentTables.Proofs.Network
import DocumentTables.Proofs.TableRuns
import DocumentTables.Proofs.TableEffects
import DocumentTables.Proofs.TableRequests
import DocumentTables.Proofs.MapRefinement
import DocumentTables.Proofs.ServedDocuments
import DocumentTables.Proofs.Interleaving
import DocumentTables.Proofs.CacheAgreement
import DocumentTables.Proofs.ParameterRefresh
import DocumentTables.Proofs.WriteEviction
import DocumentTables.Proofs.JsonText
import DocumentTables.Proofs.PathNames
import DocumentTables.Proofs.PathResolution
import DocumentTables.Proofs.StoreNames
import DocumentTables.Proofs.StoreDirectory
import DocumentTables.Proofs.StoreRoot
import DocumentTables.Proofs.StoreFiles
import DocumentTables.Proofs.DiskSimulation
import DocumentTables.Proofs.BackedEntries
import DocumentTables.Proofs.SharedDisk
import DocumentTables.Proofs.PassingFaults
import DocumentTables.Proofs.Staleness
import DocumentTables.Proofs.Listings
import DocumentTables.Proofs.StoreFrame
import DocumentTables.Proofs.StoreSeparation
import DocumentTables.Proofs.Addressability
import DocumentTables.Proofs.UniqueIndexes
import DocumentTables.Proofs.TreePruning
import DocumentTables.Proofs.StoreClearing
import DocumentTables.Proofs.PutSteps
import DocumentTables.Proofs.TemporaryFiles
import DocumentTables.Proofs.ConcurrentPuts
import DocumentTables.Proofs.KeyFilters
import DocumentTables.Proofs.KeyOrder
import DocumentTables.Proofs.KeyValidation
import DocumentTables.Proofs.RoundingIntervals
import DocumentTables.Proofs.DoubleTexts
import DocumentTables.Proofs.CanonicalTexts
import DocumentTables.Proofs.OrderAgreement
import DocumentTables.Proofs.Backoff
import DocumentTables.Proofs.VariableSettings
import DocumentTables.Proofs.MadeDirectories
import DocumentTables.Proofs.PutOutcome
import DocumentTables.Proofs.StorePaths
import DocumentTables.Proofs.SafeTexts

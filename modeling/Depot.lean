import Depot.Config.Printer
import Depot.Main
import Depot.Record.Reader
import Depot.Store.Faulty
import Depot.Stream.Reading
import Depot.Transfer.Scripted
import Depot.Proofs.Bytes
import Depot.Proofs.Source
import Depot.Proofs.Zstd.Decoding
import Depot.Proofs.Zstd.Encoding
import Depot.Proofs.Pipeline
import Depot.Proofs.Stream.Barrier
import Depot.Proofs.Stream.EndOfStream
import Depot.Gateway.Flight
import Depot.Proofs.Resource.Removal
import Depot.Proofs.Consumer
import Depot.Proofs.Resource.Upload
import Depot.Proofs.SortedMap
import Depot.Proofs.Json
import Depot.Proofs.Catalog.Memory
import Depot.Proofs.Catalog.Table
import Depot.Proofs.Catalog.Order
import Depot.Proofs.Catalog.Agreement
import Depot.Proofs.Consistency
import Depot.Proofs.Header
import Depot.Proofs.Outlet
import Depot.Proofs.Refinement
import Depot.Proofs.Store.Ledger
import Depot.Proofs.Transfer.Watch
import Depot.Proofs.Transfer.Recording
import Depot.Proofs.Transfer.Calls
import Depot.Proofs.Transfer.Protocol
import Depot.Proofs.Transfer.Faultless
import Depot.Proofs.Transfer.Drain
import Depot.Proofs.Transfer.Failures
import Depot.Proofs.Concurrent.Exclusion
import Depot.Proofs.Concurrent.Objects
import Depot.Proofs.Concurrent.Buckets
import Depot.Proofs.Concurrent.Reads
import Depot.Proofs.Storage.Agreement
import Depot.Proofs.Gateway.OperationId
import Depot.Proofs.Resource.Relay
import Depot.Proofs.Transfer.Coding
import Depot.Proofs.Filter
import Depot.Proofs.Store.Backend
import Depot.Proofs.Recovery
import Depot.Proofs.Existence
import Depot.Proofs.Utf8
import Depot.Proofs.Instant.Relaxed
import Depot.Proofs.Record.Reading
import Depot.Proofs.Listing
import Depot.Proofs.Catalog.Reached
import Depot.Proofs.Resource.Listing
import Depot.Proofs.Stream.Chunking
import Depot.Proofs.Stream.Blame
import Depot.Proofs.Storage.Leftover
import Depot.Proofs.Catalog.Replacement
import Depot.Proofs.Record.Block
import Depot.Proofs.Storage.Accounting
import Depot.Proofs.Storage.Confinement
import Depot.Proofs.Listing.Reader
import Depot.Proofs.Channel
import Depot.Proofs.Resource.Address
import Depot.Proofs.Gateway.PathKind
import Depot.Proofs.Base32.Decoding

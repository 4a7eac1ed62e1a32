import GoBuildCache.Client.Archive
import GoBuildCache.Client.ArchiveFormat
import GoBuildCache.Client.ArchiveHeader
import GoBuildCache.Client.ArchiveSafe
import GoBuildCache.Client.Batch
import GoBuildCache.Client.BitReader
import GoBuildCache.Client.BrokerAnswers
import GoBuildCache.Client.BrokerFlights
import GoBuildCache.Client.BrokerLink
import GoBuildCache.Client.BrokerWire
import GoBuildCache.Client.Claims
import GoBuildCache.Client.Delivery
import GoBuildCache.Client.FallbackVerdicts
import GoBuildCache.Client.Generations
import GoBuildCache.Client.HandOff
import GoBuildCache.Client.HaveFilter
import GoBuildCache.Client.IndexLoad
import GoBuildCache.Client.IndexMerge
import GoBuildCache.Client.IndexParse
import GoBuildCache.Client.IndexRoundTrip
import GoBuildCache.Client.KeySets
import GoBuildCache.Client.ManifestFetch
import GoBuildCache.Client.Outage
import GoBuildCache.Client.ParseSafe
import GoBuildCache.Client.PendingFetches
import GoBuildCache.Client.Pkgbits
import GoBuildCache.Client.PkgbitsSafe
import GoBuildCache.Client.PrefetchBudget
import GoBuildCache.Client.PrepPool
import GoBuildCache.Client.Retry
import GoBuildCache.Client.SkipReports
import GoBuildCache.Client.SourceList
import GoBuildCache.Client.Uploads
import GoBuildCache.Client.Verify
import GoBuildCache.Disk.Cache
import GoBuildCache.Disk.EntryFile
import GoBuildCache.Foundation.BitArray
import GoBuildCache.Foundation.BitString
import GoBuildCache.Foundation.Bytes
import GoBuildCache.Foundation.Checked
import GoBuildCache.Foundation.Columns
import GoBuildCache.Foundation.Compaction
import GoBuildCache.Foundation.FiniteMap
import GoBuildCache.Foundation.FrontierSearch
import GoBuildCache.Foundation.Histogram
import GoBuildCache.Foundation.Journal
import GoBuildCache.Foundation.LexicalPath
import GoBuildCache.Foundation.Lz4
import GoBuildCache.Foundation.MergeBack
import GoBuildCache.Foundation.Parties
import GoBuildCache.Foundation.Reader
import GoBuildCache.Foundation.Recency
import GoBuildCache.Foundation.RiceCode
import GoBuildCache.Foundation.SortedList
import GoBuildCache.Foundation.StableSort
import GoBuildCache.Foundation.Table
import GoBuildCache.Foundation.Tally
import GoBuildCache.Foundation.Text
import GoBuildCache.Foundation.Transition
import GoBuildCache.Foundation.Uvarint
import GoBuildCache.Index.EntryList
import GoBuildCache.Index.Nearby
import GoBuildCache.Index.Operations
import GoBuildCache.Index.Queries
import GoBuildCache.Index.Refinement
import GoBuildCache.Index.State
import GoBuildCache.Index.Wire
import GoBuildCache.Index.WireSize
import GoBuildCache.Key
import GoBuildCache.Protocol.Admission
import GoBuildCache.Protocol.Advertise
import GoBuildCache.Protocol.Delta
import GoBuildCache.Protocol.DiskIndex
import GoBuildCache.Protocol.MetaCache
import GoBuildCache.Protocol.Read
import GoBuildCache.Protocol.Rebuild
import GoBuildCache.Protocol.Slots
import GoBuildCache.Protocol.Snapshot
import GoBuildCache.Protocol.StoreFetch
import GoBuildCache.Protocol.Sweep
import GoBuildCache.Protocol.WriteOnce
import GoBuildCache.Store.Accepted
import GoBuildCache.Store.AttrCodec
import GoBuildCache.Store.AttrPressure
import GoBuildCache.Store.Bandwidth
import GoBuildCache.Store.BatchMisses
import GoBuildCache.Store.BatchPut
import GoBuildCache.Store.Codec
import GoBuildCache.Store.Evict
import GoBuildCache.Store.FilesEqual
import GoBuildCache.Store.GuardVerdicts
import GoBuildCache.Store.Layout
import GoBuildCache.Store.LruCache
import GoBuildCache.Store.LruExact
import GoBuildCache.Store.LruLists
import GoBuildCache.Store.ModuleIndex
import GoBuildCache.Store.Objects
import GoBuildCache.Store.ParallelFilter
import GoBuildCache.Store.Paths
import GoBuildCache.Store.Prefetch
import GoBuildCache.Store.Put
import GoBuildCache.Store.PutCalls
import GoBuildCache.Store.ReadAgree
import GoBuildCache.Store.ReadGuard
import GoBuildCache.Store.Serve
import GoBuildCache.Store.StatusRecorder
import GoBuildCache.Store.Storage
import GoBuildCache.Store.Walk

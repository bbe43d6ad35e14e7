import ArtdaqDatabase.AcceptedRecords
import ArtdaqDatabase.AliasHistory
import ArtdaqDatabase.AlignedLanguages
import ArtdaqDatabase.ApiCalls
import ArtdaqDatabase.ArchivedFiles
import ArtdaqDatabase.AtomicEdits
import ArtdaqDatabase.AuditLog
import ArtdaqDatabase.BatchUpdate
import ArtdaqDatabase.BoundedMemory
import ArtdaqDatabase.CivilTime
import ArtdaqDatabase.CollectionArchive
import ArtdaqDatabase.CommentGrammar
import ArtdaqDatabase.CommentScan
import ArtdaqDatabase.CommutingUpdates
import ArtdaqDatabase.CompositionDiff
import ArtdaqDatabase.CompositionOverwrite
import ArtdaqDatabase.CompositionQueries
import ArtdaqDatabase.CompositionRuns
import ArtdaqDatabase.ConcurrentWrites
import ArtdaqDatabase.ConfigurationEdits
import ArtdaqDatabase.DirectoryFiles
import ArtdaqDatabase.DirtyCache
import ArtdaqDatabase.DocumentRewriting
import ArtdaqDatabase.EditCycle
import ArtdaqDatabase.EditEffects
import ArtdaqDatabase.EditOutcomes
import ArtdaqDatabase.EscapedMembers
import ArtdaqDatabase.ExportVerdict
import ArtdaqDatabase.FallingMultimap
import ArtdaqDatabase.FhiclExport
import ArtdaqDatabase.FhiclRoundTrip
import ArtdaqDatabase.FhiclSections
import ArtdaqDatabase.FhiclText
import ArtdaqDatabase.FhiclTree
import ArtdaqDatabase.FileSystemProvider
import ArtdaqDatabase.FiledDocuments
import ArtdaqDatabase.FoundConfigurations
import ArtdaqDatabase.FreshRecords
import ArtdaqDatabase.FrozenDocuments
import ArtdaqDatabase.GlobalConfigurations
import ArtdaqDatabase.GuardedRun
import ArtdaqDatabase.GuiConversion
import ArtdaqDatabase.GuiDocument
import ArtdaqDatabase.GuiExport
import ArtdaqDatabase.GuiRoundTrip
import ArtdaqDatabase.InPlaceUpdate
import ArtdaqDatabase.IncludeDirectives
import ArtdaqDatabase.IncludeReading
import ArtdaqDatabase.IncludeWriting
import ArtdaqDatabase.IndexAtomicity
import ArtdaqDatabase.IndexCoherence
import ArtdaqDatabase.IndexFile
import ArtdaqDatabase.IndexRebuild
import ArtdaqDatabase.IndexTables
import ArtdaqDatabase.InnerJoin
import ArtdaqDatabase.InsertUniqueness
import ArtdaqDatabase.InterleavedStores
import ArtdaqDatabase.InterleavedTasks
import ArtdaqDatabase.InterruptedRemoval
import ArtdaqDatabase.InvertedIndex
import ArtdaqDatabase.JsonAcceptance
import ArtdaqDatabase.JsonComparison
import ArtdaqDatabase.JsonDocument
import ArtdaqDatabase.JsonDocumentBuilder
import ArtdaqDatabase.JsonGrammar
import ArtdaqDatabase.JsonMatching
import ArtdaqDatabase.JsonMutators
import ArtdaqDatabase.JsonNumber
import ArtdaqDatabase.JsonPaths
import ArtdaqDatabase.JsonReader
import ArtdaqDatabase.JsonReading
import ArtdaqDatabase.JsonText
import ArtdaqDatabase.JsonValue
import ArtdaqDatabase.JsonWriter
import ArtdaqDatabase.KeptInvariants
import ArtdaqDatabase.LeftmostSearch
import ArtdaqDatabase.LoadedConfigurations
import ArtdaqDatabase.ManageDocument
import ArtdaqDatabase.ManagementEffects
import ArtdaqDatabase.ManagementFrame
import ArtdaqDatabase.MergedResults
import ArtdaqDatabase.Multitasker
import ArtdaqDatabase.NameFilters
import ArtdaqDatabase.NamedPaths
import ArtdaqDatabase.OperationOptions
import ArtdaqDatabase.OptionsRoundTrip
import ArtdaqDatabase.OrderedChoice
import ArtdaqDatabase.OrderedTable
import ArtdaqDatabase.OverlayRecord
import ArtdaqDatabase.OverlaySections
import ArtdaqDatabase.OverwriteVersion
import ArtdaqDatabase.ParallelOverwrite
import ArtdaqDatabase.PartialViews
import ArtdaqDatabase.PresortedNames
import ArtdaqDatabase.PrintableRecords
import ArtdaqDatabase.PrintedDecimals
import ArtdaqDatabase.PrintedSessions
import ArtdaqDatabase.PropertyTree
import ArtdaqDatabase.RecordComparison
import ArtdaqDatabase.RecordEdits
import ArtdaqDatabase.RecordEquality
import ArtdaqDatabase.RegisteredVersions
import ArtdaqDatabase.RereadDocuments
import ArtdaqDatabase.RtrimLines
import ArtdaqDatabase.SearchIndex
import ArtdaqDatabase.SearchIndexDocument
import ArtdaqDatabase.SearchIndexSearch
import ArtdaqDatabase.SerializationCache
import ArtdaqDatabase.Simulation
import ArtdaqDatabase.SortedUnique
import ArtdaqDatabase.SplitLines
import ArtdaqDatabase.StableSort
import ArtdaqDatabase.StagedCalls
import ArtdaqDatabase.StoredConfigurations
import ArtdaqDatabase.StoredIdentity
import ArtdaqDatabase.StoredIds
import ArtdaqDatabase.TaskSteps
import ArtdaqDatabase.TidyStores
import ArtdaqDatabase.TimeFormat
import ArtdaqDatabase.Timestamps
import ArtdaqDatabase.VersionCalls
import ArtdaqDatabase.VersionRegistry
import ArtdaqDatabase.VersionSelection
import ArtdaqDatabase.WidenedSearch
import ArtdaqDatabase.WrittenData
import ArtdaqDatabase.XmlRoundTrip

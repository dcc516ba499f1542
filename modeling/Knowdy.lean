import Knowdy.Lib.Checked
import Knowdy.Lib.Bytes
import Knowdy.Lib.Effect
import Knowdy.Utils
import Knowdy.Output
import Knowdy.SharedSet
import Knowdy.GspFormat
import Knowdy.SharedSetMarshall
import Knowdy.SharedSetGsp
import Knowdy.SharedSetRoundTrip
import Knowdy.SharedSetCanonical
import Knowdy.SharedSetRandomAccess
import Knowdy.SharedSetSafety
import Knowdy.StringIdx
import Knowdy.StringRuns
import Knowdy.StringSnapshots
import Knowdy.StringRace
import Knowdy.EntryNames
import Knowdy.InstNames
import Knowdy.SharedDict
import Knowdy.Indices
import Knowdy.IndexUpdates
import Knowdy.Registering
import Knowdy.KndSet
import Knowdy.Lib.Linked
import Knowdy.Lib.Runs
import Knowdy.Repo
import Knowdy.Commit
import Knowdy.TaskSelect
import Knowdy.TaskRecords
import Knowdy.Restore
import Knowdy.CommitFrames
import Knowdy.RestoreCollect
import Knowdy.RestoreOrder
import Knowdy.RestoreOnce
import Knowdy.RecordReplays
import Knowdy.InstReplay
import Knowdy.ConfirmAtomic
import Knowdy.TaskImports
import Knowdy.Journals
import Knowdy.LiveTask
import Knowdy.LiveRecords
import Knowdy.Session
import Knowdy.SessionSteps
import Knowdy.SessionRuns
import Knowdy.ClassRegistry
import Knowdy.Shard
import Knowdy.ShardAccess
import Knowdy.ShardRepos
import Knowdy.Lib.Pointers
import Knowdy.WorkerMemory
import Knowdy.WorkerRuns
import Knowdy.Lib.Ancestry
import Knowdy.ClassResolve
import Knowdy.ClassBases
import Knowdy.ClassSteps
import Knowdy.ClassCircles
import Knowdy.ProcResolve
import Knowdy.ClassAncestors
import Knowdy.ClassIndexing
import Knowdy.ClassGraphs
import Knowdy.Mempool
import Knowdy.MempoolRuns
import Knowdy.MempoolRace
import Knowdy.SharedDictRace
import Knowdy.SharedSetRace
import Knowdy.InstLookups
import Knowdy.InstIdxs
import Knowdy.Numbering
import Knowdy.TextIndexing
import Knowdy.UserContexts
import Knowdy.ClassReading
import Knowdy.Lib.Mask
import Knowdy.SetIdx
import Knowdy.SetIntersect
import Knowdy.TaskQueue
import Knowdy.CacheRace
import Knowdy.ClassRefs
import Knowdy.ProcIds
import Knowdy.ProcArgs
import Knowdy.ClassImports
import Knowdy.KndDict
import Knowdy.OutputBuffer
import Knowdy.GlossExports
import Knowdy.ClassMatch
import Knowdy.SetCounts
import Knowdy.SourceIncludes
import Knowdy.JournalSizes
import Knowdy.ClassFacets
import Knowdy.TextSearch
import Knowdy.ClassInstJson
import Knowdy.Lib.Overriding
import Knowdy.AttrResolve
import Knowdy.AttrMerging
import Knowdy.AttrNames
import Knowdy.AttrValues
import Knowdy.Lib.Base64
import Knowdy.Base64Encode
import Knowdy.NumCodecs
import Knowdy.Lib.Braces
import Knowdy.InstGsl
import Knowdy.WalRecords
import Knowdy.Lib.Charges
import Knowdy.SharedSetProgress
import Knowdy.SharedDictProgress
import Knowdy.MempoolProgress
import Knowdy.Lib.FirstCome
import Knowdy.AttrHubs
import Knowdy.LazyLoads
import Knowdy.Lib.Records
import Knowdy.StringCodes
import Knowdy.TextGsp
import Knowdy.AttrVarGsp
import Knowdy.AttrVarReload
import Knowdy.ClassInstGsp
import Knowdy.InstSnapshots

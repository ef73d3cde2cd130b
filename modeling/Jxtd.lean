import Jxtd.Proto.Taskdep.Message
import Jxtd.Lib.Run
import Jxtd.Computation.Infer.Taskmanager
import Jxtd.Lib.Table
import Jxtd.Computation.Infer.Placement
import Jxtd.Computation.Infer.Refinement
import Jxtd.Engug.Ir
import Jxtd.Lib.Extent
import Jxtd.Engug.Transform
import Jxtd.Engug.Writer
import Jxtd.Engug.Layout
import Jxtd.Engug.EdtParser
import Jxtd.Engug.RoundTrip
import Jxtd.Lib.Lease
import Jxtd.Lib.Posix
import Jxtd.Storage.Datamanagement
import Jxtd.Storage.Local
import Jxtd.Storage.Taskdep
import Jxtd.Storage.TaskState
import Jxtd.Storage.EngineArea
import Jxtd.Management.Negotiation
import Jxtd.Proto.Datatransfer.Message
import Jxtd.Storage.Datatrans
import Jxtd.Storage.Fidelity
import Jxtd.Lib.Filesystem
import Jxtd.Computation.Datatransfer.ClientTask
import Jxtd.Computation.Datatransfer.Delivery
import Jxtd.Lib.Iterate
import Jxtd.Management.Deployment
import Jxtd.Computation.Taskdep
import Jxtd.Computation.Cluster
import Jxtd.Computation.Drccp.Message
import Jxtd.Computation.Drccp.Server
import Jxtd.Computation.Drccp.Failover
import Jxtd.Computation.Drccp.Membership
import Jxtd.Computation.Engine
import Jxtd.Computation.Infer.Submission
import Jxtd.Lib.Framing
import Jxtd.Proto.Taskdep.Codec
import Jxtd.Management.Release
import Jxtd.Proto.Datatransfer.Codec
import Jxtd.Proto.Framing
import Jxtd.Router.Cmd
import Jxtd.Router.Agreement
import Jxtd.Computation.Completion
import Jxtd.Computation.Drccp.Submit
import Jxtd.Computation.Infer.TaskDirectory
import Jxtd.Storage.Areas
import Jxtd.Storage.Descriptors
import Jxtd.Lib.PathNames
import Jxtd.Lib.WriteOnce
import Jxtd.Storage.Layout
import Jxtd.Storage.BinaryArea
import Jxtd.Storage.EngineMap
import Jxtd.Storage.AreaMaps
import Jxtd.Storage.NodeRuns
import Jxtd.Storage.Confinement
import Jxtd.Storage.History
import Jxtd.Storage.Residue
import Jxtd.Storage.Transfers
import Jxtd.Computation.Drccp.Traffic
import Jxtd.Computation.Drccp.Counts
import Jxtd.Storage.Fs.Scheduler
import Jxtd.Storage.Fs.SchedulerIndexes
import Jxtd.Storage.Fs.SchedulerCurrent
import Jxtd.Storage.Fs.SchedulerCalls
import Jxtd.Lib.Flex
import Jxtd.Misc.ATParser
import Jxtd.Router.Stream
import Jxtd.Router.Session
import Jxtd.Router.SessionLists
import Jxtd.Lib.Directory
import Jxtd.Router.Change
import Jxtd.Router.Start
import Jxtd.Router.ModelFiles
import Jxtd.Router.UserPaths
import Jxtd.Router.Slot
import Jxtd.Proto.Datasource.Message
import Jxtd.Proto.Onvif.Message
import Jxtd.Computation.Drccp.Ring
import Jxtd.Proto.Magic
import Jxtd.Lib.Utf8
import Jxtd.Management.Datasource
import Jxtd.Engug.EdcParser
import Jxtd.Engug.EdcText
import Jxtd.Lib.Check
import Jxtd.Engug.EdcTyping
import Jxtd.Engug.EdcSections
import Jxtd.Engug.EdcAccepts
import Jxtd.Engug.EdcDocuments
import Jxtd.Engug.EdtFormat
import Jxtd.Engug.EdtMirror
import Jxtd.Engug.EdtStrings
import Jxtd.Engug.SectionSize
import Jxtd.Engug.Extents
import Jxtd.Proto.Taskdep.RoundTrip
import Jxtd.Proto.History
import Jxtd.Computation.Drccp.MessageLaws
import Jxtd.Proto.Datatransfer.Payload
import Jxtd.Proto.Datasource.Metadata
import Jxtd.Proto.Onvif.Positions
import Jxtd.Nvr.Onvif.Server
import Jxtd.Storage.Sizes
import Jxtd.Storage.Fs.Rmdir
import Jxtd.Computation.Drccp.Shares
import Jxtd.Computation.Infer.Payload
import Jxtd.Misc.ATActions
import Jxtd.Misc.ATExact
import Jxtd.Lib.Strings
import Jxtd.Router.Endpoint
import Jxtd.Router.Trans
import Jxtd.Router.Handlers
import Jxtd.Router.Answers
import Jxtd.Lib.CInt
import Jxtd.Lib.Joined
import Jxtd.Lib.Regexp
import Jxtd.Misc.Flags.Address
import Jxtd.Lib.Image
import Jxtd.Misc.Cv.Rotate
import Jxtd.Misc.Cv.Reshape
import Jxtd.Lib.Tuples
import Jxtd.Misc.Cv.Normalize
import Jxtd.Misc.Cv.Compose
import Jxtd.Misc.Crypto.AsymmeticChiper
import Jxtd.Misc.Crypto.AsymmeticRoundTrip
import Jxtd.Misc.Crypto.SymmeticChiper
import Jxtd.Dadga.Adapter
import Jxtd.Lib.Progress
import Jxtd.Computation.Drccp.Closed
import Jxtd.Computation.Drccp.Answered
import Jxtd.Lib.Choice
import Jxtd.Computation.Drccp.Rerouting
import Jxtd.Computation.EngineLibraries
import Jxtd.Lib.StdFile
import Jxtd.Dadga.Files
import Jxtd.Dadga.Store
import Jxtd.Lib.Sockets
import Jxtd.Router.Loop
import Jxtd.Storage.Program
import Jxtd.Computation.Program
import Jxtd.Management.Retention
import Jxtd.Computation.Infer.Pipeline
import Jxtd.Misc.Crypto.RandomGenerator
import Jxtd.Lib.Objects
import Jxtd.Management.Inferprovider
import Jxtd.Lib.Defaults
import Jxtd.Misc.Flags.Parse
import Jxtd.Lib.Window
import Jxtd.Misc.Cv.Rectangle

import EventfoldEs.Lib.Run
import EventfoldEs.Lib.Progress
import EventfoldEs.Lib.Future
import EventfoldEs.Lib.Replay
import EventfoldEs.Lib.Separated
import EventfoldEs.Lib.LexicalPath
import EventfoldEs.Lib.NamedFiles
import EventfoldEs.Lib.FairMutex
import EventfoldEs.Lib.LockDiscipline
import EventfoldEs.Lib.Guarded
import EventfoldEs.Lib.Custody
import EventfoldEs.Lib.OrderedLog
import EventfoldEs.Proto
import EventfoldEs.Event
import EventfoldEs.Server
import EventfoldEs.EventCodec
import EventfoldEs.StoredCodec
import EventfoldEs.Actor
import EventfoldEs.ActorPrefix
import EventfoldEs.ActorSafety
import EventfoldEs.ActorWorld
import EventfoldEs.ActorRuns
import EventfoldEs.ActorRestart
import EventfoldEs.StreamIsolation
import EventfoldEs.StoreCalls
import EventfoldEs.Handles
import EventfoldEs.ActorCache
import EventfoldEs.HandleAnswers
import EventfoldEs.HandleTraces
import EventfoldEs.HandleProgress
import EventfoldEs.Dispatching
import EventfoldEs.SnapshotPath
import EventfoldEs.SnapshotRaces
import EventfoldEs.Runner
import EventfoldEs.Live
import EventfoldEs.LiveWorld
import EventfoldEs.LiveSteps
import EventfoldEs.LiveSafety
import EventfoldEs.LiveFold
import EventfoldEs.LiveEnvelopes
import EventfoldEs.LiveDispatch
import EventfoldEs.PullPasses
import EventfoldEs.LoneRuns
import EventfoldEs.CatchUp
import EventfoldEs.LivePull
import EventfoldEs.LiveHistory
import EventfoldEs.LiveAnnounce
import EventfoldEs.LivePositions
import EventfoldEs.LiveCaughtUp
import EventfoldEs.LiveDiscipline
import EventfoldEs.LiveLocks
import EventfoldEs.ContextMetadata
import EventfoldEs.Lib.Lines
import EventfoldEs.DeadLetterLog
import EventfoldEs.Conflicts
import EventfoldEs.PassAccounts
import EventfoldEs.LivePacing
import EventfoldEs.LiveShutdown
import EventfoldEs.LiveReceivers
import EventfoldEs.GlobalLog
import EventfoldEs.Lib.Decider
import EventfoldEs.ActorSerial
import EventfoldEs.ActorSerialWorld
import EventfoldEs.ActorRefinement
import EventfoldEs.ViewsAgree
import EventfoldEs.LiveStopping
import EventfoldEs.LiveExclusion
import EventfoldEs.LiveReads
import EventfoldEs.LiveOnce
import EventfoldEs.ReadYourWrites
import EventfoldEs.CheckpointFiles
import EventfoldEs.FileWorld

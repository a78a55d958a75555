import Orkworksd.Lib.Run
import Orkworksd.Lib.Crash
import Orkworksd.Lib.TextMap
import Orkworksd.Taskmaster.TransactionRecovery
import Orkworksd.Taskmaster.GraphTransaction
import Orkworksd.Taskmaster.RefreshPacket
import Orkworksd.Taskmaster.EvaluateOutcome
import Orkworksd.Taskmaster.RollupApplied
import Orkworksd.Taskmaster.ActiveCard
import Orkworksd.Taskmaster.AuditAgreement
import Orkworksd.Runtime.PromptAuthority
import Orkworksd.Runtime.PromptResetRetry
import Orkworksd.Runtime.CodexApprovalIdentity
import Orkworksd.Runtime.CodexCompletionClear
import Orkworksd.Runtime.HookReportTurns
import Orkworksd.Runtime.TerminalSizePersist
import Orkworksd.Runtime.TerminalReplayCheckpoint
import Orkworksd.Runtime.InitialPrompt
import Orkworksd.Workspace.UpdatesSync
import Orkworksd.Workspace.SwitchCoordinatorRuntimes
import Orkworksd.Metadata.AttentionTokens
import Orkworksd.Metadata.TerminalHistory
import Orkworksd.Taskmaster.ApprovalProtocol
import Orkworksd.Taskmaster.DeletionJournalRecovery
import Orkworksd.Taskmaster.SqlCodec
import Orkworksd.Observations.Payload
import Orkworksd.Observations.Sequence
import Orkworksd.Observations.SpamTrim
import Orkworksd.SessionStore.WorkerCounters
import Orkworksd.SessionStore.WorkerWaiting
import Orkworksd.SessionStore.Tombstones
import Orkworksd.Taskmaster.CoordinatorDigests
import Orkworksd.Taskmaster.CoordinatorGraph
import Orkworksd.Taskmaster.CoordinatorLifecycle
import Orkworksd.Taskmaster.DeletionClosure
import Orkworksd.Taskmaster.RollupSnapshots
import Orkworksd.Taskmaster.Enrichment
import Orkworksd.SessionStore.HistorySnapshot
import Orkworksd.Runtime.CodexTerminalStatus
import Orkworksd.Runtime.OutputDecoding
import Orkworksd.Runtime.WorkSignal
import Orkworksd.Peon.UsageTrim
import Orkworksd.Peon.CapacityAnalysis
import Orkworksd.Observations.ProblemArea
import Orkworksd.Taskmaster.AuditExact
import Orkworksd.Taskmaster.RollupReference
import Orkworksd.Peon.HardWrap
import Orkworksd.Peon.ExtractJson
import Orkworksd.Desktop.StrictJsonAccepts
import Orkworksd.Metadata.PeonRepeat
import Orkworksd.GitChanges.LargeFile
import Orkworksd.Peon.CapacityRecheck
import Orkworksd.Runtime.Retention
import Orkworksd.Desktop.WorkspaceHistory

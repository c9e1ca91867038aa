import Ezer.HunkTracker.HunkPatch
import Ezer.HunkTracker.Identity
import Ezer.HunkTracker.SeenContent
import Ezer.HunkTracker.TurnIndex
import Ezer.HunkTracker.ActionErrors
import Ezer.HunkTracker.LocTotals
import Ezer.Workflow.Reservations
import Ezer.MessageDelivery.Conservation
import Ezer.Breaker.Probes
import Ezer.ApplyPatch.Sections
import Ezer.Hashline.Rejections
import Ezer.Permission.Dangerous
import Ezer.Permission.MoreGrants
import Ezer.Permission.ScopePicker
import Ezer.Permission.DenyUrl
import Ezer.Permission.AllowedCommands
import Ezer.ChatState.Pruning
import Ezer.Workflow.JournalRestore
import Ezer.Compaction.Fit
import Ezer.Compaction.Rounds
import Ezer.Sampling.MessagesValid
import Ezer.Sampling.BlockContents
import Ezer.Sampling.MessagesAgree
import Ezer.Sampling.RequestRuns
import Ezer.Scheduler.JournalRecovery
import Ezer.Scheduler.Intervals
import Ezer.Scheduler.Chains
import Ezer.Textarea.Integrity
import Ezer.Textarea.WrapRows
import Ezer.Transcript.ForkCut
import Ezer.Transcript.PromptIndex
import Ezer.Permission.PathForms
import Ezer.ApplyPatch.KeptLines
import Ezer.Hashline.Terminators
import Ezer.SearchReplace.Fallback
import Ezer.SearchReplace.EditLines
import Ezer.ChatState.RewindTwice
import Ezer.ChatState.Evictions
import Ezer.ChatState.FitBudget
import Ezer.ChatState.Summary
import Ezer.ChatState.UserQuery
import Ezer.Monitor.RateLimiter
import Ezer.Sampling.Backoff
import Ezer.PagerDiff.StitchTruthful
import Ezer.Transcript.EventSeq
import Ezer.Transcript.ReplayGate
import Ezer.Transcript.ForkCopy
import Ezer.Markdown.HeldBack
import Ezer.ChatRebuild.Contents
import Ezer.Coordinator.ActiveMessages
import Ezer.Workflow.RequestHash

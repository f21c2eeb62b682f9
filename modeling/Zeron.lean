import Zeron.Backup.Rooms
import Zeron.Chat.Checkpoints
import Zeron.Chat.CursorHonesty
import Zeron.Chat.Download
import Zeron.Chat.Frames
import Zeron.Chat.ResetSignal
import Zeron.Chat.Updates
import Zeron.Chat.Viewer
import Zeron.Commands.Stops
import Zeron.Files.Bursts
import Zeron.Files.Contained
import Zeron.Files.Text
import Zeron.Mailbox.RoundTrip
import Zeron.Mcp.Auth
import Zeron.Nudges.Kept
import Zeron.Orchestration.EffectBudget
import Zeron.Orchestration.EffectDispatch
import Zeron.Orchestration.ProviderHistory
import Zeron.Orchestration.Startup
import Zeron.PullRequests.Chains
import Zeron.PullRequests.History
import Zeron.Queue.Kept
import Zeron.Queue.Rows
import Zeron.Registry.AckVisibility
import Zeron.Registry.Cursor
import Zeron.Registry.DeltaSync
import Zeron.Registry.OwnWrites
import Zeron.Registry.Phone.Refinement
import Zeron.Registry.Purge
import Zeron.Registry.Reseed
import Zeron.Restore.Kept
import Zeron.Rpc.DeviceFrame
import Zeron.Scheduling.FixedTime
import Zeron.Sessions.Bytes
import Zeron.Sessions.Directory
import Zeron.Sessions.Observation
import Zeron.Stop.Retries
import Zeron.Threads.Paged
import Zeron.Threads.QueueSync
import Zeron.Threads.Queueing
import Zeron.Threads.Recovery
import Zeron.Threads.Transcript
import Zeron.Threads.Waiting
import Zeron.Transcript.Joins
import Zeron.Transcript.RoundTrip
import Zeron.Transcript.SegmentWriter
import Zeron.Transfer.Selection
import Zeron.Uploads.Commit
import Zeron.Workspace.Laws
import Zeron.Workspace.Reload

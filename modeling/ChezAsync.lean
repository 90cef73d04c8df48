import ChezAsync.Runtime.Submit
import ChezAsync.Runtime.Restarts
import ChezAsync.Runtime.QueueRefs
import ChezAsync.Runtime.QueueDelivery
import ChezAsync.Runtime.Handoff
import ChezAsync.Runtime.Process
import ChezAsync.Runtime.Accept
import ChezAsync.Runtime.AcceptMatching
import ChezAsync.Runtime.Stream
import ChezAsync.Runtime.ReadIsolation
import ChezAsync.Runtime.Watch
import ChezAsync.Runtime.OneShot
import ChezAsync.Runtime.Streams
import ChezAsync.Runtime.Shutdown
import ChezAsync.Runtime.Handles
import ChezAsync.Runtime.AnswersRest
import ChezAsync.Runtime.Pinning
import ChezAsync.HighLevel.RunOutput
import ChezAsync.HighLevel.CapturedOutput
import ChezAsync.HighLevel.StreamToEof
import ChezAsync.HighLevel.NoFiberLost
import ChezAsync.HighLevel.Determinism
import ChezAsync.HighLevel.RunAsync
import ChezAsync.HighLevel.ManyAwaits
import ChezAsync.HighLevel.Modes
import ChezAsync.HighLevel.FiberIsolation
import ChezAsync.HighLevel.ResumeOrder
import ChezAsync.HighLevel.SerialElision
import ChezAsync.HighLevel.Fairness
import ChezAsync.HighLevel.OverRuntime
import ChezAsync.HighLevel.HandleReuse
import ChezAsync.HighLevel.Spawn
import ChezAsync.HighLevel.ZeroCopy
import ChezAsync.HighLevel.WholeFile
import ChezAsync.HighLevel.TaskLife
import ChezAsync.Runtime.StaleHandles
import ChezAsync.Runtime.Epochs
import ChezAsync.HighLevel.ExitCode
import ChezAsync.HighLevel.Connect
import ChezAsync.HighLevel.CallbackToCaller
import ChezAsync.HighLevel.Pipe
import ChezAsync.HighLevel.ByteCopy
import ChezAsync.HighLevel.Chunks
import ChezAsync.HighLevel.ForeignBlocks

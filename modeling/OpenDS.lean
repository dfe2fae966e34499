import OpenDS.Aisio.AsyncRead
import OpenDS.Aisio.ReadAlignment
import OpenDS.Aisio.RestrictedReads
import OpenDS.Aisio.HandleStore
import OpenDS.Common.SingleWrite
import OpenDS.Common.SharedBlockWrites
import OpenDS.Common.FailingWrite
import OpenDS.Common.EdgeReads
import OpenDS.Common.BlockRounding
import OpenDS.Common.AppendWrites
import OpenDS.Ref.SyncStore
import OpenDS.Engine.CloseDrains
import OpenDS.Engine.RejectedSubmits
import OpenDS.Engine.GateOrder
import OpenDS.Engine.Rounds
import OpenDS.Engine.ClaimRoom
import OpenDS.DataPath.Independence
import OpenDS.Batch.Accounting
import OpenDS.Batch.Waiting
import OpenDS.Driver.StreamRuns
import OpenDS.Driver.StreamLookup
import OpenDS.Driver.Session
import OpenDS.Driver.EnvConfig
import OpenDS.Python.SignalHandOn
import OpenDS.Python.ConcurrentPins
import OpenDS.Python.HandlerChain
import OpenDS.Python.HostBuffers
import OpenDS.Python.FailedInit
import OpenDS.Python.DefaultedReads
import OpenDS.Python.RegistryExtents
import OpenDS.Aisio.MiddleChunks
import OpenDS.Aisio.BounceSlots
import OpenDS.Aisio.NegativeOffsets
import OpenDS.DataPath.StreamAgreement

import SqlalchemyCollectd.Protocol.RoundTrip
import SqlalchemyCollectd.Protocol.WellFormed
import SqlalchemyCollectd.Protocol.Locality
import SqlalchemyCollectd.Protocol.Algebra
import SqlalchemyCollectd.Stream.History
import SqlalchemyCollectd.Server.Isolation
import SqlalchemyCollectd.Server.Numprocs
import SqlalchemyCollectd.Server.Identity
import SqlalchemyCollectd.Server.Fields
import SqlalchemyCollectd.Server.Interruption
import SqlalchemyCollectd.Server.Accounting
import SqlalchemyCollectd.Client.Schedule
import SqlalchemyCollectd.Client.Lifecycle
import SqlalchemyCollectd.Client.Separation
import SqlalchemyCollectd.Client.Fork
import SqlalchemyCollectd.Connmon.Totals
import SqlalchemyCollectd.Connmon.View
import SqlalchemyCollectd.Connmon.Maxima
import SqlalchemyCollectd.Connmon.Failures
import SqlalchemyCollectd.Connmon.Network
import SqlalchemyCollectd.Connmon.Frames
import SqlalchemyCollectd.Connmon.Screens
import SqlalchemyCollectd.Connmon.Endurance
import SqlalchemyCollectd.Client.Script

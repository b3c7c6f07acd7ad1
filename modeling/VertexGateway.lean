import VertexGateway.Thought.FullTurn
import VertexGateway.Thought.ReceivedText
import VertexGateway.Thought.ConservativeId
import VertexGateway.Thought.EscapeGrammar
import VertexGateway.Protocols.OpenAi
import VertexGateway.Forward.AbnormalEnd
import VertexGateway.Forward.CompletedStream
import VertexGateway.Forward.RunawayLine
import VertexGateway.Forward.Terminator
import VertexGateway.Forward.UsageAgreement
import VertexGateway.Forward.Backpressure
import VertexGateway.Forward.Agreement
import VertexGateway.Protocols.Conversation
import VertexGateway.Thought.Coalescing
import VertexGateway.Routes.Server
import VertexGateway.Thought.CutOffId

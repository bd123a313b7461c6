import Vuvuzela.Support.Effects
import Vuvuzela.Support.Relational
import Vuvuzela.Support.Swaps
import Vuvuzela.Support.Firsts
import Vuvuzela.Support.Tally
import Vuvuzela.Support.Keyed
import Vuvuzela.Support.Shares
import Vuvuzela.Support.System
import Vuvuzela.Support.Monitor
import Vuvuzela.Support.Programs
import Vuvuzela.Support.Coupling
import Vuvuzela.Support.Draws
import Vuvuzela.Support.Sources
import Vuvuzela.Source.Bytes
import Vuvuzela.Source.Box
import Vuvuzela.Source.Wire
import Vuvuzela.Source.Pki
import Vuvuzela.Source.Shuffle
import Vuvuzela.Source.Span
import Vuvuzela.Source.Noise
import Vuvuzela.Source.Server
import Vuvuzela.Source.Convo
import Vuvuzela.Source.Dial
import Vuvuzela.Source.Vrpc
import Vuvuzela.Source.CallMany
import Vuvuzela.Source.Chain
import Vuvuzela.Source.Conversation
import Vuvuzela.Source.Client
import Vuvuzela.Source.Dialer
import Vuvuzela.Source.Entry
import Vuvuzela.Source.Api
import Vuvuzela.Source.Main
import Vuvuzela.Source.Responses
import Vuvuzela.Source.ParallelFor
import Vuvuzela.Source.Rand
import Vuvuzela.Source.Pipeline
import Vuvuzela.Shuffle.Permutations
import Vuvuzela.Shuffle.Uniform
import Vuvuzela.Shuffle.Drawn
import Vuvuzela.Internal.Spans
import Vuvuzela.Internal.ParallelFor
import Vuvuzela.Rand.Stream
import Vuvuzela.Wire.Layout
import Vuvuzela.Vrpc.CallMany
import Vuvuzela.Chain.Deployment
import Vuvuzela.Chain.Sample
import Vuvuzela.Chain.Layers
import Vuvuzela.Chain.Roles
import Vuvuzela.Convo.Handlers
import Vuvuzela.Convo.Local
import Vuvuzela.Convo.Round
import Vuvuzela.Convo.Hop
import Vuvuzela.Convo.Mix
import Vuvuzela.Convo.DeadDrops
import Vuvuzela.Convo.Batch
import Vuvuzela.Convo.Exchange
import Vuvuzela.Convo.Accounting
import Vuvuzela.Convo.Bounds
import Vuvuzela.Convo.Adds
import Vuvuzela.Convo.Transfer
import Vuvuzela.Dial.Handlers
import Vuvuzela.Dial.Hop
import Vuvuzela.Dial.Delivery
import Vuvuzela.Dial.Introductions
import Vuvuzela.Server.Calls
import Vuvuzela.Server.Idle
import Vuvuzela.Server.Rounds
import Vuvuzela.Server.Isolation
import Vuvuzela.Convo.Forwarded
import Vuvuzela.Convo.Failures
import Vuvuzela.Dial.Forwarded
import Vuvuzela.Client.Steps
import Vuvuzela.Client.Messages
import Vuvuzela.Client.Nonces
import Vuvuzela.Client.Delivery
import Vuvuzela.Client.Authentic
import Vuvuzela.Client.Shown
import Vuvuzela.Client.Peers
import Vuvuzela.Client.Crashes
import Vuvuzela.Client.Tables
import Vuvuzela.Chain.Sizes
import Vuvuzela.Convo.Replies
import Vuvuzela.Convo.Arguments
import Vuvuzela.Convo.Replay
import Vuvuzela.Entry.Steps
import Vuvuzela.Entry.Batches
import Vuvuzela.Entry.Envelopes
import Vuvuzela.Entry.Connections
import Vuvuzela.Entry.Registry
import Vuvuzela.Entry.Announcements
import Vuvuzela.Entry.Answers
import Vuvuzela.Chain.Steps
import Vuvuzela.Chain.Pipeline
import Vuvuzela.Convo.Meeting
import Vuvuzela.Client.Talk
import Vuvuzela.Source.Gui
import Vuvuzela.Client.Gui
import Vuvuzela.Client.Texts
import Vuvuzela.Client.Traffic
import Vuvuzela.Client.Whole
import Vuvuzela.Shuffle.Mixing
import Vuvuzela.Convo.Mixing
import Vuvuzela.Dial.Mixing
import Vuvuzela.Source.Loops
import Vuvuzela.Internal.Loops

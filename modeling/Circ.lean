import Circ.Accepting
import Circ.BlockingFraming
import Circ.ChannelCounter
import Circ.ChannelHistory
import Circ.ChannelMemory
import Circ.ChannelNames
import Circ.ChannelTable
import Circ.ChatHistory
import Circ.ClientIds
import Circ.ClientLines
import Circ.CommaLists
import Circ.CommandRuns
import Circ.Configuration
import Circ.Crashes
import Circ.Delivery
import Circ.Draining
import Circ.Epoll
import Circ.EventLoop
import Circ.FanOut
import Circ.Framing
import Circ.HashCapacity
import Circ.HashLookups
import Circ.HashOwnership
import Circ.HashStacks
import Circ.Inboxes
import Circ.Isolation
import Circ.JoinPaths
import Circ.Listing
import Circ.Motd
import Circ.NamesReply
import Circ.NickAddress
import Circ.NickBound
import Circ.Overlong
import Circ.Parameters
import Circ.Parting
import Circ.QueueFlow
import Circ.Relaying
import Circ.Returning
import Circ.Serving
import Circ.SignUp
import Circ.StoreBounds
import Circ.Topics
import Circ.TrailingSpaces
import Circ.WellFormed

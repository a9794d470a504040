import EventBus.ForStd.Lts
import EventBus.ForStd.Bounded
import EventBus.ForStd.Scan
import EventBus.ForStd.Chan
import EventBus.ForStd.List
import EventBus.ForStd.Counts
import EventBus.ForStd.Window
import EventBus.ForStd.Codec
import EventBus.ForStd.BoundedQueue
import EventBus.Native.Broker
import EventBus.Native.Frame
import EventBus.Native.Messages
import EventBus.Native.Server
import EventBus.Native.Client
import EventBus.Native.Process
import EventBus.Native.Session
import EventBus.Native.Line
import EventBus.Native.Wire
import EventBus.Native.ConnectionManager
import EventBus.Spec.FrameCorrect
import EventBus.Spec.MessagesCorrect
import EventBus.Spec.BrokerStep
import EventBus.Spec.BrokerRegistry
import EventBus.Spec.BrokerLog
import EventBus.Spec.BrokerFanOut
import EventBus.Spec.BrokerState
import EventBus.Spec.BrokerOrder
import EventBus.Spec.BrokerDedup
import EventBus.Spec.BrokerMembership
import EventBus.Spec.BrokerMemory
import EventBus.Spec.BrokerChannel
import EventBus.Spec.BrokerEnqueue
import EventBus.Spec.BrokerClose
import EventBus.Spec.BrokerCache
import EventBus.Spec.BrokerSequential
import EventBus.Spec.BrokerIsolation
import EventBus.Spec.BrokerProgress
import EventBus.Spec.ConnectionStep
import EventBus.Spec.ServerStep
import EventBus.Spec.BrokerCalls
import EventBus.Spec.BrokerShutdown
import EventBus.Spec.ServerOwnership
import EventBus.Spec.ServerCalls
import EventBus.Spec.ServerConsumers
import EventBus.Spec.ServerDrain
import EventBus.Spec.ServerDelivery
import EventBus.Spec.ServerFrames
import EventBus.Spec.ServerCredit
import EventBus.Spec.ServerPublish
import EventBus.Spec.ServerPipeline
import EventBus.Spec.ClientStep
import EventBus.Spec.ClientDelivery
import EventBus.Spec.ClientMemory
import EventBus.Spec.ClientRequests
import EventBus.Spec.ClientReader
import EventBus.Spec.ServerShutdown
import EventBus.Spec.ServerQuiet
import EventBus.Spec.ServerOutcome
import EventBus.Spec.ServerTeardown
import EventBus.Spec.ServerCopies
import EventBus.Spec.ServerOrderly
import EventBus.Spec.SessionStep
import EventBus.Spec.SessionDelivery
import EventBus.Spec.ClientPublish
import EventBus.Spec.SessionPublish
import EventBus.Spec.SessionPayload
import EventBus.Spec.SessionFilter
import EventBus.Spec.SessionReply
import EventBus.Spec.SessionShutdown
import EventBus.Spec.ManagerStep
import EventBus.Spec.ManagerClients
import EventBus.Spec.ManagerConnect
import EventBus.Spec.ClientChannels
import EventBus.Spec.ManagerWatch
import EventBus.Spec.ClientSubscribe
import EventBus.Spec.ManagerTopics
import EventBus.Spec.WireStep
import EventBus.Spec.WireRequests
import EventBus.Spec.WireProgress
import EventBus.Spec.ServerReturn
import EventBus.Spec.ServerDiscard
import EventBus.Spec.ServerDialogue
import EventBus.Spec.ProcessStep
import EventBus.Spec.ProcessShutdown
import EventBus.Spec.LineCorrect

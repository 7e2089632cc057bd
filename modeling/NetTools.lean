import NetTools.Schedule
import NetTools.Monitors
import NetTools.WorkerPool
import NetTools.CText
import NetTools.CArray
import NetTools.OrderedSet
import NetTools.OrderedMap
import NetTools.Ledger
import NetTools.Segmentation
import NetTools.SliceWrites
import NetTools.LinkedHeap
import NetTools.TextSearch
import NetTools.IRCServer
import NetTools.IRCSteps
import NetTools.IRCRegistry
import NetTools.IRCWaitLock
import NetTools.IRCWaitingPorts
import NetTools.IRCWaitingSet
import NetTools.IRCBounds
import NetTools.IRCLiveSessions
import NetTools.IRCClientIds
import NetTools.IRCHandouts
import NetTools.IRCHistory
import NetTools.IRCLockDiscipline
import NetTools.IRCClient
import NetTools.IRCConnectable
import NetTools.IRCFraming
import NetTools.IRCChatProcess
import NetTools.IRCOneConversation
import NetTools.IRCModeResources
import NetTools.IRCTalk
import NetTools.IRCTalkFidelity
import NetTools.IRCSystem
import NetTools.IRCInFlight
import NetTools.IRCAgreement
import NetTools.IRCModes
import NetTools.IRCServed
import NetTools.IRCModeAgreement
import NetTools.ChunkPlan
import NetTools.PlannerSafety
import NetTools.ServerFile
import NetTools.HTTPSClient
import NetTools.HTTPSEnforcement
import NetTools.HTTPSUrl
import NetTools.HTTPMessage
import NetTools.HTTPSRequest
import NetTools.HTTPSHeaders
import NetTools.TFTPMessages
import NetTools.TFTPCodec
import NetTools.FTPServer
import NetTools.FTPSurvival
import NetTools.TFTPServer
import NetTools.TFTPAckStore
import NetTools.TFTPWakeups
import NetTools.TFTPProcess
import NetTools.TFTPClient
import NetTools.TFTPReceiver
import NetTools.TFTPReordering
import NetTools.StopAndWait
import NetTools.TFTPNetwork
import NetTools.TFTPSessions
import NetTools.TFTPTransfer
import NetTools.TFTPAckQueue
import NetTools.TFTPRecovery
import NetTools.TFTPCompletion
import NetTools.ChunkAssembly
import NetTools.FTPDelivery
import NetTools.TFTPDelivery
import NetTools.TFTPPackets
import NetTools.TFTPCopies
import NetTools.TFTPLoopBound
import NetTools.FTPMessages
import NetTools.FTPTransfer
import NetTools.FTPSendLoop
import NetTools.ThreadStatus
import NetTools.ErrorReplies
import NetTools.CheckExchange
import NetTools.RangeCheck
import NetTools.RequestFields
import NetTools.AllOrNothing
import NetTools.ChatList
import NetTools.ChatListSteps
import NetTools.ChatListHistory
import NetTools.ChatListLock
import NetTools.ChatConnect
import NetTools.ChatConnectOnce
import NetTools.ChatConnectApart
import NetTools.ChatLifecycle
import NetTools.MyWeb
import NetTools.MyWebBody
import NetTools.FTPDescriptors
import NetTools.DownloadContents
import NetTools.ClientProcess
import NetTools.TFTPClientProcess
import NetTools.FTPClientProcess
import NetTools.FTPNetwork
import NetTools.FTPDownload
import NetTools.TFTPDownload
import NetTools.TFTPExhaustion
import NetTools.Custody
import NetTools.HTTPSResources
import NetTools.HTTPSRun
import NetTools.Tokens
import NetTools.MyWebUrl
import NetTools.MyWebHead
import NetTools.MyWebSimple
import NetTools.ChatServer
import NetTools.NetworkOrder
import NetTools.TCPTransfer

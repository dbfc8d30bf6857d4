import Derphole.Lib.Slice
import Derphole.Lib.Run
import Derphole.Lib.Ledger
import Derphole.Lib.PairRadix
import Derphole.Lib.DropOldest
import Derphole.Lib.File
import Derphole.Lib.Program
import Derphole.Lib.Filepath
import Derphole.Lib.FileTree
import Derphole.Lib.FileSystem
import Derphole.Receive
import Derphole.Lib.Map
import Derphole.Lib.Xor
import Derphole.Lib.Pieces
import Derphole.Probe.SeqSet
import Derphole.Lib.Object
import Derphole.Probe.SeqSetExact
import Derphole.Probe.Packet
import Derphole.Probe.Fec
import Derphole.Probe.ReceiveRun
import Derphole.Probe.GlobalReceive
import Derphole.Probe.GlobalFrame
import Derphole.Probe.StripedReceive
import Derphole.Probe.StripedSound
import Derphole.Probe.StreamReplay
import Derphole.Probe.StripedBuffers
import Derphole.Probe.StripedPaths
import Derphole.Probe.StripedMonotone
import Derphole.Probe.StripedSpool
import Derphole.Probe.FecGroup
import Derphole.Probe.StripedAck
import Derphole.Probe.RepairHistory
import Derphole.Probe.RepairFidelity
import Derphole.Probe.SendBlast
import Derphole.Probe.BlastTranscript
import Derphole.Probe.FecRecovery
import Derphole.Probe.FecExact
import Derphole.Probe.FecShortRead
import Derphole.WebRelay.Window
import Derphole.Lib.InPlace
import Derphole.WebRelay.WindowExact
import Derphole.WebRelay.Transfer
import Derphole.WebRelay.Steps
import Derphole.WebRelay.Integrity
import Derphole.Derptun.Mux
import Derphole.Derptun.MuxDelivery
import Derphole.Derptun.MuxOpen
import Derphole.Derptun.MuxEnd
import Derphole.Probe.OrderedReceive
import Derphole.Probe.PlainReceive
import Derphole.Probe.ConnReceive
import Derphole.Probe.ConnOrdered
import Derphole.Probe.PlainExact
import Derphole.Probe.FecSettled
import Derphole.Probe.Announce
import Derphole.Probe.AckFloor
import Derphole.Probe.BlastRate
import Derphole.Probe.LossRatio
import Derphole.Lib.TableCipher
import Derphole.Lib.BigEndian
import Derphole.Probe.Nonce
import Derphole.Probe.Seal
import Derphole.Probe.SealUnique
import Derphole.Probe.Inject
import Derphole.Session.StripedFrame
import Derphole.Session.StripedCopy
import Derphole.Session.StripedExact
import Derphole.Lib.Bitmap
import Derphole.Probe.SelectiveAck
import Derphole.Probe.ArqLane
import Derphole.Probe.ArqTransfer
import Derphole.Probe.StripedArq
import Derphole.Derpbind.Subscriber
import Derphole.Lib.Text
import Derphole.Derptun.Token
import Derphole.Derptun.Invite
import Derphole.Lib.NetAddr
import Derphole.Lib.AddrText
import Derphole.Transport.PathState
import Derphole.Lib.Weighing
import Derphole.Transport.DirectOrder
import Derphole.Transport.Disco
import Derphole.Transport.PeerQueue
import Derphole.Transport.Discovery
import Derphole.Derptun.MuxFrame
import Derphole.Derptun.MuxIds
import Derphole.Probe.ReplayMemory
import Derphole.Session.Spool
import Derphole.Session.Handoff
import Derphole.Session.HandoffSteps
import Derphole.Session.HandoffAgree
import Derphole.Session.HandoffFinish
import Derphole.Session.HandoffReceive
import Derphole.Session.PrefixWire
import Derphole.Rendezvous.Gate
import Derphole.Session.ControlAuth
import Derphole.Session.DerptunServe
import Derphole.Session.DirectAgree
import Derphole.Session.DirectPrepare
import Derphole.WebRelay.DirectReady
import Derphole.WebRelay.Completion
import Derphole.WebRelay.Reorder
import Derphole.WebRelay.DirectQueue
import Derphole.Lib.Cyclic
import Derphole.Probe.RunSeqs
import Derphole.Probe.RepairScan
import Derphole.Probe.AckExact
import Derphole.Probe.ReplayPressure
import Derphole.Lib.BlockCyclic
import Derphole.Probe.StripeGeometry
import Derphole.Probe.SpoolReceive
import Derphole.Probe.SpoolExact
import Derphole.Lib.Codec
import Derphole.Lib.Base64
import Derphole.Token.SessionToken
import Derphole.Token.TokenExact
import Derphole.Probe.WireCodec
import Derphole.Lib.Tar
import Derphole.Lib.Json
import Derphole.Send.Tar
import Derphole.Send.Transfer
import Derphole.Send.RoundTrip
import Derphole.Session.HandoffFrame
import Derphole.Lib.Tiling
import Derphole.Lib.InsertionSort
import Derphole.Session.Heartbeat
import Derphole.Session.SectionLayout
import Derphole.Session.CandidateOrder
import Derphole.Session.LaneAddrs
import Derphole.Lib.AddrPrint
import Derphole.Lib.Distinct
import Derphole.Candidate.Policy
import Derphole.Rendezvous.Messages
import Derphole.Session.ShareClaims
import Derphole.Session.PathEmitter
import Derphole.WebRelay.Signaling

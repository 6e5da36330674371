import StnStratum.Bytes
import StnStratum.Buffer
import StnStratum.Socket
import StnStratum.Framing
import StnStratum.Machine
import StnStratum.MinerProtocol
import StnStratum.ShareTarget
import StnStratum.MinerJob
import StnStratum.ShareVerify
import StnStratum.RpcClient
import StnStratum.RpcLinux
import StnStratum.Session
import StnStratum.Submission
import StnStratum.Service
import StnStratum.Rehearsal
import StnStratum.HashRate
import StnStratum.Seqlock
import StnStratum.TelemetrySnapshot
import StnStratum.Sha256
import StnStratum.ShareProof
import StnStratum.Effects
import StnStratum.WorkCoherence
import StnStratum.Moves
import StnStratum.Reception
import StnStratum.StreamFraming
import StnStratum.Replies
import StnStratum.Verdicts
import StnStratum.Acceptance
import StnStratum.SubmissionContent
import StnStratum.WorkLimits
import StnStratum.ChainTraffic
import StnStratum.ServicePass
import StnStratum.FairService
import StnStratum.WindowsFraming
import StnStratum.ReplyValidation
import StnStratum.RequestHistory
import StnStratum.Prototype
import StnStratum.PrototypeJob
import StnStratum.PrototypeRuns
import StnStratum.ChainRpcAdapter
import StnStratum.PlatformSubmission
import StnStratum.Turns
import StnStratum.SessionInvariant
import StnStratum.Isolation
import StnStratum.Failover
import StnStratum.FanOut
import StnStratum.JobFanOut
import StnStratum.JobHistory
import StnStratum.PollOutcome
import StnStratum.RoundRobin
import StnStratum.Rotation
import StnStratum.Scanner
import StnStratum.ChainConfig
import StnStratum.ConfigGrammar
import StnStratum.StringPasses
import StnStratum.JobCodec
import StnStratum.Printf
import StnStratum.Http
import StnStratum.Hex
import StnStratum.StatusReply
import StnStratum.TelemetryClient
import StnStratum.TelemetryService
import StnStratum.TelemetryThreads
import StnStratum.Publication
import StnStratum.Json
import StnStratum.StatusDocument
import StnStratum.Descriptors
import StnStratum.Schedule
import StnStratum.Holders
import StnStratum.Program
import StnStratum.ProgramStages
import StnStratum.ProgramLedger
import StnStratum.ProgramReports
import StnStratum.ProgramExit
import StnStratum.RpcWin32
import StnStratum.WindowsChain
import StnStratum.WindowsService
import StnStratum.Recovery
import StnStratum.ConfigMemory

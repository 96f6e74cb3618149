import LpcTools.Uu
import LpcTools.Lib.Decimal
import LpcTools.Lib.Loop
import LpcTools.Lib.Ends
import LpcTools.Proofs.UuCodec
import LpcTools.Host
import LpcTools.Serial
import LpcTools.Commands
import LpcTools.Transfer
import LpcTools.Files
import LpcTools.Wrapper
import LpcTools.ProgCommands
import LpcTools.Tools
import LpcTools.Proofs.Requests
import LpcTools.Proofs.StatusReplies
import LpcTools.Proofs.Sending
import LpcTools.Proofs.BlockReplies
import LpcTools.Proofs.BlockSender
import LpcTools.Proofs.ReadTiming
import LpcTools.Proofs.Answers
import LpcTools.Proofs.DecodeFits
import LpcTools.Proofs.ReadSafety
import LpcTools.Proofs.Dump
import LpcTools.Proofs.Verdicts
import LpcTools.Proofs.IspVerdicts
import LpcTools.Proofs.ProgVerdicts
import LpcTools.Connect
import LpcTools.Proofs.Connecting
import LpcTools.Lib.History
import LpcTools.Proofs.CommandOrder
import LpcTools.Lib.Numerals
import LpcTools.Parts
import LpcTools.Proofs.PartsFile
import LpcTools.Proofs.PartsRead
import LpcTools.Proofs.PartsReject
import LpcTools.Identify
import LpcTools.Proofs.Identifying
import LpcTools.Check
import LpcTools.Proofs.Loading
import LpcTools.Proofs.Checking
import LpcTools.Proofs.Device
import LpcTools.Proofs.Commanding
import LpcTools.Proofs.Storing
import LpcTools.Proofs.Erasing
import LpcTools.Proofs.Flashing
import LpcTools.Proofs.Bootloader
import LpcTools.Proofs.ReadProtection
import LpcTools.Proofs.Refusals
import LpcTools.Proofs.EndToEnd
import LpcTools.Proofs.RamFile
import LpcTools.Proofs.WholeFiles
import LpcTools.Proofs.Serving
import LpcTools.Proofs.Reader
import LpcTools.Proofs.RoundTrip
import LpcTools.Lib.Retry
import LpcTools.Proofs.Attempts
import LpcTools.Proofs.EncoderReads
import LpcTools.Proofs.BlockAccounting
import LpcTools.Proofs.ReadValue
import LpcTools.Proofs.BlankChecks
import LpcTools.Proofs.Blanking
import LpcTools.Lib.Plan
import LpcTools.Proofs.Layout
import LpcTools.Proofs.ImageBuffer
import LpcTools.Proofs.CommandNames
import LpcTools.Lib.Pairs
import LpcTools.Proofs.CheckBounds
import LpcTools.Proofs.RamInput
import LpcTools.Proofs.TypedNumbers
import LpcTools.Proofs.Jumping
import LpcTools.Proofs.RetryBudget
import LpcTools.Proofs.StatusCodes
import LpcTools.Proofs.EchoRemoval
import LpcTools.Proofs.Lagged
import LpcTools.Proofs.BootRom
import LpcTools.Proofs.RequestLines
import LpcTools.Proofs.CopyRequests
import LpcTools.Proofs.FreqLine
import LpcTools.Proofs.ShortTransfers
import LpcTools.IspDump
import LpcTools.Proofs.DumpRows
import LpcTools.Lib.Alike
import LpcTools.Programs
import LpcTools.Proofs.Mirror
import LpcTools.Proofs.MirrorTools
import LpcTools.Proofs.Utterances
import LpcTools.Proofs.Numbers
import LpcTools.Proofs.Session
import LpcTools.Proofs.Delegating
import LpcTools.Lib.Refine
import LpcTools.Proofs.Unsaved
import LpcTools.Proofs.Flashed
import LpcTools.Proofs.Bench
import LpcTools.Proofs.BenchRuns
import LpcTools.Proofs.Denying
import LpcTools.Proofs.BenchOrders
import LpcTools.Proofs.BenchHistory
import LpcTools.Proofs.ByHand
import LpcTools.Proofs.Starting
import LpcTools.Lib.Getopt
import LpcTools.Mains
import LpcTools.Lib.Settles
import LpcTools.Proofs.Ending
import LpcTools.Proofs.CommandLines
import LpcTools.Proofs.Terminal

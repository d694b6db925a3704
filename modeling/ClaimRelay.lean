import ClaimRelay.Calls
import ClaimRelay.Claim.Spelling
import ClaimRelay.ClaimSet.Builder
import ClaimRelay.CommandLine.Directory
import ClaimRelay.Main
import ClaimRelay.Proofs.ClaimSet.Cursor
import ClaimRelay.Proofs.Walk.Protocol
import ClaimRelay.Proofs.Walk.Trace
import ClaimRelay.Proofs.Walk.Alike
import ClaimRelay.Proofs.Walk.Faults
import ClaimRelay.Proofs.Binary.Contents
import ClaimRelay.Proofs.Binary.Element
import ClaimRelay.Proofs.Binary.Node
import ClaimRelay.Proofs.Binary.TokenTree
import ClaimRelay.Proofs.Binary.Writing
import ClaimRelay.Proofs.Binary.TwoPasses
import ClaimRelay.Proofs.Binary.RoundTrip
import ClaimRelay.Proofs.Binary.LocationFields
import ClaimRelay.Proofs.Binary.Grammar
import ClaimRelay.Proofs.Binary.Acceptance
import ClaimRelay.Proofs.Binary.Shortest
import ClaimRelay.Proofs.Binary.Padding
import ClaimRelay.Proofs.Binary.Rewriting
import ClaimRelay.Proofs.Binary.Locations
import ClaimRelay.Proofs.Binary.Boundaries
import ClaimRelay.Proofs.Writer.Following
import ClaimRelay.Proofs.Binary.Following
import ClaimRelay.Proofs.Writer.Delivering
import ClaimRelay.Proofs.Json.Document
import ClaimRelay.Proofs.Json.Following
import ClaimRelay.Proofs.Json.Grammar
import ClaimRelay.Proofs.Json.Rendering
import ClaimRelay.Proofs.Writer.Sessions
import ClaimRelay.Proofs.Writer.LevelStack
import ClaimRelay.Proofs.Writer.BracketedWords
import ClaimRelay.Proofs.Writer.LostLevels
import ClaimRelay.Proofs.Writer.Rebuilding
import ClaimRelay.Proofs.ClaimSet.Places
import ClaimRelay.Proofs.Writer.Agreement
import ClaimRelay.Proofs.Writer.Refusals
import ClaimRelay.Proofs.Writer.Passes
import ClaimRelay.Proofs.Arguments
import ClaimRelay.Proofs.Arguments.Hex
import ClaimRelay.Proofs.Arguments.Typing
import ClaimRelay.Proofs.Arguments.Spelling
import ClaimRelay.Proofs.Json.ThroughBinary
import ClaimRelay.Proofs.Writer.Calls
import ClaimRelay.Proofs.Writer.Modes
import ClaimRelay.Proofs.Binary.Modes
import ClaimRelay.Proofs.Json.Modes
import ClaimRelay.Proofs.Writer.AnyBuffer
import ClaimRelay.Proofs.Walk.Courses
import ClaimRelay.Proofs.Walk.Offenders
import ClaimRelay.Proofs.Json.OpenObjects
import ClaimRelay.Proofs.Json.Restarting
import ClaimRelay.Proofs.CommandLine.Whole
import ClaimRelay.Proofs.Step
import ClaimRelay.Proofs.Buffer.Edits
import ClaimRelay.Proofs.Buffer.Sink
import ClaimRelay.Proofs.Binary.Offsets
import ClaimRelay.Proofs.Binary.Descent
import ClaimRelay.Proofs.Json.Balance

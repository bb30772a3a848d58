import StyleScan.Main
import StyleScan.Command.Run
import StyleScan.Config.Reader
import StyleScan.Decimal.Layout
import StyleScan.Session
import StyleScan.Log.Network
import StyleScan.Stream
import StyleScan.Proofs.Phase
import StyleScan.Proofs.Operations
import StyleScan.Proofs.Lexeme
import StyleScan.Proofs.Lexing
import StyleScan.Proofs.Tokenization
import StyleScan.Proofs.Utf8.Sequence
import StyleScan.Proofs.Utf8.Split
import StyleScan.Proofs.Session
import StyleScan.Proofs.Soundness
import StyleScan.Proofs.Utf8.Decoding
import StyleScan.Proofs.Utf8.Encoding
import StyleScan.Proofs.Utf8.Buffering
import StyleScan.Proofs.Chunking
import StyleScan.Proofs.Printing
import StyleScan.Proofs.Pump
import StyleScan.Proofs.Continuation
import StyleScan.Proofs.Observation
import StyleScan.Proofs.Strip
import StyleScan.Proofs.Tracking
import StyleScan.Proofs.OpenPiece
import StyleScan.Proofs.Reports
import StyleScan.Proofs.Layout
import StyleScan.Proofs.Boundaries
import StyleScan.Proofs.Encoded
import StyleScan.Proofs.Restart
import StyleScan.Proofs.TokenOrder
import StyleScan.Proofs.FailedInput
import StyleScan.Proofs.Retention
import StyleScan.Proofs.Numerals
import StyleScan.Proofs.LineBreaks
import StyleScan.Proofs.Pulling
import StyleScan.Proofs.Ending
import StyleScan.Proofs.Logging
import StyleScan.Proofs.Unquoting
import StyleScan.Proofs.JsonReading
import StyleScan.Proofs.PrintedLines
import StyleScan.Proofs.Routing
import StyleScan.Proofs.SettingUp
import StyleScan.Proofs.ByteOffsets
import StyleScan.Proofs.JsonGrammar
import StyleScan.Proofs.StringReading
import StyleScan.Proofs.ValueReading
import StyleScan.Proofs.SectionReading
import StyleScan.Proofs.Describing
import StyleScan.Proofs.Configurations
import StyleScan.Proofs.Utf8.Buffering

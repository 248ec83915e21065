import PocketBasic.Main
import PocketBasic.Session
import PocketBasic.Proofs.Acceptance
import PocketBasic.Proofs.ReferenceTranslation
import PocketBasic.Proofs.TokenSeparation
import PocketBasic.Proofs.Faults.FirstFault
import PocketBasic.Proofs.Lexing.Lexemes
import PocketBasic.Proofs.Lexing.Coverage
import PocketBasic.Proofs.Lexing.Lines
import PocketBasic.Proofs.Lexing.Writing
import PocketBasic.Proofs.Grammar.Prefixes
import PocketBasic.Proofs.Lexing.Order
import PocketBasic.Proofs.Faults.EarliestFault
import PocketBasic.Proofs.Layout
import PocketBasic.Proofs.Composition
import PocketBasic.Proofs.Decoding
import PocketBasic.Proofs.Files.Compiling
import PocketBasic.Proofs.Sessions.Steps
import PocketBasic.Proofs.CommandLine.Runs
import PocketBasic.Proofs.Diagnostics.Wording
import PocketBasic.Proofs.Files.CarriageReturns
import PocketBasic.Proofs.Files.Outputs
import PocketBasic.Proofs.Decoding.Closed
import PocketBasic.Proofs.Sessions.Rounds
import PocketBasic.Proofs.CText.Formats
import PocketBasic.Proofs.Decoding.Labels
import PocketBasic.Proofs.CText.Constants
import PocketBasic.Proofs.CText.Identifiers
import PocketBasic.Proofs.Translation.Fetches
import PocketBasic.Proofs.CommandLine.Dumps
import PocketBasic.Proofs.Files.Extensions
import PocketBasic.Proofs.Translation.Expressions

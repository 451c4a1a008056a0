import Halfword.Assembly
import Halfword.Command.Options
import Halfword.Command.Path
import Halfword.Command.Session
import Halfword.Command.Volume
import Halfword.Diagnostic
import Halfword.Image
import Halfword.Isa.Condition
import Halfword.Isa.Encoding
import Halfword.Isa.Instruction
import Halfword.Isa.Opcode
import Halfword.Isa.Register
import Halfword.Listing
import Halfword.Log
import Halfword.Main
import Halfword.Resolve
import Halfword.Source.Comment
import Halfword.Source.Constant
import Halfword.Source.Line
import Halfword.Source.Mnemonic
import Halfword.Source.Statement
import Halfword.Symbols
import Halfword.Text.Blank
import Halfword.Text.Grid
import Halfword.Text.Lines
import Halfword.Text.Numeral
import Halfword.Text.Width
import Halfword.Proofs.Numerals
import Halfword.Proofs.WordFormat
import Halfword.Proofs.SecondPass
import Halfword.Proofs.EncodingLoop
import Halfword.Proofs.FirstPass
import Halfword.Proofs.Disassembly
import Halfword.Proofs.BranchTargets
import Halfword.Proofs.Accounting
import Halfword.Proofs.Isolation
import Halfword.Proofs.LayoutIndependence
import Halfword.Proofs.Appending
import Halfword.Proofs.Renaming
import Halfword.Proofs.StatementText
import Halfword.Proofs.FileCreation
import Halfword.Proofs.PathEntries
import Halfword.Proofs.Runs
import Halfword.Proofs.LabelInfluence
import Halfword.Proofs.LogAccount
import Halfword.Proofs.InputSafety
import Halfword.Proofs.PrintedText
import Halfword.Proofs.Verbosity
import Halfword.Proofs.Comments
import Halfword.Proofs.FirstDefinitions
import Halfword.Proofs.LineGrammar
import Halfword.Proofs.Constants
import Halfword.Proofs.InstructionGrammar
import Halfword.Proofs.ListedSource
import Halfword.Proofs.LineEndings
import Halfword.Proofs.SymbolOrder
import Halfword.Proofs.Images
import Halfword.Proofs.DerivedNames

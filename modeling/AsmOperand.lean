import AsmOperand.Main
import AsmOperand.Proofs.Grammar
import AsmOperand.Proofs.Narrowing
import AsmOperand.Session
import AsmOperand.Proofs.Depth
import AsmOperand.Proofs.Diagnostics
import AsmOperand.Proofs.Placement
import AsmOperand.Proofs.HexLiterals
import AsmOperand.Proofs.Sessions
import AsmOperand.Proofs.Definitions
import AsmOperand.Proofs.Checks
import AsmOperand.Proofs.FixedCounters
import AsmOperand.Proofs.Commands
import AsmOperand.Proofs.Entries
import AsmOperand.Proofs.Listings
import AsmOperand.Proofs.Comments
import AsmOperand.Proofs.Places
import AsmOperand.Proofs.Assignments
import AsmOperand.Proofs.Delimiters
import AsmOperand.Proofs.Groups
import AsmOperand.Proofs.UnknownNames
import AsmOperand.Proofs.MoreSymbols
import AsmOperand.Proofs.Overflow
import AsmOperand.Proofs.LineByLine
import AsmOperand.Proofs.ValidNames
import AsmOperand.Proofs.Marks
import AsmOperand.Proofs.Quotients
import AsmOperand.Proofs.Numerals
import AsmOperand.Proofs.Encodings
import AsmOperand.Proofs.UnreadableFiles
import AsmOperand.Proofs.Slices
import AsmOperand.Proofs.Packing
import AsmOperand.Proofs.TwosComplement

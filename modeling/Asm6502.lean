import Asm6502.Main
import Asm6502.Proofs.Construction
import Asm6502.Proofs.Outline
import Asm6502.Proofs.Placement
import Asm6502.Proofs.Emission
import Asm6502.Proofs.Image
import Asm6502.Proofs.Outcome
import Asm6502.Proofs.Flattening
import Asm6502.Proofs.Lifecycle
import Asm6502.Proofs.LineChain
import Asm6502.Proofs.ChainReach
import Asm6502.Proofs.Numerals
import Asm6502.Proofs.Spelling
import Asm6502.Proofs.Legibility
import Asm6502.Proofs.SourceProgram
import Asm6502.Proofs.Decodability
import Asm6502.Proofs.Extension
import Asm6502.Proofs.Origin
import Asm6502.Proofs.Relocation
import Asm6502.Proofs.InternalErrors
import Asm6502.Proofs.Relinking
import Asm6502.Proofs.CharacterCodes
import Asm6502.Proofs.Detokenizing
import Asm6502.Proofs.MacroRuns
import Asm6502.Proofs.Inlining
import Asm6502.Proofs.ModeInference
import Asm6502.Proofs.LabelArithmetic
import Asm6502.Proofs.BranchModifiers
import Asm6502.Proofs.LeadingAlignment
import Asm6502.Proofs.LongestMatch
import Asm6502.Proofs.ProgramLines
import Asm6502.Proofs.Acceptance
import Asm6502.Proofs.ListingLayout
import Asm6502.Proofs.SymbolTables
import Asm6502.Proofs.Redefinitions
import Asm6502.Proofs.Dump
import Asm6502.Proofs.DataEncoding
import Asm6502.Proofs.Readiness
import Asm6502.Proofs.Definitions
import Asm6502.Proofs.AddressText
import Asm6502.Proofs.MacroCalls
import Asm6502.Proofs.HelloWorld

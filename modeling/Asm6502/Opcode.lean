import Asm6502.Mode
import Asm6502.Mnemonic

/-! Opcodes: the encodings of each mnemonic, one for every addressing mode it has.

An encoding gives the opcode byte and the time the instruction takes. -/
namespace Asm6502

/-- How long an instruction runs. -/
structure Timing where
  /-- Cycles in the best case. -/
  cycles : Nat
  /-- One cycle more when the effective address lies in another page. -/
  pagePenalty : Bool
  /-- One cycle more when the branch is taken. -/
  branchPenalty : Bool
deriving DecidableEq, Repr

/-- The opcode of a mnemonic in one addressing mode. -/
structure Encoding where
  mode : Mode
  opcode : UInt8
  timing : Timing
deriving DecidableEq, Repr

namespace Encoding

/-- An encoding of constant duration. -/
def plain (mode : Mode) (opcode : UInt8) (cycles : Nat) : Encoding :=
  ⟨mode, opcode, ⟨cycles, false, false⟩⟩

/-- An encoding that takes longer across a page. -/
def paged (mode : Mode) (opcode : UInt8) (cycles : Nat) : Encoding :=
  ⟨mode, opcode, ⟨cycles, true, false⟩⟩

/-- A branch, which takes longer when taken and longer still across a page. -/
def branching (opcode : UInt8) (cycles : Nat) : Encoding :=
  ⟨.relative, opcode, ⟨cycles, true, true⟩⟩

end Encoding

namespace Mnemonic

open Encoding in
/-- The encodings of a mnemonic; no mode occurs twice. -/
def encodings : Mnemonic → List Encoding
  | adc =>
    [plain .immediate 0x69 2, plain .zeroPage 0x65 3, plain .zeroPageX 0x75 4,
      plain .absolute 0x6d 4, paged .absoluteX 0x7d 4, paged .absoluteY 0x79 4,
      plain .indirectIndexedX 0x61 6, paged .indirectIndexedY 0x71 5]
  | and =>
    [plain .immediate 0x29 2, plain .zeroPage 0x25 3, plain .zeroPageX 0x35 4,
      plain .absolute 0x2d 4, paged .absoluteX 0x3d 4, paged .absoluteY 0x39 4,
      plain .indirectIndexedX 0x21 6, paged .indirectIndexedY 0x31 5]
  | asl =>
    [plain .accumulator 0x0a 2, plain .zeroPage 0x06 5, plain .zeroPageX 0x16 6,
      plain .absolute 0x0e 6, plain .absoluteX 0x1e 7]
  | bcc => [branching 0x90 2]
  | bcs => [branching 0xb0 2]
  | beq => [branching 0xf0 2]
  | bit => [plain .zeroPage 0x24 3, plain .absolute 0x2c 4]
  | bmi => [branching 0x30 2]
  | bne => [branching 0xd0 2]
  | bpl => [branching 0x10 2]
  | brk => [plain .implied 0x00 7]
  | bvc => [branching 0x50 2]
  | bvs => [branching 0x70 2]
  | clc => [plain .implied 0x18 2]
  | cld => [plain .implied 0xd8 2]
  | cli => [plain .implied 0x58 2]
  | clv => [plain .implied 0xb8 2]
  | cmp =>
    [plain .immediate 0xc9 2, plain .zeroPage 0xc5 3, plain .zeroPageX 0xd5 4,
      plain .absolute 0xcd 4, paged .absoluteX 0xdd 4, paged .absoluteY 0xd9 4,
      plain .indirectIndexedX 0xc1 6, paged .indirectIndexedY 0xd1 5]
  | cpx => [plain .immediate 0xe0 2, plain .zeroPage 0xe4 3, plain .absolute 0xec 4]
  | cpy => [plain .immediate 0xc0 2, plain .zeroPage 0xc4 3, plain .absolute 0xcc 4]
  | dec =>
    [plain .zeroPage 0xc6 5, plain .zeroPageX 0xd6 6, plain .absolute 0xce 6,
      plain .absoluteX 0xde 7]
  | dex => [plain .implied 0xca 2]
  | dey => [plain .implied 0x88 2]
  | eor =>
    [plain .immediate 0x49 2, plain .zeroPage 0x45 3, plain .zeroPageX 0x55 4,
      plain .absolute 0x4d 4, paged .absoluteX 0x5d 4, paged .absoluteY 0x59 4,
      plain .indirectIndexedX 0x41 6, paged .indirectIndexedY 0x51 5]
  | inc =>
    [plain .zeroPage 0xe6 5, plain .zeroPageX 0xf6 6, plain .absolute 0xee 6,
      plain .absoluteX 0xfe 7]
  | inx => [plain .implied 0xe8 2]
  | iny => [plain .implied 0xc8 2]
  | jmp => [plain .absolute 0x4c 3, plain .indirect 0x6c 5]
  | jsr => [plain .absolute 0x20 6]
  | lda =>
    [plain .immediate 0xa9 2, plain .zeroPage 0xa5 3, plain .zeroPageX 0xb5 4,
      plain .absolute 0xad 4, paged .absoluteX 0xbd 4, paged .absoluteY 0xb9 4,
      plain .indirectIndexedX 0xa1 6, paged .indirectIndexedY 0xb1 5]
  | ldx =>
    [plain .immediate 0xa2 2, plain .zeroPage 0xa6 3, plain .zeroPageY 0xb6 4,
      plain .absolute 0xae 4, paged .absoluteY 0xbe 4]
  | ldy =>
    [plain .immediate 0xa0 2, plain .zeroPage 0xa4 3, plain .zeroPageX 0xb4 4,
      plain .absolute 0xac 4, paged .absoluteX 0xbc 4]
  | lsr =>
    [plain .accumulator 0x4a 2, plain .zeroPage 0x46 5, plain .zeroPageX 0x56 6,
      plain .absolute 0x4e 6, plain .absoluteX 0x5e 7]
  | nop => [plain .implied 0xea 2]
  | ora =>
    [plain .immediate 0x09 2, plain .zeroPage 0x05 3, plain .zeroPageX 0x15 4,
      plain .absolute 0x0d 4, paged .absoluteX 0x1d 4, paged .absoluteY 0x19 4,
      plain .indirectIndexedX 0x01 6, paged .indirectIndexedY 0x11 5]
  | pha => [plain .implied 0x48 3]
  | php => [plain .implied 0x08 3]
  | pla => [plain .implied 0x68 4]
  | plp => [plain .implied 0x28 4]
  | rol =>
    [plain .accumulator 0x2a 2, plain .zeroPage 0x26 5, plain .zeroPageX 0x36 6,
      plain .absolute 0x2e 6, plain .absoluteX 0x3e 7]
  | ror =>
    [plain .accumulator 0x6a 2, plain .zeroPage 0x66 5, plain .zeroPageX 0x76 6,
      plain .absolute 0x6e 6, plain .absoluteX 0x7e 7]
  | rti => [plain .implied 0x40 6]
  | rts => [plain .implied 0x60 6]
  | sbc =>
    [plain .immediate 0xe9 2, plain .zeroPage 0xe5 3, plain .zeroPageX 0xf5 4,
      plain .absolute 0xed 4, paged .absoluteX 0xfd 4, paged .absoluteY 0xf9 4,
      plain .indirectIndexedX 0xe1 6, paged .indirectIndexedY 0xf1 5]
  | sec => [plain .implied 0x38 2]
  | sed => [plain .implied 0xf8 2]
  | sei => [plain .implied 0x78 2]
  | sta =>
    [plain .zeroPage 0x85 3, plain .zeroPageX 0x95 4, plain .absolute 0x8d 4,
      plain .absoluteX 0x9d 5, plain .absoluteY 0x99 5, plain .indirectIndexedX 0x81 6,
      plain .indirectIndexedY 0x91 6]
  | stx => [plain .zeroPage 0x86 3, plain .zeroPageY 0x96 4, plain .absolute 0x8e 4]
  | sty => [plain .zeroPage 0x84 3, plain .zeroPageX 0x94 4, plain .absolute 0x8c 4]
  | tax => [plain .implied 0xaa 2]
  | tay => [plain .implied 0xa8 2]
  | tsx => [plain .implied 0xba 2]
  | txa => [plain .implied 0x8a 2]
  | txs => [plain .implied 0x9a 2]
  | tya => [plain .implied 0x98 2]

/-- The encoding in the given mode, if the mnemonic has that mode. -/
def encoding? (m : Mnemonic) (mode : Mode) : Option Encoding :=
  m.encodings.find? fun e => e.mode = mode

def supports (m : Mnemonic) (mode : Mode) : Bool :=
  (m.encoding? mode).isSome

/-- The mode of a mnemonic that has only one. -/
def onlyMode? (m : Mnemonic) : Option Mode :=
  match m.encodings with
  | [e] => some e.mode
  | _ => none

end Mnemonic

end Asm6502

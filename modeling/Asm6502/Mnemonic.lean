/-! Mnemonics: the operations of the processor. They are read in any letter case and written in
lower case. -/
namespace Asm6502

inductive Mnemonic where
  | adc | and | asl | bcc | bcs | beq | bit | bmi | bne | bpl | brk | bvc | bvs | clc
  | cld | cli | clv | cmp | cpx | cpy | dec | dex | dey | eor | inc | inx | iny | jmp
  | jsr | lda | ldx | ldy | lsr | nop | ora | pha | php | pla | plp | rol | ror | rti
  | rts | sbc | sec | sed | sei | sta | stx | sty | tax | tay | tsx | txa | txs | tya
deriving DecidableEq, Repr

namespace Mnemonic

def all : List Mnemonic :=
  [adc, and, asl, bcc, bcs, beq, bit, bmi, bne, bpl, brk, bvc, bvs, clc,
    cld, cli, clv, cmp, cpx, cpy, dec, dex, dey, eor, inc, inx, iny, jmp,
    jsr, lda, ldx, ldy, lsr, nop, ora, pha, php, pla, plp, rol, ror, rti,
    rts, sbc, sec, sed, sei, sta, stx, sty, tax, tay, tsx, txa, txs, tya]

/-- The three letters of a mnemonic, in lower case. -/
def name : Mnemonic → String
  | adc => "adc" | and => "and" | asl => "asl" | bcc => "bcc" | bcs => "bcs" | beq => "beq"
  | bit => "bit" | bmi => "bmi" | bne => "bne" | bpl => "bpl" | brk => "brk" | bvc => "bvc"
  | bvs => "bvs" | clc => "clc" | cld => "cld" | cli => "cli" | clv => "clv" | cmp => "cmp"
  | cpx => "cpx" | cpy => "cpy" | dec => "dec" | dex => "dex" | dey => "dey" | eor => "eor"
  | inc => "inc" | inx => "inx" | iny => "iny" | jmp => "jmp" | jsr => "jsr" | lda => "lda"
  | ldx => "ldx" | ldy => "ldy" | lsr => "lsr" | nop => "nop" | ora => "ora" | pha => "pha"
  | php => "php" | pla => "pla" | plp => "plp" | rol => "rol" | ror => "ror" | rti => "rti"
  | rts => "rts" | sbc => "sbc" | sec => "sec" | sed => "sed" | sei => "sei" | sta => "sta"
  | stx => "stx" | sty => "sty" | tax => "tax" | tay => "tay" | tsx => "tsx" | txa => "txa"
  | txs => "txs" | tya => "tya"

/-- The mnemonic of this name, whatever the case of its ASCII letters. -/
def ofName? (s : String) : Option Mnemonic :=
  all.find? fun m => m.name.toList == s.toList.map Char.toLower

/-- Operations that go to an absolute address. -/
def isJump : Mnemonic → Bool
  | jmp | jsr => true
  | _ => false

/-- Operations that go to a near address when a flag says so. -/
def isBranch : Mnemonic → Bool
  | bcc | bcs | beq | bmi | bne | bpl | bvc | bvs => true
  | _ => false

end Mnemonic

end Asm6502

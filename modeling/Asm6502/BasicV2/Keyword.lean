/-! Keywords of BASIC V2. A keyword is stored as one byte, its token. Where several keywords fit,
the first in the order of the table is taken. -/
namespace Asm6502.BasicV2

structure Keyword where
  spelling : String
  token : UInt8
deriving DecidableEq, Repr

/-- All keywords, in the order in which they are tried. -/
def keywords : List Keyword :=
  [⟨"END", 0x80⟩, ⟨"FOR", 0x81⟩, ⟨"NEXT", 0x82⟩, ⟨"DATA", 0x83⟩, ⟨"INPUT#", 0x84⟩,
    ⟨"INPUT", 0x85⟩, ⟨"DIM", 0x86⟩, ⟨"READ", 0x87⟩, ⟨"LET", 0x88⟩, ⟨"GOTO", 0x89⟩, ⟨"RUN", 0x8a⟩,
    ⟨"IF", 0x8b⟩, ⟨"RESTORE", 0x8c⟩, ⟨"GOSUB", 0x8d⟩, ⟨"RETURN", 0x8e⟩, ⟨"REM", 0x8f⟩,
    ⟨"STOP", 0x90⟩, ⟨"ON", 0x91⟩, ⟨"WAIT", 0x92⟩, ⟨"LOAD", 0x93⟩, ⟨"SAVE", 0x94⟩,
    ⟨"VERIFY", 0x95⟩, ⟨"DEF", 0x96⟩, ⟨"POKE", 0x97⟩, ⟨"PRINT#", 0x98⟩, ⟨"PRINT", 0x99⟩,
    ⟨"CONT", 0x9a⟩, ⟨"LIST", 0x9b⟩, ⟨"CLR", 0x9c⟩, ⟨"CMD", 0x9d⟩, ⟨"SYS", 0x9e⟩, ⟨"OPEN", 0x9f⟩,
    ⟨"CLOSE", 0xa0⟩, ⟨"GET", 0xa1⟩, ⟨"NEW", 0xa2⟩, ⟨"TAB(", 0xa3⟩, ⟨"TO", 0xa4⟩, ⟨"FN", 0xa5⟩,
    ⟨"SPC(", 0xa6⟩, ⟨"THEN", 0xa7⟩, ⟨"NOT", 0xa8⟩, ⟨"STEP", 0xa9⟩, ⟨"+", 0xaa⟩, ⟨"-", 0xab⟩,
    ⟨"*", 0xac⟩, ⟨"/", 0xad⟩, ⟨"^", 0xae⟩, ⟨"AND", 0xaf⟩, ⟨"OR", 0xb0⟩, ⟨">", 0xb1⟩, ⟨"=", 0xb2⟩,
    ⟨"<", 0xb3⟩, ⟨"SGN", 0xb4⟩, ⟨"INT", 0xb5⟩, ⟨"ABS", 0xb6⟩, ⟨"USR", 0xb7⟩, ⟨"FRE", 0xb8⟩,
    ⟨"POS", 0xb9⟩, ⟨"SQR", 0xba⟩, ⟨"RND", 0xbb⟩, ⟨"LOG", 0xbc⟩, ⟨"EXP", 0xbd⟩, ⟨"COS", 0xbe⟩,
    ⟨"SIN", 0xbf⟩, ⟨"TAN", 0xc0⟩, ⟨"ATN", 0xc1⟩, ⟨"PEEK", 0xc2⟩, ⟨"LEN", 0xc3⟩, ⟨"STR$", 0xc4⟩,
    ⟨"VAL", 0xc5⟩, ⟨"ASC", 0xc6⟩, ⟨"CHR$", 0xc7⟩, ⟨"LEFT$", 0xc8⟩, ⟨"RIGHT$", 0xc9⟩,
    ⟨"MID$", 0xca⟩, ⟨"GO", 0xcb⟩]

/-- The keyword at the start of a text. -/
def Keyword.at? (cs : List Char) : Option Keyword :=
  keywords.find? fun k => k.spelling.toList.isPrefixOf cs

end Asm6502.BasicV2

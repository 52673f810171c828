import Asm6502.Text.Upper

/-! Character sets: the codes that the machine prints and the codes in its video memory.

PETSCII keeps the printable characters of ASCII and adds graphics, colours and control codes.
Screen codes know one letter case only, so a character is taken in upper case first. -/
namespace Asm6502

inductive Charset where
  | petscii
  | screen
deriving DecidableEq, Repr

/-- The characters of PETSCII beyond the printable ones of ASCII, by code point. -/
def petsciiExtras : List (Nat × UInt8) :=
  [(0xa, 0x8d), (0xa0, 0xe0), (0x3c0, 0xff), (0x2501, 0xc3), (0x2502, 0xdd), (0x250c, 0xf0),
    (0x2510, 0xee), (0x2514, 0xed), (0x2518, 0xfd), (0x251c, 0xeb), (0x2524, 0xf3),
    (0x252c, 0xf2), (0x2534, 0xf1), (0x253c, 0xdb), (0x256d, 0xd5), (0x256e, 0xc9),
    (0x256f, 0xcb), (0x2570, 0xca), (0x2571, 0xce), (0x2572, 0xcd), (0x2573, 0xd6),
    (0x2581, 0xe4), (0x2582, 0xef), (0x2583, 0xf9), (0x2584, 0xe2), (0x258c, 0xe1),
    (0x258d, 0xf5), (0x258e, 0xf4), (0x258f, 0xe5), (0x2592, 0xe6), (0x2594, 0xe3),
    (0x2595, 0xe7), (0x25cb, 0xd7), (0x25cf, 0xd1), (0x25e4, 0xe9), (0x25e5, 0xdf),
    (0x2660, 0xc1), (0x2663, 0xd8), (0x2665, 0xd3), (0x2666, 0xda), (0xf104, 0x81),
    (0xf105, 0x90), (0xf106, 0x95), (0xf107, 0x96), (0xf108, 0x97), (0xf109, 0x98),
    (0xf10a, 0x99), (0xf10b, 0x9a), (0xf10c, 0x9b), (0xf10d, 0x9c), (0xf10e, 0x9e),
    (0xf10f, 0x9f), (0xf110, 0x85), (0xf111, 0x89), (0xf112, 0x86), (0xf113, 0x8a),
    (0xf114, 0x87), (0xf115, 0x8b), (0xf116, 0x88), (0xf117, 0x8c), (0xf11b, 0x92),
    (0xf11d, 0x9d), (0xf11e, 0x91), (0xf121, 0x94), (0xf122, 0xc4), (0xf123, 0xc5),
    (0xf124, 0xc6), (0xf125, 0xd2), (0xf126, 0xc7), (0xf127, 0xd4), (0xf128, 0xc8),
    (0xf129, 0xd9), (0xf12a, 0xcc), (0xf12b, 0xcf), (0xf12c, 0xd0), (0xf12d, 0xfa),
    (0xf12e, 0xdc), (0xf12f, 0xe8), (0xf130, 0xea), (0xf131, 0xf6), (0xf132, 0xf7),
    (0xf133, 0xf8), (0xf134, 0xec), (0xf135, 0xfb), (0xf136, 0xfc), (0xf137, 0xfe),
    (0xf138, 0xbf)]

/-- The characters of the video memory beyond those from the blank to the opening bracket. -/
def screenExtras : List (Nat × UInt8) :=
  [(0x5d, 0x1d), (0xa3, 0x1c), (0x2190, 0x1f), (0x2191, 0x1e)]

/-- The PETSCII code of a code point. -/
def petsciiCode (n : Nat) : Option UInt8 :=
  if 0x20 ≤ n ∧ n ≤ 0x7f then some (UInt8.ofNat n) else petsciiExtras.lookup n

/-- The screen code of a code point; letters have to be in upper case. -/
def screenCode (n : Nat) : Option UInt8 :=
  if 0x20 ≤ n ∧ n ≤ 0x3f then some (UInt8.ofNat n)
  else if 0x40 ≤ n ∧ n ≤ 0x5b then some (UInt8.ofNat (n - 0x40))
  else screenExtras.lookup n

namespace Charset

/-- The name used in messages. -/
def name : Charset → String
  | petscii => "Petscii"
  | screen => "Screen"

/-- The code of a character. Of an upper case of several characters, the first one counts. -/
def encodeChar (charset : Charset) (c : Char) : Option UInt8 :=
  match charset with
  | petscii => petsciiCode c.toNat
  | screen => (Text.upperChar c).head?.bind fun u => screenCode u.toNat

/-- The codes of a text, or the first character that has none. -/
def encode (charset : Charset) : List Char → Except Char (List UInt8)
  | [] => .ok []
  | c :: rest =>
    match charset.encodeChar c with
    | some code => do
      let codes ← charset.encode rest
      return code :: codes
    | none => .error c

end Charset

end Asm6502

import Asm6502.Charset
import Asm6502.Text.Quoted
import Asm6502.Word

/-! Directives: labels, alignments and data, the statements that are no instructions.

A label is an identifier, an alignment is an address, and data carry their content together with
the bytes it encodes to. -/
namespace Asm6502

/-- How the content of data is encoded. -/
inductive DataMode where
  /-- PETSCII for text, bytes for numbers. -/
  | plain
  /-- Screen codes, for text only. -/
  | screen
  /-- Words, for numbers only. -/
  | word
deriving DecidableEq, Repr

/-- The name used in messages. -/
def DataMode.name : DataMode → String
  | plain => "default"
  | screen => "screen"
  | word => "word"

/-- Why a directive cannot be built. -/
inductive DirectiveError where
  | invalidLabelName (name : String)
  | alignmentOutOfRange (address : Int)
  | unsupportedDataMode (mode : DataMode)
  | invalidCharacter (c : Char) (charset : Charset)
  | invalidByte (n : Int)
  | invalidWord (n : Int)
deriving DecidableEq, Repr

def DirectiveError.message : DirectiveError → String
  | invalidLabelName name => "Invalid label name: " ++ Text.quote name
  | alignmentOutOfRange address =>
    "Alignment address has to be in range $0 - $ffff, got " ++ toString address
  | unsupportedDataMode mode => "Unsupported data mode: " ++ mode.name
  | invalidCharacter c charset =>
    "Character " ++ Text.quoteChar c ++ " not in the " ++ charset.name ++ " character set"
  | invalidByte n => "Invalid byte: " ++ toString n
  | invalidWord n => "Invalid word: " ++ toString n

/-! ### Labels -/

/-- Is the text an ASCII letter or underscore followed by letters, digits and underscores? -/
def isIdentifier : List Char → Bool
  | [] => false
  | c :: rest => (c.isAlpha || c == '_') && rest.all fun d => d.isAlphanum || d == '_'

/-- A named place in a block. -/
structure Label where
  name : String
  valid : isIdentifier name.toList = true
deriving DecidableEq

def Label.ofName (name : String) : Except DirectiveError Label :=
  if h : isIdentifier name.toList = true then .ok ⟨name, h⟩ else .error (.invalidLabelName name)

/-! ### Alignments -/

/-- The address at which the statements that follow are placed. -/
structure Align where
  address : UInt16
deriving DecidableEq

namespace Align

def ofInt (n : Int) : Except DirectiveError Align :=
  match Word.ofInt? n with
  | some address => .ok ⟨address⟩
  | none => .error (.alignmentOutOfRange n)

def source (a : Align) : String := "* = $" ++ Text.hex 4 a.address.toNat

end Align

/-! ### Data -/

inductive Content where
  | text (s : String)
  | numbers (ns : List Int)
deriving DecidableEq, Repr

namespace Content

def encodeText (charset : Charset) (s : String) : Except DirectiveError (List UInt8) :=
  match charset.encode s.toList with
  | .ok codes => .ok codes
  | .error c => .error (.invalidCharacter c charset)

def encodeBytes : List Int → Except DirectiveError (List UInt8)
  | [] => .ok []
  | n :: rest =>
    if 0 ≤ n ∧ n ≤ 0xff then do
      let bytes ← encodeBytes rest
      return UInt8.ofNat n.toNat :: bytes
    else .error (.invalidByte n)

def encodeWords : List Int → Except DirectiveError (List UInt8)
  | [] => .ok []
  | n :: rest =>
    if 0 ≤ n ∧ n ≤ 0xffff then do
      let bytes ← encodeWords rest
      return Word.littleEndian n.toNat ++ bytes
    else .error (.invalidWord n)

/-- The bytes of some content, or the first part of it that has none. -/
def encode (content : Content) (mode : DataMode) : Except DirectiveError (List UInt8) :=
  match content, mode with
  | text s, .plain => encodeText .petscii s
  | text s, .screen => encodeText .screen s
  | numbers ns, .plain => encodeBytes ns
  | numbers ns, .word => encodeWords ns
  | _, _ => .error (.unsupportedDataMode mode)

/-- Some content as written in a listing. -/
def source (content : Content) (mode : DataMode) : String :=
  match content, mode with
  | text s, .screen => ".screen \"" ++ s ++ "\""
  | text s, _ => ".text \"" ++ s ++ "\""
  | numbers ns, .word => ".word " ++ ",".intercalate (ns.map fun n => "$" ++ Text.hex 4 n.toNat)
  | numbers ns, _ => ".byte " ++ ",".intercalate (ns.map fun n => "$" ++ Text.hex 2 n.toNat)

/-- Bytes as numbers. -/
def ofBytes (bytes : List UInt8) : Content := numbers (bytes.map fun b => (b.toNat : Int))

/-- Bytes given as numbers encode to themselves. -/
theorem encode_ofBytes (bytes : List UInt8) : (ofBytes bytes).encode .plain = .ok bytes := by
  show encodeBytes (bytes.map fun b => (b.toNat : Int)) = .ok bytes
  induction bytes with
  | nil => rfl
  | cons b rest ih =>
    have hb : b.toNat ≤ 255 := Nat.le_of_lt_succ b.toNat_lt
    have h : 0 ≤ (b.toNat : Int) ∧ (b.toNat : Int) ≤ 0xff := by omega
    rw [List.map_cons, encodeBytes, if_pos h, ih]
    simp [bind, Except.bind, pure, Except.pure]

end Content

/-- Bytes placed in the program as they are. -/
structure Data where
  content : Content
  mode : DataMode
  bytes : List UInt8
  encoded : content.encode mode = .ok bytes
deriving DecidableEq

namespace Data

def ofContent (content : Content) (mode : DataMode) : Except DirectiveError Data :=
  match h : content.encode mode with
  | .ok bytes => .ok ⟨content, mode, bytes, h⟩
  | .error e => .error e

/-- Data that are given as bytes. -/
def ofBytes (bytes : List UInt8) : Data where
  content := .ofBytes bytes
  mode := .plain
  bytes := bytes
  encoded := Content.encode_ofBytes bytes

def source (d : Data) : String := d.content.source d.mode

end Data

end Asm6502

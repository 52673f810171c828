import Mathlib.Control.Monad.Basic
import Asm6502.BasicV2.Line
import Asm6502.Proofs.CharacterCodes
import Asm6502.Proofs.Construction

/-! Reading tokens back.

The tokenizer cuts the statements of a line into lexemes, keywords and single characters, and writes
one byte for each (`tokens_eq`). `detokenize` reads the bytes one by one and knows from the bytes
alone whether it is among keywords, in a string, in `DATA` or in a remark, because a byte means a
keyword in the first of these and a graphics character in the others. `detokenize_tokenizeBody` says
that it recovers the statements in upper case, unless a graphics character stands among keywords,
where its code is taken for a token. -/
namespace Asm6502.BasicV2

/-! ### Lexemes -/

/-- What one byte is written for: a keyword, or a character and the reading it is met in. -/
inductive Lexeme where
  | keyword (k : Keyword)
  | character (reading : Reading) (c : Char)
deriving DecidableEq

namespace Lexeme

def text : Lexeme → List Char
  | keyword k => k.spelling.toList
  | character _ c => [c]

def encode : Lexeme → Except BasicError UInt8
  | keyword k => .ok k.token
  | character _ c => petscii c

/-- Is this a character among keywords whose code could be a token? -/
def looksLikeToken : Lexeme → Bool
  | character .keywords c => (Charset.petscii.encodeChar c).any fun code => 0x80 ≤ code
  | _ => false

end Lexeme

/-- The lexemes of statements in upper case. -/
def lexemes (reading : Reading) (cs : List Char) : List Lexeme :=
  match cs with
  | [] => []
  | c :: rest =>
    match reading.keyword? (c :: rest) with
    | some k => .keyword k :: lexemes k.reading (rest.drop (k.spelling.toList.length - 1))
    | none => .character reading c :: lexemes (reading.after c) rest
termination_by cs.length
decreasing_by
  all_goals simp only [List.length_cons, List.length_drop]; omega

/-- Lexemes one behind another, each met in the reading that the one before it leaves. -/
inductive Follow : Reading → List Lexeme → Prop where
  | nil {reading} : Follow reading []
  | keyword {k rest} : k ∈ keywords → Follow k.reading rest → Follow .keywords (.keyword k :: rest)
  | character {reading c rest} : Follow (reading.after c) rest →
      Follow reading (.character reading c :: rest)

/-- Keywords are met where they are looked for, at the start of the text. -/
theorem Reading.keyword?_eq_some {reading : Reading} {cs : List Char} {k : Keyword}
    (h : reading.keyword? cs = some k) :
    reading = .keywords ∧ k ∈ BasicV2.keywords ∧ k.spelling.toList <+: cs := by
  cases reading with
  | keywords =>
    have hat : Keyword.at? cs = some k := h
    have hprefix := List.find?_some hat
    exact ⟨rfl, List.mem_of_find?_eq_some hat, List.isPrefixOf_iff_prefix.mp hprefix⟩
  | _ => cases h

theorem spelling_ne_nil {k : Keyword} (h : k ∈ keywords) : k.spelling.toList ≠ [] := by
  have hall : ∀ k ∈ keywords, k.spelling.toList ≠ [] := by decide
  exact hall k h

/-- **One byte for each lexeme**: the tokens of a text are those of its lexemes. -/
theorem tokens_eq (reading : Reading) (cs : List Char) :
    tokens reading cs = (lexemes reading cs).mapM Lexeme.encode := by
  induction reading, cs using tokens.induct with
  | case1 reading =>
    rw [tokens, lexemes]
    rfl
  | case2 reading c rest k hk ih =>
    rw [tokens, lexemes, hk, List.mapM_cons, ← ih]
    rfl
  | case3 reading c rest hk ih =>
    rw [tokens, lexemes, hk, List.mapM_cons, ← ih]
    rfl

/-- The lexemes of a text make up the text. -/
theorem flatMap_text_lexemes (reading : Reading) (cs : List Char) :
    (lexemes reading cs).flatMap Lexeme.text = cs := by
  induction reading, cs using tokens.induct with
  | case1 reading => simp [lexemes]
  | case2 reading c rest k hk ih =>
    obtain ⟨_, hmem, after, hafter⟩ := Reading.keyword?_eq_some hk
    have hdrop : rest.drop (k.spelling.toList.length - 1) = after := by
      cases hs : k.spelling.toList with
      | nil => exact absurd hs (spelling_ne_nil hmem)
      | cons d ds =>
        rw [hs] at hafter
        cases hafter
        simp
    rw [lexemes, hk, List.flatMap_cons, ih, hdrop]
    exact hafter
  | case3 reading c rest hk ih =>
    rw [lexemes, hk, List.flatMap_cons, ih]
    rfl

theorem follow_lexemes (reading : Reading) (cs : List Char) : Follow reading (lexemes reading cs) := by
  induction reading, cs using tokens.induct with
  | case1 reading =>
    rw [lexemes]
    exact .nil
  | case2 reading c rest k hk ih =>
    obtain ⟨rfl, hmem, _⟩ := Reading.keyword?_eq_some hk
    rw [lexemes, hk]
    exact .keyword hmem ih
  | case3 reading c rest hk ih =>
    rw [lexemes, hk]
    exact .character ih

/-! ### Reading bytes -/

/-- The text that a byte stands for. -/
def Reading.decode (reading : Reading) (byte : UInt8) : Option (List Char) :=
  if reading = .keywords ∧ 0x80 ≤ byte then
    (BasicV2.keywords.find? fun k => k.token = byte).map fun k => k.spelling.toList
  else (petsciiChar? byte).map fun c => [c]

/-- The reading behind a byte. The bytes that matter are those of a quote, a colon, `DATA` and `REM`. -/
def Reading.afterByte : Reading → UInt8 → Reading
  | keywords, byte =>
    if byte = 0x8f then remark else if byte = 0x83 then data
    else if byte = 0x22 then quoted false else keywords
  | quoted inData, byte => if byte = 0x22 then if inData then data else keywords else quoted inData
  | data, byte => if byte = 0x22 then quoted true else if byte = 0x3a then keywords else data
  | remark, _ => remark

/-- The text of tokens and characters. -/
def detokenize (reading : Reading) : List UInt8 → Option (List Char)
  | [] => some []
  | byte :: rest => do
    let text ← reading.decode byte
    let after ← detokenize (reading.afterByte byte) rest
    return text ++ after

/-! ### Both in step -/

theorem encodeChar_of_petscii {c : Char} {code : UInt8} (h : petscii c = .ok code) :
    Charset.petscii.encodeChar c = some code := by
  unfold petscii at h
  split at h
  · cases h
    assumption
  · cases h

/-- A token tells its keyword, and the reading behind it. -/
theorem decode_token {k : Keyword} (h : k ∈ keywords) :
    Reading.keywords.decode k.token = some k.spelling.toList ∧
      Reading.keywords.afterByte k.token = k.reading := by
  have hall : ∀ k ∈ keywords, Reading.keywords.decode k.token = some k.spelling.toList ∧
      Reading.keywords.afterByte k.token = k.reading := by decide +kernel
  exact hall k h

/-- A character that is not taken for a token is read back, and the reading behind it. -/
theorem decode_character {reading : Reading} {c : Char} {code : UInt8} (hcode : petscii c = .ok code)
    (htoken : (Lexeme.character reading c).looksLikeToken = false) :
    reading.decode code = some [c] ∧ reading.afterByte code = reading.after c := by
  have hc := encodeChar_of_petscii hcode
  have hlow : reading = .keywords → ¬ 0x80 ≤ code := by
    rintro rfl
    simpa [Lexeme.looksLikeToken, hc] using htoken
  -- a code is that of a quote or a colon only if the character is
  have hmark : ∀ {d : Char} {mark : UInt8}, Charset.petscii.encodeChar d = some mark →
      (code = mark ↔ c = d) := by
    intro d mark hd
    constructor
    · rintro rfl
      exact encodeChar_inj hc hd
    · rintro rfl
      exact Option.some.inj (hc.symm.trans hd)
  have hquote : code = 0x22 ↔ c = '"' := hmark rfl
  have hcolon : code = 0x3a ↔ c = ':' := hmark rfl
  constructor
  · rw [Reading.decode, if_neg (not_and.mpr hlow), petsciiChar?_eq_some.mpr hc]
    rfl
  · cases reading with
    | keywords =>
      have hrem : code ≠ 0x8f := by
        rintro rfl
        exact hlow rfl (by decide)
      have hdata : code ≠ 0x83 := by
        rintro rfl
        exact hlow rfl (by decide)
      simp only [Reading.afterByte, Reading.after, if_neg hrem, if_neg hdata, hquote]
    | quoted inData => simp only [Reading.afterByte, Reading.after, hquote]
    | data => simp only [Reading.afterByte, Reading.after, hquote, hcolon]
    | remark => rfl

theorem mapM_encode_cons {l : Lexeme} {ls : List Lexeme} {bytes : List UInt8}
    (h : (l :: ls).mapM Lexeme.encode = .ok bytes) :
    ∃ byte rest, l.encode = .ok byte ∧ ls.mapM Lexeme.encode = .ok rest ∧ bytes = byte :: rest := by
  rw [List.mapM_cons] at h
  obtain ⟨byte, hbyte, h⟩ := bind_eq_ok.mp h
  obtain ⟨rest, hrest, h⟩ := bind_eq_ok.mp h
  cases h
  exact ⟨byte, rest, hbyte, hrest, rfl⟩

theorem detokenize_cons {reading next : Reading} {byte : UInt8} {rest : List UInt8}
    {text after : List Char} (hbyte : reading.decode byte = some text ∧ reading.afterByte byte = next)
    (hrest : detokenize next rest = some after) :
    detokenize reading (byte :: rest) = some (text ++ after) := by
  rw [detokenize, hbyte.1, hbyte.2, hrest]
  rfl

/-- **Lexemes are read back** from their bytes, one by one. -/
theorem Follow.detokenize {reading : Reading} {ls : List Lexeme} (h : Follow reading ls)
    {bytes : List UInt8} (hbytes : ls.mapM Lexeme.encode = .ok bytes)
    (htoken : ∀ l ∈ ls, l.looksLikeToken = false) :
    detokenize reading bytes = some (ls.flatMap Lexeme.text) := by
  induction h generalizing bytes with
  | nil =>
    cases hbytes
    rfl
  | keyword hmem _ ih =>
    obtain ⟨token, rest, htok, hrest, rfl⟩ := mapM_encode_cons hbytes
    obtain ⟨_, htoken⟩ := List.forall_mem_cons.mp htoken
    cases htok
    exact detokenize_cons (decode_token hmem) (ih hrest htoken)
  | character _ ih =>
    obtain ⟨code, rest, hcode, hrest, rfl⟩ := mapM_encode_cons hbytes
    obtain ⟨hlow, htoken⟩ := List.forall_mem_cons.mp htoken
    exact detokenize_cons (decode_character hcode hlow) (ih hrest htoken)

/-- **Detokenizing undoes tokenizing**, up to upper case, for statements in which no character among
keywords has the code of a token. -/
theorem detokenize_tokenizeBody {body : List Char} {bytes : List UInt8}
    (h : tokenizeBody body = .ok bytes)
    (htoken : ∀ l ∈ lexemes .keywords (Text.upper body), l.looksLikeToken = false) :
    detokenize .keywords bytes = some (Text.upper body) := by
  unfold tokenizeBody at h
  rw [tokens_eq] at h
  rw [(follow_lexemes .keywords (Text.upper body)).detokenize h htoken, flatMap_text_lexemes]

theorem heart_detokenize : ∃ bytes,
    tokenizeBody "data \"a:to\",♥:print 1+2:rem ♥ goto".toList = .ok bytes ∧
    bytes = [0x83, 0x20, 0x22, 0x41, 0x3a, 0x54, 0x4f, 0x22, 0x2c, 0xd3, 0x3a, 0x99, 0x20, 0x31, 0xaa,
      0x32, 0x3a, 0x8f, 0x20, 0xd3, 0x20, 0x47, 0x4f, 0x54, 0x4f] ∧
    (∀ l ∈ lexemes .keywords (Text.upper "data \"a:to\",♥:print 1+2:rem ♥ goto".toList),
      l.looksLikeToken = false) ∧
    detokenize .keywords bytes = some "DATA \"A:TO\",♥:PRINT 1+2:REM ♥ GOTO".toList := by
  have h : tokenizeBody "data \"a:to\",♥:print 1+2:rem ♥ goto".toList = .ok [0x83, 0x20, 0x22, 0x41, 0x3a,
      0x54, 0x4f, 0x22, 0x2c, 0xd3, 0x3a, 0x99, 0x20, 0x31, 0xaa, 0x32, 0x3a, 0x8f, 0x20, 0xd3, 0x20, 0x47,
      0x4f, 0x54, 0x4f] := by decide +kernel
  have hupper : Text.upper "data \"a:to\",♥:print 1+2:rem ♥ goto".toList =
      "DATA \"A:TO\",♥:PRINT 1+2:REM ♥ GOTO".toList := by decide +kernel
  have htoken : (lexemes .keywords (Text.upper "data \"a:to\",♥:print 1+2:rem ♥ goto".toList)).all
      (fun l => !l.looksLikeToken) = true := by decide +kernel
  have htoken : ∀ l ∈ lexemes .keywords (Text.upper "data \"a:to\",♥:print 1+2:rem ♥ goto".toList),
      l.looksLikeToken = false := by simpa using List.all_eq_true.mp htoken
  refine ⟨_, h, rfl, htoken, ?_⟩
  rw [detokenize_tokenizeBody h htoken, hupper]

end Asm6502.BasicV2

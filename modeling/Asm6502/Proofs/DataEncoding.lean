import Asm6502.Proofs.CharacterCodes
import Asm6502.Proofs.Legibility

/-! Data are encoded exactly.

The four encoders of data take one element after another, a character or a number, and stop at the
first that has no code (`Content.encode_eq_gather`). A character takes one byte, a number one byte or
two, so the bytes can be cut up and read again: they tell the numbers, the PETSCII text, and of a text
in screen codes the capitals (`Content.decode?_of_encode`). A code is looked up for the character it
shows and for nothing else, so what is shown decides the bytes in turn (`Content.encode_eq_of_shown`).
`data_exact` puts together which contents are accepted, what the others are refused for, and when the
bytes of two contents agree. -/
namespace Asm6502

/-! ### Elements -/

/-- What the table of a character set has for a character. -/
def Charset.tableCode? : Charset → Char → Option UInt8
  | petscii, c => petsciiCode c.toNat
  | screen, c => screenCode c.toNat

theorem Charset.encodeChar_eq (charset : Charset) (c : Char) :
    charset.encodeChar c = charset.tableCode? (charset.shown c) := by
  cases charset with
  | petscii => rfl
  | screen => exact encodeChar_screen c

/-- What content is made of. -/
inductive Element where
  | character (c : Char)
  | number (n : Int)

def Content.elements : Content → List Element
  | text s => s.toList.map .character
  | numbers ns => ns.map .number

/-- Text is written in characters and numbers are written as bytes or words. -/
def Content.Supports (mode : DataMode) : Content → Prop
  | text _ => mode = .plain ∨ mode = .screen
  | numbers _ => mode = .plain ∨ mode = .word

namespace DataMode

/-- The character set of text in a mode. -/
def charset : DataMode → Charset
  | screen => .screen
  | _ => .petscii

/-- The largest number in a mode. -/
def maximum : DataMode → Int
  | word => 0xffff
  | _ => 0xff

/-- The number of bytes of a number in a mode. -/
def width : DataMode → Nat
  | word => 2
  | _ => 1

end DataMode

namespace Element

/-- Does the element have a code? A character has to be in the table of its set, for screen codes in
upper case, and a number has to fit. -/
def Encodable (mode : DataMode) : Element → Prop
  | character c => (mode.charset.tableCode? (mode.charset.shown c)).isSome = true
  | number n => 0 ≤ n ∧ n ≤ mode.maximum

/-- What an element without a code is refused for: it is named as it was given. -/
def fault (mode : DataMode) : Element → DirectiveError
  | character c => .invalidCharacter c mode.charset
  | number n => if mode = .word then .invalidWord n else .invalidByte n

/-- The bytes of an element. -/
def code? (mode : DataMode) : Element → Option (List UInt8)
  | character c => (mode.charset.tableCode? (mode.charset.shown c)).map fun code => [code]
  | number n =>
    if 0 ≤ n ∧ n ≤ mode.maximum then
      some (if mode = .word then Word.littleEndian n.toNat else [UInt8.ofNat n.toNat])
    else none

theorem isSome_code? (mode : DataMode) (x : Element) : (x.code? mode).isSome = true ↔ x.Encodable mode := by
  cases x with
  | character c => rw [code?, Encodable, Option.isSome_map]
  | number n => simp [code?, Encodable]

theorem code?_number {mode : DataMode} {n : Int} (h : (number n).Encodable mode) : code? mode (number n) =
    some (if mode = .word then Word.littleEndian n.toNat else [UInt8.ofNat n.toNat]) :=
  if_pos h

/-- The number of bytes of an element: only numbers take the width of their mode. -/
def width (mode : DataMode) : Element → Nat
  | character _ => 1
  | number _ => mode.width

theorem length_code {mode : DataMode} {x : Element} {code : List UInt8} (h : x.code? mode = some code) :
    code.length = x.width mode := by
  cases x with
  | character c =>
    obtain ⟨byte, -, rfl⟩ := Option.map_eq_some_iff.mp h
    rfl
  | number n =>
    rw [code?] at h
    split at h
    · cases h
      cases mode <;> rfl
    · cases h

/-- The bytes of elements one behind another. -/
def codes (mode : DataMode) (xs : List Element) : List UInt8 := xs.flatMap fun x => (x.code? mode).getD []

theorem codes_cons {mode : DataMode} {x : Element} {code : List UInt8} (h : x.code? mode = some code)
    (xs : List Element) : codes mode (x :: xs) = code ++ codes mode xs := by
  rw [codes, List.flatMap_cons, h]
  rfl

end Element

/-! ### Encoding -/

/-- The codes of elements one behind another, up to the first that has none. -/
def gather {α : Type} (code? : α → Option (List UInt8)) (fault : α → DirectiveError) :
    List α → Except DirectiveError (List UInt8)
  | [] => .ok []
  | a :: rest =>
    match code? a with
    | some code => do
      let bytes ← gather code? fault rest
      return code ++ bytes
    | none => .error (fault a)

theorem gather_map {α β : Type} (code? : β → Option (List UInt8)) (fault : β → DirectiveError)
    (f : α → β) (as : List α) :
    gather code? fault (as.map f) = gather (fun a => code? (f a)) (fun a => fault (f a)) as := by
  induction as with
  | nil => rfl
  | cons a rest ih => simp only [List.map_cons, gather, ih]

theorem gather_eq {α : Type} (code? : α → Option (List UInt8)) (fault : α → DirectiveError)
    (as : List α) : gather code? fault as = match as.find? fun a => (code? a).isNone with
      | some a => .error (fault a)
      | none => .ok (as.flatMap fun a => (code? a).getD []) := by
  induction as with
  | nil => rfl
  | cons a rest ih =>
    rw [gather, List.find?_cons]
    cases hcode : code? a with
    | none => rfl
    | some code =>
      simp only [ih, Option.isNone_some, List.flatMap_cons, hcode, Option.getD_some]
      cases rest.find? fun a => (code? a).isNone <;> rfl

namespace Content

theorem encodeText_eq (mode : DataMode) (s : String) : encodeText mode.charset s =
    gather (fun c => Element.code? mode (.character c)) (fun c => Element.fault mode (.character c))
      s.toList := by
  unfold encodeText
  induction s.toList with
  | nil => rfl
  | cons c rest ih =>
    rw [Charset.encode, gather, ← ih]
    simp only [Element.code?, ← Charset.encodeChar_eq]
    cases mode.charset.encodeChar c with
    | none => rfl
    | some code => cases mode.charset.encode rest <;> rfl

theorem encodeBytes_eq (ns : List Int) : encodeBytes ns =
    gather (fun n => Element.code? .plain (.number n)) (fun n => Element.fault .plain (.number n)) ns := by
  induction ns with
  | nil => rfl
  | cons n rest ih =>
    by_cases hn : 0 ≤ n ∧ n ≤ 0xff
    · have hcode : Element.code? .plain (.number n) = some [UInt8.ofNat n.toNat] := if_pos hn
      rw [encodeBytes, if_pos hn, gather, hcode, ← ih]
      rfl
    · have hcode : Element.code? .plain (.number n) = none := if_neg hn
      rw [encodeBytes, if_neg hn, gather, hcode]
      rfl

theorem encodeWords_eq (ns : List Int) : encodeWords ns =
    gather (fun n => Element.code? .word (.number n)) (fun n => Element.fault .word (.number n)) ns := by
  induction ns with
  | nil => rfl
  | cons n rest ih =>
    by_cases hn : 0 ≤ n ∧ n ≤ 0xffff
    · have hcode : Element.code? .word (.number n) = some (Word.littleEndian n.toNat) := if_pos hn
      rw [encodeWords, if_pos hn, gather, hcode, ← ih]
    · have hcode : Element.code? .word (.number n) = none := if_neg hn
      rw [encodeWords, if_neg hn, gather, hcode]
      rfl

/-- **Content in a mode that goes with it** is encoded element by element. -/
theorem encode_eq_gather {content : Content} {mode : DataMode} (h : content.Supports mode) :
    content.encode mode = gather (Element.code? mode) (Element.fault mode) content.elements := by
  cases content with
  | text s =>
    rw [elements, gather_map]
    rcases h with rfl | rfl
    · exact encodeText_eq .plain s
    · exact encodeText_eq .screen s
  | numbers ns =>
    rw [elements, gather_map]
    rcases h with rfl | rfl
    · exact encodeBytes_eq ns
    · exact encodeWords_eq ns

theorem encode_of_unsupported {content : Content} {mode : DataMode} (h : ¬ content.Supports mode) :
    content.encode mode = .error (.unsupportedDataMode mode) := by
  cases content <;> cases mode <;> simp [Supports] at h <;> rfl

theorem encode_eq_ok {content : Content} {mode : DataMode} {bytes : List UInt8} :
    content.encode mode = .ok bytes ↔ content.Supports mode ∧
      (∀ x ∈ content.elements, x.Encodable mode) ∧ bytes = Element.codes mode content.elements := by
  by_cases hs : content.Supports mode
  · rw [encode_eq_gather hs, gather_eq]
    cases hfind : content.elements.find? fun x => (x.code? mode).isNone with
    | none =>
      have hall : ∀ x ∈ content.elements, x.Encodable mode := by
        intro x hx
        rw [← Element.isSome_code?, Option.isSome_iff_ne_none]
        simpa using List.find?_eq_none.mp hfind x hx
      simp only [Except.ok.injEq, hs, true_and]
      exact ⟨fun h => ⟨hall, h.symm⟩, fun h => h.2.symm⟩
    | some x =>
      have hx : ¬ x.Encodable mode := by
        rw [← Element.isSome_code?]
        simpa using List.find?_some hfind
      simp only [reduceCtorEq, false_iff]
      exact fun h => hx (h.2.1 x (List.mem_of_find?_eq_some hfind))
  · rw [encode_of_unsupported hs]
    simp [hs]

/-- The first element without a code is the one that is named. -/
theorem encode_eq_error {content : Content} {mode : DataMode} (hs : content.Supports mode)
    {before after : List Element} {x : Element} (hx : content.elements = before ++ x :: after)
    (hbefore : ∀ y ∈ before, y.Encodable mode) (hbad : ¬ x.Encodable mode) :
    content.encode mode = .error (x.fault mode) := by
  have hfind : content.elements.find? (fun x => (x.code? mode).isNone) = some x := by
    refine List.find?_eq_some_iff_append.mpr ⟨?_, before, after, hx, fun y hy => ?_⟩
    · rw [← Element.isSome_code?] at hbad
      simpa using hbad
    · have hy := (Element.isSome_code? mode y).mpr (hbefore y hy)
      simpa [Option.isSome_iff_ne_none] using hy
  rw [encode_eq_gather hs, gather_eq, hfind]

end Content

/-! ### Decoding -/

/-- The words of some bytes, low byte first. -/
def Word.decode? : List UInt8 → Option (List Int)
  | [] => some []
  | [_] => none
  | low :: high :: rest => (decode? rest).map ((low.toNat + 256 * high.toNat : Nat) :: ·)

namespace Content

/-- What bytes are the code of, if they are text or numbers in a mode. -/
def decode? (isText : Bool) (mode : DataMode) (bytes : List UInt8) : Option Content :=
  match isText, mode with
  | true, _ => (bytes.mapM mode.charset.char?).map fun cs => text (String.ofList cs)
  | false, .word => (Word.decode? bytes).map numbers
  | false, _ => some (ofBytes bytes)

/-- What the code of some content stands for: in screen codes, capitals. -/
def shown (mode : DataMode) : Content → Content
  | text s => text (String.ofList (s.toList.map mode.charset.shown))
  | numbers ns => numbers ns

theorem shown_of_ne_screen {mode : DataMode} (h : mode ≠ .screen) (content : Content) :
    content.shown mode = content := by
  cases content with
  | numbers ns => rfl
  | text s =>
    have hset : mode.charset.shown = id := by
      cases mode with
      | screen => exact absurd rfl h
      | _ => rfl
    rw [shown, hset, List.map_id, String.ofList_toList]

end Content

namespace Element

/-- Codes are read as the characters they show. -/
theorem mapM_codes {mode : DataMode} {cs : List Char} (h : ∀ c ∈ cs, (character c).Encodable mode) :
    (codes mode (cs.map character)).mapM mode.charset.char? = some (cs.map mode.charset.shown) := by
  induction cs with
  | nil => rfl
  | cons c rest ih =>
    obtain ⟨hc, hrest⟩ := List.forall_mem_cons.mp h
    obtain ⟨code, hcode⟩ := Option.isSome_iff_exists.mp hc
    have hbyte : code? mode (character c) = some [code] := by rw [code?, hcode, Option.map_some]
    have hshown := Charset.char?_shown (mode.charset.encodeChar_eq c ▸ hcode)
    rw [List.map_cons, codes_cons hbyte, List.singleton_append, List.mapM_cons, hshown, ih hrest]
    rfl

/-- Every character of a text has one byte of the code. -/
theorem map_some_codes {mode : DataMode} {cs : List Char} (h : ∀ c ∈ cs, (character c).Encodable mode) :
    (codes mode (cs.map character)).map some = cs.map mode.charset.encodeChar := by
  induction cs with
  | nil => rfl
  | cons c rest ih =>
    obtain ⟨hc, hrest⟩ := List.forall_mem_cons.mp h
    obtain ⟨code, hcode⟩ := Option.isSome_iff_exists.mp hc
    have hbyte : code? mode (character c) = some [code] := by rw [code?, hcode, Option.map_some]
    have hchar : mode.charset.encodeChar c = some code := (mode.charset.encodeChar_eq c).trans hcode
    rw [List.map_cons, codes_cons hbyte, List.map_append, ih hrest]
    show some code :: _ = mode.charset.encodeChar c :: _
    rw [hchar]
    rfl

theorem ofBytes_codes {ns : List Int} (h : ∀ n ∈ ns, (number n).Encodable .plain) :
    Content.ofBytes (codes .plain (ns.map number)) = .numbers ns := by
  unfold Content.ofBytes
  congr 1
  induction ns with
  | nil => rfl
  | cons n rest ih =>
    obtain ⟨hn, hrest⟩ := List.forall_mem_cons.mp h
    have hle : n ≤ 0xff := hn.2
    have hvalue : ((UInt8.ofNat n.toNat).toNat : Int) = n := by
      rw [UInt8.toNat_ofNat']
      have := hn.1
      omega
    rw [List.map_cons, codes_cons (code?_number hn), if_neg (by decide), List.singleton_append,
      List.map_cons, hvalue, ih hrest]

theorem words_codes {ns : List Int} (h : ∀ n ∈ ns, (number n).Encodable .word) :
    Word.decode? (codes .word (ns.map number)) = some ns := by
  induction ns with
  | nil => rfl
  | cons n rest ih =>
    obtain ⟨hn, hrest⟩ := List.forall_mem_cons.mp h
    have hle : n ≤ 0xffff := hn.2
    obtain ⟨low, high, hword, hvalue⟩ := Word.littleEndian_value (n := n.toNat) (by omega)
    rw [List.map_cons, codes_cons (code?_number hn), if_pos rfl, hword]
    show (Word.decode? (codes .word (rest.map number))).map _ = _
    rw [ih hrest, hvalue, Int.toNat_of_nonneg hn.1]
    rfl

end Element

namespace Content

/-- **Bytes are read as what they show.** -/
theorem decode?_of_encode {content : Content} {mode : DataMode} {bytes : List UInt8}
    (h : content.encode mode = .ok bytes) :
    decode? content.isText mode bytes = some (content.shown mode) := by
  obtain ⟨hs, hall, rfl⟩ := encode_eq_ok.mp h
  cases content with
  | text s =>
    have hcs : ∀ c ∈ s.toList, (Element.character c).Encodable mode := fun c hc =>
      hall _ (List.mem_map_of_mem hc)
    show (List.mapM mode.charset.char? (Element.codes mode (s.toList.map .character))).map _ = _
    rw [Element.mapM_codes hcs]
    rfl
  | numbers ns =>
    have hns : ∀ n ∈ ns, (Element.number n).Encodable mode := fun n hn =>
      hall _ (List.mem_map_of_mem hn)
    rcases hs with rfl | rfl
    · exact congrArg some (Element.ofBytes_codes hns)
    · show (Word.decode? (Element.codes .word (ns.map .number))).map numbers = _
      rw [Element.words_codes hns]
      rfl

/-- What is shown decides the bytes: they are looked up for the characters that a code shows. -/
theorem encode_eq_of_shown {content other : Content} {mode : DataMode} {bytes others : List UInt8}
    (h : content.encode mode = .ok bytes) (ho : other.encode mode = .ok others)
    (hshown : content.shown mode = other.shown mode) : bytes = others := by
  obtain ⟨-, -, rfl⟩ := encode_eq_ok.mp h
  obtain ⟨-, -, rfl⟩ := encode_eq_ok.mp ho
  cases content with
  | numbers ns =>
    cases other with
    | text t => cases hshown
    | numbers ms =>
      cases hshown
      rfl
  | text s =>
    cases other with
    | numbers ms => cases hshown
    | text t =>
      -- an element is looked up for what it shows, so the codes of a text are those of its capitals
      have hcodes : ∀ cs : List Char, Element.codes mode (cs.map .character) =
          (cs.map mode.charset.shown).flatMap fun c =>
            ((mode.charset.tableCode? c).map fun code => [code]).getD [] := by
        intro cs
        rw [Element.codes, List.flatMap_map, List.flatMap_map]
        rfl
      have hlists := congrArg String.toList (Content.text.inj hshown)
      rw [String.toList_ofList, String.toList_ofList] at hlists
      rw [elements, elements, hcodes, hcodes, hlists]

theorem length_of_encode {content : Content} {mode : DataMode} {bytes : List UInt8}
    (h : content.encode mode = .ok bytes) : bytes.length = mode.width * content.elements.length := by
  obtain ⟨hs, hall, rfl⟩ := encode_eq_ok.mp h
  have hwidth : ∀ x ∈ content.elements, ((x.code? mode).getD []).length = mode.width := by
    intro x hx
    obtain ⟨code, hcode⟩ := Option.isSome_iff_exists.mp ((x.isSome_code? mode).mpr (hall x hx))
    rw [hcode, Option.getD_some, Element.length_code hcode]
    cases content with
    | text s =>
      obtain ⟨c, -, rfl⟩ := List.mem_map.mp hx
      rcases hs with rfl | rfl <;> rfl
    | numbers ns =>
      obtain ⟨n, -, rfl⟩ := List.mem_map.mp hx
      rfl
  rw [Element.codes, List.length_flatMap, List.map_congr_left hwidth, List.map_const',
    List.sum_replicate_nat, Nat.mul_comm]

end Content

/-! ### Data -/

/-- Data are made of what can be encoded, and carry its bytes. -/
theorem Data.ofContent_eq_ok {content : Content} {mode : DataMode} {d : Data} :
    Data.ofContent content mode = .ok d ↔ d.content = content ∧ d.mode = mode := by
  unfold ofContent
  constructor
  · intro h
    split at h
    · cases h
      exact ⟨rfl, rfl⟩
    · cases h
  · rintro ⟨rfl, rfl⟩
    split
    next bytes hok =>
      have hbytes : bytes = d.bytes := Except.ok.inj (hok.symm.trans d.encoded)
      subst hbytes
      rfl
    next e herror => cases herror.symm.trans d.encoded

theorem Data.ofContent_eq_error {content : Content} {mode : DataMode} {e : DirectiveError} :
    Data.ofContent content mode = .error e ↔ content.encode mode = .error e := by
  unfold ofContent
  constructor
  · intro h
    split at h
    · cases h
    · cases h
      assumption
  · intro h
    split
    next bytes hok => cases hok.symm.trans h
    next e' herror => exact congrArg _ (Except.error.inj (herror.symm.trans h))

/-- What data made of some content in some mode have to be. -/
structure Content.EncodesExactly (content : Content) (mode : DataMode) : Prop where
  /-- Data are made if the mode goes with the content and every element has a code. -/
  accepted : (∃ d, Data.ofContent content mode = .ok d) ↔
    content.Supports mode ∧ ∀ x ∈ content.elements, x.Encodable mode
  /-- A mode that does not go with the content is refused, whatever the elements. -/
  unsupported : ¬ content.Supports mode →
    Data.ofContent content mode = .error (.unsupportedDataMode mode)
  /-- Otherwise the first element without a code is named. -/
  first : content.Supports mode → ∀ before x after, content.elements = before ++ x :: after →
    (∀ y ∈ before, y.Encodable mode) → ¬ x.Encodable mode →
      Data.ofContent content mode = .error (x.fault mode)
  /-- The data keep what they are made of. -/
  kept : ∀ d, Data.ofContent content mode = .ok d → d.content = content ∧ d.mode = mode
  /-- Every element takes as many bytes as the mode says. -/
  length : ∀ d, Data.ofContent content mode = .ok d →
    d.bytes.length = mode.width * content.elements.length
  /-- The bytes tell what they show. -/
  decoded : ∀ d, Data.ofContent content mode = .ok d →
    decode? content.isText mode d.bytes = some (content.shown mode)
  /-- That is the content itself, except in screen codes. -/
  itself : mode ≠ .screen → content.shown mode = content
  /-- Bytes agree for contents that show the same, and for no others. -/
  equal : ∀ other d e, other.isText = content.isText → Data.ofContent content mode = .ok d →
    Data.ofContent other mode = .ok e → (d.bytes = e.bytes ↔ content.shown mode = other.shown mode)

/-- **Data are encoded exactly**, and their bytes can be read again. -/
theorem data_exact (content : Content) (mode : DataMode) : content.EncodesExactly mode where
  accepted := by
    constructor
    · rintro ⟨d, hd⟩
      obtain ⟨rfl, rfl⟩ := Data.ofContent_eq_ok.mp hd
      obtain ⟨hs, hall, -⟩ := Content.encode_eq_ok.mp d.encoded
      exact ⟨hs, hall⟩
    · rintro ⟨hs, hall⟩
      exact ⟨⟨content, mode, _, Content.encode_eq_ok.mpr ⟨hs, hall, rfl⟩⟩,
        Data.ofContent_eq_ok.mpr ⟨rfl, rfl⟩⟩
  unsupported hs := Data.ofContent_eq_error.mpr (Content.encode_of_unsupported hs)
  first hs before x after hx hbefore hbad :=
    Data.ofContent_eq_error.mpr (Content.encode_eq_error hs hx hbefore hbad)
  kept d hd := Data.ofContent_eq_ok.mp hd
  length d hd := by
    obtain ⟨rfl, rfl⟩ := Data.ofContent_eq_ok.mp hd
    exact Content.length_of_encode d.encoded
  decoded d hd := by
    obtain ⟨rfl, rfl⟩ := Data.ofContent_eq_ok.mp hd
    exact Content.decode?_of_encode d.encoded
  itself hmode := Content.shown_of_ne_screen hmode content
  equal other d e hkind hd he := by
    obtain ⟨rfl, rfl⟩ := Data.ofContent_eq_ok.mp hd
    obtain ⟨rfl, hmode⟩ := Data.ofContent_eq_ok.mp he
    have hencoded := hmode ▸ e.encoded
    constructor
    · intro hbytes
      have hread := Content.decode?_of_encode d.encoded
      have hreads := Content.decode?_of_encode hencoded
      rw [hkind, ← hbytes, hread] at hreads
      exact Option.some.inj hreads
    · exact Content.encode_eq_of_shown d.encoded hencoded

end Asm6502

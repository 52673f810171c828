import Mathlib.Algebra.GroupWithZero.Nat
import Asm6502.Proofs.Detokenizing
import Asm6502.Proofs.Outcome
import Asm6502.Proofs.ProgramLines

/-! Which characters a listing may hold.

Whatever a character is read as, it is refused exactly if it is not in PETSCII (`failure_tokens`). But
statements are put in upper case first, and there is one character of PETSCII whose upper case is not
in PETSCII: the small pi, in whose place the capital is refused (`upperChar_petscii`). `tokenize_petscii`
says that this is the only exception: every listing of numbered lines that is written in the other
characters and fits is accepted, and an unknown character is reported only where a small pi or a
character outside of PETSCII stands. -/
namespace Asm6502.BasicV2

/-! ### Refused characters -/

/-- Is the character in PETSCII? -/
def inPetscii (c : Char) : Bool := (Charset.petscii.encodeChar c).isSome

theorem failure_petscii (c : Char) :
    failure? (petscii c) = if inPetscii c then none else some (.unknownCharacter c) := by
  unfold petscii inPetscii
  cases Charset.petscii.encodeChar c <;> rfl

/-- Keywords are spelled in PETSCII. -/
theorem find?_spelling {k : Keyword} (h : k ∈ keywords) :
    (k.spelling.toList.find? fun c => !inPetscii c) = none := by
  have hall : ∀ k ∈ keywords, (k.spelling.toList.find? fun c => !inPetscii c) = none := by
    decide +kernel
  exact hall k h

theorem Follow.failure {reading : Reading} {ls : List Lexeme} (h : Follow reading ls) :
    failure? (ls.mapM Lexeme.encode) =
      ((ls.flatMap Lexeme.text).find? fun c => !inPetscii c).map .unknownCharacter := by
  induction h with
  | nil => rfl
  | keyword hmem _ ih =>
    rw [List.mapM_cons, failure?_pair, ih, List.flatMap_cons, List.find?_append, Lexeme.text,
      find?_spelling hmem]
    rfl
  | @character reading c rest _ ih =>
    rw [List.mapM_cons, failure?_pair, ih, List.flatMap_cons, List.find?_append, Lexeme.encode,
      failure_petscii, Lexeme.text]
    cases hc : inPetscii c <;> simp [hc]

/-- **The first character outside of PETSCII is refused**, in whatever reading it is met. -/
theorem failure_tokens (reading : Reading) (cs : List Char) :
    failure? (tokens reading cs) = (cs.find? fun c => !inPetscii c).map .unknownCharacter := by
  rw [tokens_eq, (follow_lexemes reading cs).failure, flatMap_text_lexemes]

/-! ### Upper case -/

/-- **The small pi is the only character of PETSCII** whose upper case is not in PETSCII. -/
theorem upperChar_petscii {c : Char} (h : inPetscii c = true) :
    ((Text.upperChar c).find? fun u => !inPetscii u) = if c = 'π' then some 'Π' else none := by
  have hprintable : ∀ n < 0x80, 0x20 ≤ n →
      ((Text.upperChar (Char.ofNat n)).find? fun u => !inPetscii u) =
        if Char.ofNat n = 'π' then some 'Π' else none := by decide +kernel
  have hextra : ∀ entry ∈ petsciiExtras,
      ((Text.upperChar (Char.ofNat entry.1)).find? fun u => !inPetscii u) =
        if Char.ofNat entry.1 = 'π' then some 'Π' else none := by decide +kernel
  obtain ⟨code, hcode⟩ := Option.isSome_iff_exists.mp h
  rcases encodeChar_cases hcode with ⟨hc, hlow, hhigh⟩ | hmem
  · have hlow : 0x20 ≤ code.toNat := UInt8.le_iff_toNat_le.mp hlow
    have hhigh : code.toNat ≤ 0x7f := UInt8.le_iff_toNat_le.mp hhigh
    have hchar := hprintable c.toNat (by omega) (by omega)
    rw [Char.ofNat_toNat] at hchar
    exact hchar
  · have hchar := hextra _ hmem
    rw [Char.ofNat_toNat] at hchar
    exact hchar

/-- What a body in PETSCII is refused for. -/
theorem find?_upper {body : List Char} (h : ∀ c ∈ body, inPetscii c = true) :
    ((Text.upper body).find? fun u => !inPetscii u) = if 'π' ∈ body then some 'Π' else none := by
  induction body with
  | nil => rfl
  | cons c rest ih =>
    obtain ⟨hc, hrest⟩ := List.forall_mem_cons.mp h
    rw [Text.upper, List.flatMap_cons, List.find?_append, upperChar_petscii hc, ← Text.upper, ih hrest]
    by_cases hpi : c = 'π'
    · simp [hpi]
    · simp [hpi, Ne.symm hpi]

/-! ### Lines -/

/-- The bytes of a line in memory: link, number, a byte for each lexeme, and a zero. -/
def lineSize (text : List Char) : Nat :=
  2 + 2 + (lexemes .keywords (wording text).statements).length + 1

/-- The address behind lines that are placed from an address on. -/
def extent (address : Nat) (texts : List (List Char)) : Nat := address + (texts.map lineSize).sum

theorem length_of_mapM_encode {ls : List Lexeme} {bytes : List UInt8}
    (h : ls.mapM Lexeme.encode = .ok bytes) : bytes.length = ls.length := by
  induction ls generalizing bytes with
  | nil =>
    cases h
    rfl
  | cons l ls ih =>
    obtain ⟨byte, rest, _, hrest, rfl⟩ := mapM_encode_cons h
    rw [List.length_cons, List.length_cons, ih hrest]

theorem Line.size_of_read {index : Nat} {text : List Char} {line : Line}
    (h : Line.read index text = .ok line) : line.size = lineSize text := by
  have hbody := (Line.read_eq_ok h).1.body
  unfold tokenizeBody at hbody
  rw [tokens_eq] at hbody
  rw [Line.size, length_of_mapM_encode hbody]
  rfl

/-- A line that begins with a number in range and is written in PETSCII. -/
structure IsWritten (text : List Char) : Prop where
  digits : text.takeWhile Char.isDigit ≠ []
  number : decimal (text.takeWhile Char.isDigit) ≤ maxLineNumber
  body : ∀ c ∈ bodyText text, inPetscii c = true

instance : DecidablePred IsWritten := fun text =>
  decidable_of_iff (text.takeWhile Char.isDigit ≠ [] ∧
      decimal (text.takeWhile Char.isDigit) ≤ maxLineNumber ∧ (bodyText text).all inPetscii = true)
    ⟨fun ⟨hdigits, hnumber, hbody⟩ => ⟨hdigits, hnumber, List.all_eq_true.mp hbody⟩,
      fun h => ⟨h.digits, h.number, List.all_eq_true.mpr h.body⟩⟩

/-- What a line in PETSCII is refused for. -/
theorem IsWritten.failure {text : List Char} (h : IsWritten text) (index : Nat) :
    failure? (Line.read index text) =
      if 'π' ∈ bodyText text then some (.unknownCharacter 'Π') else none := by
  have hdigits : ¬ (wording text).digits.isEmpty = true := fun hnil =>
    h.digits (List.isEmpty_iff.mp hnil)
  have hnumber : decimal (wording text).digits ≤ maxLineNumber := h.number
  have htokens : failure? (tokens .keywords (wording text).statements) =
      (if 'π' ∈ bodyText text then some 'Π' else none).map .unknownCharacter := by
    rw [failure_tokens, ← find?_upper h.body]
    rfl
  rw [Line.read_eq, Wording.read, if_neg hdigits, if_pos hnumber, failure?_map, htokens]
  split <;> rfl

/-- **Lines that fit are refused for the first of them that cannot be read.** -/
theorem failure_chainLines {address : Nat} {ls : List (Nat × List Char)}
    (h : extent address (ls.map Prod.snd) ≤ 0xffff) :
    failure? (chainLines address ls) = ls.findSome? fun p => failure? (Line.read p.1 p.2) := by
  induction ls generalizing address with
  | nil => rfl
  | cons p rest ih =>
    obtain ⟨index, text⟩ := p
    have hextent : extent (address + lineSize text) (rest.map Prod.snd) ≤ 0xffff := by
      simp only [extent, List.map_cons, List.sum_cons] at h ⊢
      omega
    have hlater : ∀ line, Line.read index text = .ok line →
        failure? (if address + line.size > 0xffff then .error .programOverflow
          else (chainLines (address + line.size) rest).map (line.bytes (address + line.size) ++ ·)) =
        rest.findSome? fun p => failure? (Line.read p.1 p.2) := by
      intro line hline
      have hfits : ¬ address + lineSize text > 0xffff := by
        simp only [extent] at hextent
        omega
      rw [Line.size_of_read hline, if_neg hfits, failure?_map, ih hextent]
    rw [chainLines, failure?_bind hlater, List.findSome?_cons]
    cases failure? (Line.read index text) <;> rfl

/-- An unknown character stands in some line. -/
theorem exists_read_of_unknown {address : Nat} {ls : List (Nat × List Char)} {c : Char}
    (h : chainLines address ls = .error (.unknownCharacter c)) :
    ∃ p ∈ ls, Line.read p.1 p.2 = .error (.unknownCharacter c) := by
  induction ls generalizing address with
  | nil => cases h
  | cons p rest ih =>
    obtain ⟨index, text⟩ := p
    rw [chainLines] at h
    cases hread : Line.read index text with
    | error e =>
      rw [hread] at h
      cases h
      exact ⟨_, List.mem_cons_self .., hread⟩
    | ok line =>
      rw [hread] at h
      change (if address + line.size > 0xffff then .error .programOverflow
        else (chainLines (address + line.size) rest).map (line.bytes (address + line.size) ++ ·)) = _ at h
      split at h
      · cases h
      · rw [← failure?_eq_some, failure?_map, failure?_eq_some] at h
        obtain ⟨p, hp, hread⟩ := ih h
        exact ⟨p, List.mem_cons_of_mem _ hp, hread⟩

/-- A line is refused for an unknown character only if its statements hold one, or a small pi. -/
theorem exists_of_read_unknown {index : Nat} {text : List Char} {c : Char}
    (h : Line.read index text = .error (.unknownCharacter c)) : ∃ d ∈ bodyText text,
      c ∈ Text.upperChar d ∧ inPetscii c = false ∧ (inPetscii d = false ∨ d = 'π') := by
  rw [Line.read_eq, Wording.read] at h
  split at h
  · cases h
  · split at h
    · rw [← failure?_eq_some, failure?_map, failure_tokens] at h
      obtain ⟨u, hfind, hu⟩ := Option.map_eq_some_iff.mp h
      cases hu
      have hno : inPetscii c = false := by simpa using List.find?_some hfind
      obtain ⟨d, hd, hc⟩ := List.mem_flatMap.mp (List.mem_of_find?_eq_some hfind)
      refine ⟨d, hd, hc, hno, ?_⟩
      cases hin : inPetscii d with
      | false => exact .inl rfl
      | true =>
        refine .inr (by_contra fun hpi => ?_)
        have hnone := upperChar_petscii hin
        rw [if_neg hpi] at hnone
        have := List.find?_eq_none.mp hnone c hc
        simp [hno] at this
    · cases h

/-- **Every character of PETSCII but the small pi is accepted.** A listing of numbered lines that is
written in PETSCII and fits is tokenized, unless it holds a small pi, which is reported as its capital;
and an unknown character is reported only where a small pi or a character outside of PETSCII stands. -/
theorem tokenize_petscii (listing : String) (origin : UInt16) :
    ((∀ text ∈ programLines (splitLines listing.toList), IsWritten text) →
      extent origin.toNat (programLines (splitLines listing.toList)) ≤ 0xffff →
      ((∀ text ∈ programLines (splitLines listing.toList), 'π' ∉ bodyText text) →
        ∃ bytes, tokenize listing origin = .ok bytes) ∧
      ((∃ text ∈ programLines (splitLines listing.toList), 'π' ∈ bodyText text) →
        tokenize listing origin = .error (.unknownCharacter 'Π'))) ∧
    (∀ c, tokenize listing origin = .error (.unknownCharacter c) →
      ∃ text ∈ programLines (splitLines listing.toList), ∃ d ∈ bodyText text,
        c ∈ Text.upperChar d ∧ inPetscii c = false ∧ (inPetscii d = false ∨ d = 'π')) := by
  have hlines := map_snd_positioned 0 (splitLines listing.toList)
  unfold tokenize
  rw [chain_eq, ← hlines]
  constructor
  · intro hwritten hfits
    -- each line is refused for a small pi or not at all
    have hread : ∀ p ∈ positioned 0 (splitLines listing.toList), failure? (Line.read p.1 p.2) =
        if 'π' ∈ bodyText p.2 then some (.unknownCharacter 'Π') else none := fun p hp =>
      (hwritten p.2 (List.mem_map_of_mem hp)).failure p.1
    constructor
    · intro hpi
      rw [← failure?_eq_none, failure_chainLines hfits, List.findSome?_eq_none_iff]
      intro p hp
      rw [hread p hp, if_neg (hpi p.2 (List.mem_map_of_mem hp))]
    · rintro ⟨text, htext, hpi⟩
      obtain ⟨p, hp, rfl⟩ := List.mem_map.mp htext
      rw [← failure?_eq_some, failure_chainLines hfits]
      cases hfound : List.findSome? (fun p => failure? (Line.read p.1 p.2))
          (positioned 0 (splitLines listing.toList)) with
      | none =>
        have hnone := List.findSome?_eq_none_iff.mp hfound p hp
        rw [hread p hp, if_pos hpi] at hnone
        cases hnone
      | some e =>
        obtain ⟨q, hq, hfailure⟩ := List.exists_of_findSome?_eq_some hfound
        rw [hread q hq] at hfailure
        split at hfailure
        · exact hfailure.symm
        · cases hfailure
  · intro c hc
    obtain ⟨p, hp, hread⟩ := exists_read_of_unknown hc
    exact ⟨p.2, List.mem_map_of_mem hp, exists_of_read_unknown hread⟩

theorem heart_accepted :
    (∀ text ∈ programLines (splitLines "10 print \"♥~\"\n20 rem ♠".toList), IsWritten text) ∧
    (∀ text ∈ programLines (splitLines "10 print \"♥~\"\n20 rem ♠".toList), 'π' ∉ bodyText text) ∧
    ∃ bytes, tokenize "10 print \"♥~\"\n20 rem ♠" 0x0801 = .ok bytes := by
  have hextent : extent (0x0801 : UInt16).toNat
      (programLines (splitLines "10 print \"♥~\"\n20 rem ♠".toList)) = 0x0814 := by decide +kernel
  have hwritten : ∀ text ∈ programLines (splitLines "10 print \"♥~\"\n20 rem ♠".toList),
      IsWritten text := by decide +kernel
  have hpi : ∀ text ∈ programLines (splitLines "10 print \"♥~\"\n20 rem ♠".toList),
      'π' ∉ bodyText text := by decide +kernel
  have haccepted := (tokenize_petscii "10 print \"♥~\"\n20 rem ♠" 0x0801).1 hwritten
    (by rw [hextent]; decide)
  exact ⟨hwritten, hpi, haccepted.1 hpi⟩

/-- **The small pi is refused**, although PETSCII has a code for it and the listing fits. -/
theorem small_pi_refused :
    (∀ text ∈ programLines (splitLines "10 PRINT π".toList), IsWritten text) ∧
    extent 0x0801 (programLines (splitLines "10 PRINT π".toList)) ≤ 0xffff ∧
    tokenize "10 PRINT π" 0x0801 = .error (.unknownCharacter 'Π') := by
  have hextent : extent 0x0801 (programLines (splitLines "10 PRINT π".toList)) = 0x0809 := by decide +kernel
  refine ⟨by decide +kernel, ?_, by decide +kernel⟩
  rw [hextent]
  decide

end Asm6502.BasicV2

import Asm6502.Charset

/-! Reading character codes back.

No two characters share a PETSCII code (`encodeChar_inj`), so the table can be read from right to
left. `petsciiChar?` does so, and `petsciiChar?_eq_some` says that it undoes the encoding, character
by character and code by code. A screen code stands for the capital of the character it was made from
(`Charset.shown`), and no two capitals share one: `Charset.char?_shown` says for either set that a
code is read as what it shows. -/
namespace Asm6502

/-- The character of a PETSCII code. -/
def petsciiChar? (code : UInt8) : Option Char :=
  if 0x20 ≤ code ∧ code ≤ 0x7f then some (Char.ofNat code.toNat)
  else (petsciiExtras.find? fun entry => entry.2 = code).map fun entry => Char.ofNat entry.1

/-! ### The table in both directions -/

/-- What an entry of the table has to be like for the table to be read both ways: a character beyond
the printable ones, with a code beyond theirs, and the only entry with that character or code. -/
structure IsExtra (entry : Nat × UInt8) : Prop where
  character : (Char.ofNat entry.1).toNat = entry.1
  beyond : ¬ (0x20 ≤ entry.1 ∧ entry.1 ≤ 0x7f)
  high : 0x80 ≤ entry.2
  encodes : petsciiExtras.lookup entry.1 = some entry.2
  decodes : petsciiExtras.find? (fun other => other.2 = entry.2) = some entry

theorem isExtra_of_mem {entry : Nat × UInt8} (h : entry ∈ petsciiExtras) : IsExtra entry := by
  have hall : ∀ entry ∈ petsciiExtras, (Char.ofNat entry.1).toNat = entry.1 ∧
      ¬ (0x20 ≤ entry.1 ∧ entry.1 ≤ 0x7f) ∧ 0x80 ≤ entry.2 ∧
      petsciiExtras.lookup entry.1 = some entry.2 ∧
      petsciiExtras.find? (fun other => other.2 = entry.2) = some entry := by decide +kernel
  obtain ⟨hcharacter, hbeyond, hhigh, hencodes, hdecodes⟩ := hall entry h
  exact ⟨hcharacter, hbeyond, hhigh, hencodes, hdecodes⟩

theorem mem_petsciiExtras_of_lookup {n : Nat} {code : UInt8} (h : petsciiExtras.lookup n = some code) :
    (n, code) ∈ petsciiExtras := by
  obtain ⟨before, after, hsplit, _⟩ := List.lookup_eq_some_iff.mp h
  simp [hsplit]

/-- A code is that of a printable character, or an entry of the table. -/
theorem encodeChar_cases {c : Char} {code : UInt8} (h : Charset.petscii.encodeChar c = some code) :
    (c.toNat = code.toNat ∧ 0x20 ≤ code ∧ code ≤ 0x7f) ∨ (c.toNat, code) ∈ petsciiExtras := by
  change petsciiCode c.toNat = some code at h
  unfold petsciiCode at h
  split at h
  · rename_i hprintable
    cases h
    have hcode : (UInt8.ofNat c.toNat).toNat = c.toNat := by
      rw [UInt8.toNat_ofNat']
      omega
    refine .inl ⟨hcode.symm, ?_, ?_⟩
    · rw [UInt8.le_iff_toNat_le, hcode]
      exact hprintable.1
    · rw [UInt8.le_iff_toNat_le, hcode]
      exact hprintable.2
  · exact .inr (mem_petsciiExtras_of_lookup h)

/-- **Reading PETSCII undoes writing it.** -/
theorem petsciiChar?_eq_some {c : Char} {code : UInt8} :
    petsciiChar? code = some c ↔ Charset.petscii.encodeChar c = some code := by
  constructor
  · intro h
    unfold petsciiChar? at h
    split at h
    · rename_i hcode
      cases h
      have hlow : 0x20 ≤ code.toNat := UInt8.le_iff_toNat_le.mp hcode.1
      have hhigh : code.toNat ≤ 0x7f := UInt8.le_iff_toNat_le.mp hcode.2
      have hchar : ∀ n ≤ 0x7f, (Char.ofNat n).toNat = n := by decide
      show petsciiCode (Char.ofNat code.toNat).toNat = some code
      rw [hchar _ hhigh, petsciiCode, if_pos ⟨hlow, hhigh⟩, UInt8.ofNat_toNat]
    · obtain ⟨entry, hfind, rfl⟩ := Option.map_eq_some_iff.mp h
      have hcode : entry.2 = code := by simpa using List.find?_some hfind
      have hextra := isExtra_of_mem (List.mem_of_find?_eq_some hfind)
      show petsciiCode (Char.ofNat entry.1).toNat = some code
      rw [hextra.character, petsciiCode, if_neg hextra.beyond, hextra.encodes, hcode]
  · intro h
    unfold petsciiChar?
    rcases encodeChar_cases h with ⟨hcode, hprintable⟩ | hmem
    · rw [if_pos hprintable, ← hcode, Char.ofNat_toNat]
    · have hextra := isExtra_of_mem hmem
      have htoken : ¬ (0x20 ≤ code ∧ code ≤ 0x7f) := fun h =>
        absurd (UInt8.le_trans hextra.high h.2) (by decide)
      rw [if_neg htoken, hextra.decodes]
      simp

/-- **No two characters share a code.** -/
theorem encodeChar_inj {c d : Char} {code : UInt8} (hc : Charset.petscii.encodeChar c = some code)
    (hd : Charset.petscii.encodeChar d = some code) : c = d :=
  Option.some.inj ((petsciiChar?_eq_some.mpr hc).symm.trans (petsciiChar?_eq_some.mpr hd))

/-! ### Screen codes -/

/-- The character of a screen code. -/
def screenChar? (code : UInt8) : Option Char :=
  if code ≤ 0x1b then some (Char.ofNat (code.toNat + 0x40))
  else if 0x20 ≤ code ∧ code ≤ 0x3f then some (Char.ofNat code.toNat)
  else (screenExtras.find? fun entry => entry.2 = code).map fun entry => Char.ofNat entry.1

/-- The code points that have a screen code. -/
def screenPoints : List Nat := List.range' 0x20 0x3c ++ screenExtras.map Prod.fst

theorem mem_screenPoints {n : Nat} {code : UInt8} (h : screenCode n = some code) : n ∈ screenPoints := by
  unfold screenCode at h
  rw [screenPoints, List.mem_append, List.mem_range'_1]
  split at h
  · exact .inl (by omega)
  · split at h
    · exact .inl (by omega)
    · obtain ⟨before, after, hsplit, _⟩ := List.lookup_eq_some_iff.mp h
      exact .inr (List.mem_map.mpr ⟨(n, code), by simp [hsplit], rfl⟩)

theorem screenChar?_of_screenCode {n : Nat} {code : UInt8} (h : screenCode n = some code) :
    screenChar? code = some (Char.ofNat n) := by
  have hall : ∀ n ∈ screenPoints, (screenCode n).bind screenChar? = some (Char.ofNat n) := by
    decide +kernel
  have hn := hall n (mem_screenPoints h)
  rwa [h] at hn

theorem Text.upperChar_ne_nil (c : Char) : upperChar c ≠ [] := by
  have hall : ∀ entry ∈ upperExpansions, entry.2 ≠ [] := by decide +kernel
  unfold upperChar
  split
  · exact List.cons_ne_nil _ _
  · split
    · rename_i codes hcodes
      obtain ⟨before, after, hsplit, _⟩ := List.lookup_eq_some_iff.mp hcodes
      have hne := hall (c.toNat, codes) (by simp [hsplit])
      simpa using hne
    · exact List.cons_ne_nil _ _

/-- The first character of the upper case of a character. -/
def Text.capital (c : Char) : Char := (upperChar c).head (upperChar_ne_nil c)

namespace Charset

/-- The character that the code of a character stands for: video memory knows capitals only. -/
def shown : Charset → Char → Char
  | petscii, c => c
  | screen, c => Text.capital c

/-- The character of a code. -/
def char? : Charset → UInt8 → Option Char
  | petscii => petsciiChar?
  | screen => screenChar?

theorem encodeChar_screen (c : Char) : screen.encodeChar c = screenCode (Text.capital c).toNat := by
  show ((Text.upperChar c).head?.bind fun u => screenCode u.toNat) = _
  rw [List.head?_eq_some_head (Text.upperChar_ne_nil c)]
  rfl

/-- **A code is read as the character it shows.** -/
theorem char?_shown {charset : Charset} {c : Char} {code : UInt8} (h : charset.encodeChar c = some code) :
    charset.char? code = some (charset.shown c) := by
  cases charset with
  | petscii => exact petsciiChar?_eq_some.mpr h
  | screen =>
    rw [encodeChar_screen] at h
    have hchar := screenChar?_of_screenCode h
    rwa [Char.ofNat_toNat] at hchar

end Charset

end Asm6502

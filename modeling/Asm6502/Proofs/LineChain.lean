import Mathlib.Data.List.Forall2
import Asm6502.BasicV2.Listing
import Asm6502.Proofs.Construction

/-! The chain of lines that a listing becomes.

A tokenized listing is the lines of the listing, chained from an address on (`chain_eq_ok`). Each
line carries the address of the next one, and no byte of a body is a zero, so the lines can be told
apart in two ways: by following the links or by looking for zeroes. `tokenize_follow` says of a
walker that does both (`Loaded.follow`) that it comes to its end at the last two bytes, that the two
ways agree on every line, and that it meets the lines of the listing, each with its number and its
tokens. -/
namespace Asm6502.BasicV2

/-! ### Bodies hold no zero -/

theorem token_ne_zero {cs : List Char} {k : Keyword} (h : Keyword.at? cs = some k) : k.token ≠ 0 := by
  have hall : ∀ k ∈ keywords, k.token ≠ 0 := by decide
  exact hall k (List.mem_of_find?_eq_some h)

theorem petsciiCode_ne_zero {n : Nat} {code : UInt8} (h : petsciiCode n = some code) : code ≠ 0 := by
  unfold petsciiCode at h
  split at h
  · cases h
    intro hzero
    have hmod : n % 2 ^ 8 = 0 := by
      rw [← UInt8.toNat_ofNat', hzero]
      rfl
    omega
  · have hall : ∀ entry ∈ petsciiExtras, entry.2 ≠ 0 := by decide
    obtain ⟨before, after, hsplit, _⟩ := List.lookup_eq_some_iff.mp h
    apply hall (n, code)
    rw [hsplit]
    exact List.mem_append_right _ (List.mem_cons_self ..)

theorem petscii_ne_zero {c : Char} {code : UInt8} (h : petscii c = .ok code) : code ≠ 0 := by
  unfold petscii at h
  split at h
  · cases h
    exact petsciiCode_ne_zero ‹_›
  · cases h

/-- **No byte of a body is zero**, whatever is read as keyword, string, data or remark. -/
theorem zero_notMem_tokens {reading : Reading} {cs : List Char} {bytes : List UInt8}
    (h : tokens reading cs = .ok bytes) : 0 ∉ bytes := by
  induction reading, cs using tokens.induct generalizing bytes with
  | case1 reading =>
    rw [tokens] at h
    cases h
    exact List.not_mem_nil
  | case2 reading c rest k hk ih =>
    rw [tokens, hk] at h
    obtain ⟨after, hafter, h⟩ := bind_eq_ok.mp h
    cases h
    have hat : Keyword.at? (c :: rest) = some k := by
      cases reading with
      | keywords => exact hk
      | _ => cases hk
    exact List.not_mem_cons_of_ne_of_not_mem (token_ne_zero hat).symm (ih hafter)
  | case3 reading c rest hk ih =>
    rw [tokens, hk] at h
    obtain ⟨code, hcode, h⟩ := bind_eq_ok.mp h
    obtain ⟨after, hafter, h⟩ := bind_eq_ok.mp h
    cases h
    exact List.not_mem_cons_of_ne_of_not_mem (petscii_ne_zero hcode).symm (ih hafter)

/-! ### Lines one behind another -/

/-- Lines chained from an address on. -/
def chained (address : Nat) : List Line → List UInt8
  | [] => [0, 0]
  | line :: rest => line.bytes (address + line.size) ++ chained (address + line.size) rest

/-- The address of the closing link behind some lines. -/
def closing (address : Nat) : List Line → Nat
  | [] => address
  | line :: rest => closing (address + line.size) rest

/-- Lines that keep their meaning in memory from an address on: numbers and links are words, and the
first zero behind a body ends it. -/
inductive Chainable : Nat → List Line → Prop where
  | nil {address} : Chainable address []
  | cons {address line rest} : line.number ≤ maxLineNumber → 0 ∉ line.body →
      address + line.size ≤ 0xffff → Chainable (address + line.size) rest →
      Chainable address (line :: rest)

theorem Line.length_bytes (line : Line) (next : Nat) : (line.bytes next).length = line.size := by
  simp only [Line.bytes, Line.size, Word.littleEndian, List.length_append, List.length_cons,
    List.length_nil]

theorem length_chained (address : Nat) (lines : List Line) :
    address + (chained address lines).length = closing address lines + 2 := by
  induction lines generalizing address with
  | nil => rfl
  | cons line rest ih =>
    have := ih (address + line.size)
    simp only [chained, closing, List.length_append, Line.length_bytes]
    omega

theorem le_closing (address : Nat) (lines : List Line) : address ≤ closing address lines := by
  induction lines generalizing address with
  | nil => exact Nat.le_refl _
  | cons line rest ih => exact Nat.le_trans (Nat.le_add_right ..) (ih _)

/-- The lines of a listing that are not blank, without the blanks around them. -/
def programLines (texts : List (List Char)) : List (List Char) :=
  (texts.map Text.trim).filter fun text => !text.isEmpty

/-- A line is read from a text: its number from the digits in front, its tokens from the rest. -/
structure Line.ReadFrom (text : List Char) (line : Line) : Prop where
  digits : text.takeWhile Char.isDigit ≠ []
  number : line.number = decimal (text.takeWhile Char.isDigit)
  body : tokenizeBody (Text.trimLeft (text.dropWhile Char.isDigit)) = .ok line.body

theorem Line.read_eq_ok {index : Nat} {text : List Char} {line : Line}
    (h : Line.read index text = .ok line) : line.ReadFrom text ∧ line.number ≤ maxLineNumber := by
  obtain ⟨⟨number, rest⟩, hsplit, h⟩ := bind_eq_ok.mp h
  obtain ⟨body, hbody, h⟩ := bind_eq_ok.mp h
  cases h
  unfold Line.split at hsplit
  simp only at hsplit
  split at hsplit
  · cases hsplit
  · rename_i hdigits
    split at hsplit
    · rename_i hnumber
      cases hsplit
      exact ⟨⟨fun hnil => hdigits (by rw [hnil]; rfl), rfl, hbody⟩, hnumber⟩
    · cases hsplit

/-- **A chain that can be built** holds the lines of the texts, one behind another. -/
theorem chain_eq_ok {address index : Nat} {texts : List (List Char)} {bytes : List UInt8}
    (h : chain address index texts = .ok bytes) :
    ∃ lines, bytes = chained address lines ∧ Chainable address lines ∧
      List.Forall₂ Line.ReadFrom (programLines texts) lines := by
  induction texts generalizing address index bytes with
  | nil =>
    cases h
    exact ⟨[], rfl, .nil, .nil⟩
  | cons text rest ih =>
    rw [chain] at h
    split at h
    · rename_i hblank
      obtain ⟨lines, hbytes, hchain, hread⟩ := ih h
      refine ⟨lines, hbytes, hchain, ?_⟩
      simpa [programLines, hblank] using hread
    · rename_i hne
      obtain ⟨line, hline, h⟩ := bind_eq_ok.mp h
      obtain ⟨hfrom, hnumber⟩ := Line.read_eq_ok hline
      dsimp only at h
      split at h
      · cases h
      · rename_i hfits
        obtain ⟨after, hafter, h⟩ := bind_eq_ok.mp h
        cases h
        obtain ⟨lines, rfl, hchain, hread⟩ := ih hafter
        refine ⟨line :: lines, rfl, ?_, ?_⟩
        · exact .cons hnumber (zero_notMem_tokens hfrom.body) (Nat.le_of_not_lt hfits) hchain
        · have hcons : programLines (text :: rest) = Text.trim text :: programLines rest := by
            have hnonempty : (Text.trim text).isEmpty = false :=
              List.isEmpty_eq_false_iff.mpr fun hnil => hne hnil
            simp [programLines, hnonempty]
          rw [hcons]
          exact .cons hfrom hread

/-! ### The walker -/

/-- Bytes in memory from an address on. -/
structure Loaded where
  origin : Nat
  bytes : List UInt8

/-- What a walker finds of a line. -/
structure Visit where
  link : Nat
  number : Nat
  body : List UInt8
  /-- The address behind the first zero after the line number. -/
  past : Nat

namespace Loaded

/-- The bytes from an address to the end. -/
def onward (m : Loaded) (address : Nat) : List UInt8 :=
  if address < m.origin then [] else m.bytes.drop (address - m.origin)

/-- The word at an address, low byte first. -/
def wordAt? (m : Loaded) (address : Nat) : Option Nat :=
  match m.onward address with
  | low :: high :: _ => some (low.toNat + 256 * high.toNat)
  | _ => none

/-- The bytes from an address up to the first zero. -/
def bodyAt? (m : Loaded) (address : Nat) : Option (List UInt8) :=
  if 0 ∈ m.onward address then some ((m.onward address).takeWhile (· ≠ 0)) else none

/-- Follows the links from an address on, for as many lines as `fuel` allows, to the link that is
zero. Returns the lines met and the address of that link. -/
def follow (m : Loaded) : (fuel : Nat) → (address : Nat) → Option (List Visit × Nat)
  | 0, _ => none
  | fuel + 1, address => do
    let link ← m.wordAt? address
    if link = 0 then return ([], address)
    let number ← m.wordAt? (address + 2)
    let body ← m.bodyAt? (address + 4)
    let (visits, stop) ← m.follow fuel link
    return (⟨link, number, body, address + 4 + body.length + 1⟩ :: visits, stop)

section Reading
variable {m : Loaded} {address : Nat} {before rest : List UInt8}

theorem onward_append (hm : m.bytes = before ++ rest) (ha : m.origin + before.length = address) :
    m.onward address = rest := by
  have hlt : ¬ address < m.origin := by omega
  have hdrop : address - m.origin = before.length := by omega
  unfold onward
  rw [if_neg hlt, hdrop, hm, List.drop_left]

theorem wordAt?_eq {n : Nat} (hn : n ≤ 0xffff) (h : m.onward address = Word.littleEndian n ++ rest) :
    m.wordAt? address = some n := by
  obtain ⟨low, high, hword, hvalue⟩ := Word.littleEndian_value hn
  unfold wordAt?
  rw [h, hword, ← hvalue]
  rfl

theorem bodyAt?_eq {body : List UInt8} (hbody : 0 ∉ body) (h : m.onward address = body ++ 0 :: rest) :
    m.bodyAt? address = some body := by
  have hpos : ∀ b ∈ body, decide (b ≠ 0) = true := by
    intro b hb
    exact decide_eq_true fun hzero => hbody (hzero ▸ hb)
  have hmem : (0 : UInt8) ∈ body ++ 0 :: rest := List.mem_append_right _ (List.mem_cons_self ..)
  unfold bodyAt?
  rw [h, if_pos hmem, List.takeWhile_append_of_pos hpos]
  simp

end Reading

end Loaded

/-- What there is to find of lines that are chained from an address on. -/
def visits (address : Nat) : List Line → List Visit
  | [] => []
  | line :: rest =>
    ⟨address + line.size, line.number, line.body, address + line.size⟩ ::
      visits (address + line.size) rest

theorem length_visits (address : Nat) (lines : List Line) :
    (visits address lines).length = lines.length := by
  induction lines generalizing address with
  | nil => rfl
  | cons line rest ih => simp only [visits, List.length_cons, ih]

/-- **One line**: the walker reads its number and its body, and goes on behind it. -/
theorem Loaded.follow_line {m : Loaded} {address fuel : Nat} {before after : List UInt8} {line : Line}
    (hm : m.bytes = before ++ (line.bytes (address + line.size) ++ after))
    (ha : m.origin + before.length = address) (hnumber : line.number ≤ maxLineNumber)
    (hbody : 0 ∉ line.body) (hnext : address + line.size ≤ 0xffff) :
    m.follow (fuel + 1) address = (m.follow fuel (address + line.size)).map fun (met, stop) =>
      (⟨address + line.size, line.number, line.body, address + line.size⟩ :: met, stop) := by
  -- the same bytes, cut where the walker reads: at the link, at the number and at the body
  have hbytes : m.bytes = before ++ (Word.littleEndian (address + line.size) ++
      (Word.littleEndian line.number ++ (line.body ++ 0 :: after))) := by
    simp [hm, Line.bytes]
  have hlink : m.wordAt? address = some (address + line.size) :=
    wordAt?_eq hnext (onward_append hbytes ha)
  have hnum : m.wordAt? (address + 2) = some line.number := by
    rw [← List.append_assoc] at hbytes
    refine wordAt?_eq (Nat.le_trans hnumber (by decide)) (onward_append hbytes ?_)
    simp only [Word.littleEndian, List.length_append, List.length_cons, List.length_nil]
    omega
  have htext : m.bodyAt? (address + 4) = some line.body := by
    rw [← List.append_assoc, ← List.append_assoc] at hbytes
    refine bodyAt?_eq hbody (onward_append hbytes ?_)
    simp only [Word.littleEndian, List.length_append, List.length_cons, List.length_nil]
    omega
  have hne : address + line.size ≠ 0 := by
    unfold Line.size
    omega
  have hpast : address + 4 + line.body.length + 1 = address + line.size := by
    unfold Line.size
    omega
  rw [follow, hlink]
  simp only [Option.bind_eq_bind, Option.bind_some, if_neg hne, hnum, htext, hpast]
  cases m.follow fuel (address + line.size) <;> rfl

/-- **A chain is followed to its end.** -/
theorem Loaded.follow_chained {m : Loaded} {lines : List Line} {address : Nat}
    (h : Chainable address lines) {fuel : Nat} {before : List UInt8}
    (hm : m.bytes = before ++ chained address lines) (ha : m.origin + before.length = address)
    (hfuel : lines.length < fuel) :
    m.follow fuel address = some (visits address lines, closing address lines) := by
  induction h generalizing fuel before with
  | @nil address =>
    cases fuel with
    | zero => cases hfuel
    | succ fuel =>
      have hlink : m.wordAt? address = some 0 := wordAt?_eq (by decide) (onward_append hm ha)
      rw [follow, hlink]
      rfl
  | @cons address line rest hnumber hbody hnext _ ih =>
    cases fuel with
    | zero => cases hfuel
    | succ fuel =>
      have hrest : m.bytes = before ++ line.bytes (address + line.size) ++
          chained (address + line.size) rest := by
        rw [hm, chained, List.append_assoc]
      have hlength : m.origin + (before ++ line.bytes (address + line.size)).length =
          address + line.size := by
        rw [List.length_append, Line.length_bytes]
        omega
      rw [follow_line hm ha hnumber hbody hnext, ih hrest hlength (Nat.lt_of_succ_lt_succ hfuel)]
      rfl

/-! ### What the walker meets -/

/-- Links lead onward, each to where the next line begins. -/
theorem visits_links (address : Nat) (lines : List Line) :
    (∀ v ∈ visits address lines, address < v.link ∧ v.link = v.past) ∧
      ((visits address lines).map Visit.link).Pairwise (· < ·) := by
  induction lines generalizing address with
  | nil => exact ⟨nofun, List.Pairwise.nil⟩
  | cons line rest ih =>
    have ih := ih (address + line.size)
    have hlt : address < address + line.size := by
      unfold Line.size
      omega
    refine ⟨List.forall_mem_cons.mpr ⟨⟨hlt, rfl⟩, fun v hv => ?_⟩, List.pairwise_cons.mpr ⟨?_, ih.2⟩⟩
    · exact ⟨Nat.lt_trans hlt (ih.1 v hv).1, (ih.1 v hv).2⟩
    · intro link hlink
      obtain ⟨v, hv, rfl⟩ := List.mem_map.mp hlink
      exact (ih.1 v hv).1

/-- The line that a visit has seen. -/
def Visit.line (v : Visit) : Line := ⟨v.number, v.body⟩

theorem map_line_visits (address : Nat) (lines : List Line) :
    (visits address lines).map Visit.line = lines := by
  induction lines generalizing address with
  | nil => rfl
  | cons line rest ih => simp only [visits, List.map_cons, ih, Visit.line]

/-- **A tokenized listing is a chain of its lines.** A walker that starts at the origin ends at the
last two bytes; every link is the address behind the first zero after the line number; the links
increase; and the lines are those of the listing, in order. -/
theorem tokenize_follow {listing : String} {origin : UInt16} {bytes : List UInt8}
    (h : tokenize listing origin = .ok bytes) : ∃ met : List Visit,
      (2 ≤ bytes.length ∧ ∀ fuel, met.length < fuel →
        (Loaded.mk origin.toNat bytes).follow fuel origin.toNat =
          some (met, origin.toNat + (bytes.length - 2))) ∧
      (∀ v ∈ met, v.link ≠ 0 ∧ v.link = v.past) ∧
      (met.map Visit.link).Pairwise (· < ·) ∧
      List.Forall₂ Line.ReadFrom (programLines (splitLines listing.toList)) (met.map Visit.line) := by
  obtain ⟨lines, rfl, hchain, hread⟩ := chain_eq_ok h
  have hlinks := visits_links origin.toNat lines
  have hlength := length_chained origin.toNat lines
  have hclosing := le_closing origin.toNat lines
  refine ⟨visits origin.toNat lines, ⟨by omega, fun fuel hfuel => ?_⟩, fun v hv => ?_, hlinks.2, ?_⟩
  · have hstop : origin.toNat + ((chained origin.toNat lines).length - 2) =
        closing origin.toNat lines := by omega
    rw [length_visits] at hfuel
    rw [hstop]
    exact Loaded.follow_chained hchain (List.nil_append _).symm rfl hfuel
  · have hlink := hlinks.1 v hv
    exact ⟨by omega, hlink.2⟩
  · rw [map_line_visits]
    exact hread

theorem two_lines_follow : ∃ bytes met, tokenize "10 PRINT\n\n20 GOTO 10\n" 0x0801 = .ok bytes ∧
    bytes.length = 17 ∧ met.map Visit.line = [⟨10, [0x99]⟩, ⟨20, [0x89, 0x20, 0x31, 0x30]⟩] ∧
    met.map Visit.link = [0x0807, 0x0810] ∧ (∀ v ∈ met, v.link ≠ 0 ∧ v.link = v.past) ∧
    ∀ fuel, 2 < fuel → (Loaded.mk 0x0801 bytes).follow fuel 0x0801 = some (met, 0x0810) := by
  have h : tokenize "10 PRINT\n\n20 GOTO 10\n" 0x0801 = .ok [0x07, 0x08, 0x0a, 0x00, 0x99, 0x00, 0x10,
      0x08, 0x14, 0x00, 0x89, 0x20, 0x31, 0x30, 0x00, 0x00, 0x00] := by decide +kernel
  have hlines : (programLines (splitLines "10 PRINT\n\n20 GOTO 10\n".toList)).length = 2 := by decide +kernel
  obtain ⟨met, ⟨_, hfollow⟩, hlinks, _, hread⟩ := tokenize_follow h
  have hlength : met.length = 2 := by
    rw [← hlines, hread.length_eq, List.length_map]
  rw [hlength] at hfollow
  -- what the walker returns can be computed, and it returns the same with any fuel
  have hmet : met = [⟨0x0807, 10, [0x99], 0x0807⟩, ⟨0x0810, 20, [0x89, 0x20, 0x31, 0x30], 0x0810⟩] :=
    congrArg Prod.fst (Option.some.inj ((hfollow 3 (by omega)).symm.trans rfl))
  exact ⟨_, met, h, rfl, by rw [hmet]; rfl, by rw [hmet]; rfl, hlinks, hfollow⟩

end Asm6502.BasicV2

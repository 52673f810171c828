import Mathlib.Data.List.Forall2
import Mathlib.Data.Nat.Digits.Defs
import Asm6502.Word
import Asm6502.Proofs.Numerals

/-! The texts that are addresses.

Digits are read from left to right and the first that takes the value past the limit ends the
reading, so the reader never sees the number that a long text stands for. `Denotes` gives every
sequence of digits its value by position, however large. More digits never make a value smaller, so
the reader has accepted a text exactly if the whole of it stays within the limit
(`readDigits_eq_ok`), and has run over the limit exactly if some front part of it lies beyond
(`readDigits_eq_overflow`). `read_exact` puts the marks of the radix and the sign in front. -/
namespace Asm6502

namespace Text

/-! ### Values by position -/

/-- A digit of the radix, letters in either case, with its value. -/
def IsDigit (radix : Nat) (c : Char) (d : Nat) : Prop :=
  d < radix ∧ (c = Nat.digitChar d ∨ c = (Nat.digitChar d).toUpper)

theorem digitValue_eq_some {c : Char} {d : Nat} (hd : d < 16) :
    digitValue c = some d ↔ c = Nat.digitChar d ∨ c = (Nat.digitChar d).toUpper := by
  constructor
  · intro h
    have hall : ∀ n < 123, ∀ d ∈ digitValue (Char.ofNat n), d < 16 →
        Char.ofNat n = Nat.digitChar d ∨ Char.ofNat n = (Nat.digitChar d).toUpper := by decide
    have hlast : ∀ last : Char, last.toNat < 123 → c ≤ last → c.toNat < 123 :=
      fun last hlast hle => Nat.lt_of_le_of_lt hle hlast
    have hn : c.toNat < 123 := by
      unfold digitValue at h
      split at h
      · exact hlast '9' (by decide) (And.right ‹_›)
      · split at h
        · exact hlast 'z' (by decide) (And.right ‹_›)
        · split at h
          · exact hlast 'Z' (by decide) (And.right ‹_›)
          · cases h
    have hc := hall c.toNat hn d
    rw [Char.ofNat_toNat] at hc
    exact hc h hd
  · have hall : ∀ d < 16, digitValue (Nat.digitChar d) = some d ∧
        digitValue (Nat.digitChar d).toUpper = some d := by decide
    rintro (rfl | rfl)
    · exact (hall d hd).1
    · exact (hall d hd).2

theorem digitIn_eq_some {radix : Nat} (hr : radix ≤ 16) {c : Char} {d : Nat} :
    digitIn radix c = some d ↔ IsDigit radix c d := by
  unfold digitIn IsDigit
  rw [Option.filter_eq_some_iff, decide_eq_true_eq, and_comm]
  refine and_congr_right fun hd => ?_
  exact digitValue_eq_some (Nat.lt_of_lt_of_le hd hr)

/-- The characters are digits of the radix and stand for this number. -/
def Denotes (radix : Nat) (cs : List Char) (n : Nat) : Prop :=
  ∃ ds, List.Forall₂ (IsDigit radix) cs ds ∧ n = Nat.ofDigits radix ds.reverse

namespace Denotes
variable {radix n m : Nat} {cs back : List Char}

theorem nil : Denotes radix [] 0 := ⟨[], .nil, rfl⟩

theorem concat {c : Char} {d : Nat} (h : Denotes radix cs n) (hc : IsDigit radix c d) :
    Denotes radix (cs ++ [c]) (n * radix + d) := by
  obtain ⟨ds, hds, rfl⟩ := h
  refine ⟨ds ++ [d], List.rel_append hds (.cons hc .nil), ?_⟩
  rw [List.reverse_append, List.reverse_singleton, List.singleton_append, Nat.ofDigits_cons,
    Nat.mul_comm, Nat.add_comm]

/-- Every character is a digit. -/
theorem digitIn_ne_none (hr : radix ≤ 16) (h : Denotes radix cs n) : ∀ c ∈ cs, digitIn radix c ≠ none := by
  obtain ⟨ds, hds, -⟩ := h
  induction hds with
  | nil => simp
  | cons hc _ ih =>
    refine List.forall_mem_cons.mpr ⟨?_, ih⟩
    rw [(digitIn_eq_some hr).mpr hc]
    exact Option.some_ne_none _

/-- Digits stand for one number only. -/
theorem unique (hr : radix ≤ 16) (h : Denotes radix cs n) (hm : Denotes radix cs m) : n = m := by
  obtain ⟨ds, hds, rfl⟩ := h
  obtain ⟨es, hes, rfl⟩ := hm
  have hdigit : Relator.RightUnique (IsDigit radix) := by
    intro c d e hd he
    rw [← digitIn_eq_some hr] at hd he
    exact Option.some.inj (hd.symm.trans he)
  rw [hdigit.forall₂ hds hes]

/-- **More digits** make no smaller number. -/
theorem le_of_append (hr : 0 < radix) (hr' : radix ≤ 16) (h : Denotes radix cs n)
    (hm : Denotes radix (cs ++ back) m) : n ≤ m := by
  obtain ⟨ds, hds, rfl⟩ := hm
  have hfront := List.forall₂_take cs.length hds
  rw [List.take_left] at hfront
  have hvalue : n = Nat.ofDigits radix (ds.take cs.length).reverse := h.unique hr' ⟨_, hfront, rfl⟩
  rw [hvalue, ← List.take_append_drop cs.length ds, List.reverse_append, Nat.ofDigits_append,
    List.take_append_drop]
  calc Nat.ofDigits radix (ds.take cs.length).reverse
      ≤ radix ^ (ds.drop cs.length).reverse.length * Nat.ofDigits radix (ds.take cs.length).reverse :=
        Nat.le_mul_of_pos_left _ (Nat.pow_pos hr)
    _ ≤ _ := Nat.le_add_left _ _

end Denotes

/-- Some front part of the characters is digits and lies beyond the limit. -/
def RunsOver (radix limit : Nat) (cs : List Char) : Prop :=
  ∃ front back n, cs = front ++ back ∧ Denotes radix front n ∧ limit < n

/-! ### Reading digits -/

section Reading
variable {radix limit acc : Nat} {front : List Char} (hr : 0 < radix) (hr' : radix ≤ 16)
  (hfront : Denotes radix front acc) (hacc : acc ≤ limit)
include hr hr' hfront hacc

/-- **What is accepted**: together with the digits in front, which are read already, the characters
are digits and stay within the limit. -/
theorem readDigits_eq_ok {cs : List Char} {n : Nat} : readDigits radix limit acc cs = .ok n ↔
    Denotes radix (front ++ cs) n ∧ n ≤ limit := by
  induction cs generalizing front acc with
  | nil =>
    rw [List.append_nil, readDigits, Except.ok.injEq]
    constructor
    · rintro rfl
      exact ⟨hfront, hacc⟩
    · exact fun h => hfront.unique hr' h.1
  | cons c rest ih =>
    rw [readDigits]
    cases hdigit : digitIn radix c with
    | none =>
      simp only [reduceCtorEq, false_iff]
      rintro ⟨h, -⟩
      exact h.digitIn_ne_none hr' c (by simp) hdigit
    | some d =>
      have hnext := hfront.concat ((digitIn_eq_some hr').mp hdigit)
      rw [List.append_cons]
      by_cases hle : acc * radix + d ≤ limit
      · simp only [if_pos hle]
        exact ih hnext hle
      · simp only [if_neg hle, reduceCtorEq, false_iff]
        rintro ⟨h, hn⟩
        exact hle (Nat.le_trans (hnext.le_of_append hr hr' h) hn)

/-- **What runs over the limit**, counted with the digits in front. -/
theorem readDigits_eq_overflow {cs : List Char} : readDigits radix limit acc cs = .error .overflow ↔
    RunsOver radix limit (front ++ cs) := by
  -- no part of the digits in front lies beyond the limit, since the whole of them does not
  have hwithin : ∀ part back n, front = part ++ back → Denotes radix part n → n ≤ limit := by
    rintro part back n rfl h
    exact Nat.le_trans (h.le_of_append hr hr' hfront) hacc
  induction cs generalizing front acc with
  | nil =>
    simp only [List.append_nil, readDigits, reduceCtorEq, false_iff]
    rintro ⟨part, back, n, hsplit, h, hn⟩
    exact Nat.not_lt.mpr (hwithin part back n hsplit h) hn
  | cons c rest ih =>
    rw [readDigits]
    cases hdigit : digitIn radix c with
    | none =>
      simp only [Except.error.injEq, reduceCtorEq, false_iff]
      rintro ⟨part, back, n, hsplit, h, hn⟩
      rcases List.append_eq_append_iff.mp hsplit with ⟨more, rfl, hmore⟩ | ⟨more, hpart, -⟩
      · cases more with
        | nil => exact Nat.not_lt.mpr (hwithin _ [] n (by simp) h) hn
        | cons c' more =>
          cases hmore
          exact h.digitIn_ne_none hr' c (by simp) hdigit
      · exact Nat.not_lt.mpr (hwithin part more n hpart h) hn
    | some d =>
      have hnext := hfront.concat ((digitIn_eq_some hr').mp hdigit)
      rw [List.append_cons]
      by_cases hle : acc * radix + d ≤ limit
      · simp only [if_pos hle]
        refine ih hnext hle fun part back n hsplit h => ?_
        exact Nat.le_trans (h.le_of_append hr hr' (hsplit ▸ hnext)) hle
      · simp only [if_neg hle, true_iff]
        exact ⟨front ++ [c], rest, _, rfl, hnext, Nat.lt_of_not_le hle⟩

end Reading

theorem readDigits_ne_empty (radix limit acc : Nat) (cs : List Char) :
    readDigits radix limit acc cs ≠ .error .empty := by
  induction cs generalizing acc with
  | nil => simp [readDigits]
  | cons c rest ih =>
    rw [readDigits]
    cases digitIn radix c with
    | none => simp
    | some d =>
      by_cases hle : acc * radix + d ≤ limit
      · simpa only [if_pos hle] using ih _
      · simp [if_neg hle]

/-! ### Numerals -/

/-- The characters without one plus sign in front of them. -/
def unsigned : List Char → List Char
  | '+' :: cs => cs
  | cs => cs

/-- The characters are a numeral of this number: one plus sign or none, and then at least one digit. -/
def IsNumeral (radix : Nat) (cs : List Char) (n : Nat) : Prop :=
  unsigned cs ≠ [] ∧ Denotes radix (unsigned cs) n

theorem unsigned_of_ne {cs : List Char} (h : ∀ digits, cs ≠ '+' :: digits) : unsigned cs = cs := by
  unfold unsigned
  split
  · exact absurd rfl (h _)
  · rfl

theorem readNumeral_eq (radix limit : Nat) (cs : List Char) : readNumeral radix limit cs =
    if cs = [] then .error .empty
    else if unsigned cs = [] then .error .invalidDigit
    else readDigits radix limit 0 (unsigned cs) := by
  unfold readNumeral
  split
  · rfl
  · rfl
  · rename_i digits hlone
    have hne : digits ≠ [] := fun h => hlone (h ▸ rfl)
    simp [unsigned, hne]
  · rename_i hempty _ hsign
    rw [unsigned_of_ne hsign, if_neg hempty, if_neg hempty]

/-- What reading characters in a radix has to answer. -/
structure ReadsExactly (radix limit : Nat) (cs : List Char) (answer : Except NumeralError Nat) :
    Prop where
  /-- A number is read if the characters are a numeral of it and it is within the limit. -/
  value : ∀ n, answer = .ok n ↔ IsNumeral radix cs n ∧ n ≤ limit
  empty : answer = .error .empty ↔ cs = []
  /-- Digits that go beyond the limit decide, whatever stands behind them. -/
  overflow : answer = .error .overflow ↔ RunsOver radix limit (unsigned cs)
  /-- In all other cases some character is no digit, or there is no digit at all. -/
  invalid : answer = .error .invalidDigit ↔
    (¬ ∃ n ≤ limit, IsNumeral radix cs n) ∧ cs ≠ [] ∧ ¬ RunsOver radix limit (unsigned cs)

/-- There is one error for all that the others leave. -/
theorem ReadsExactly.of_others {radix limit : Nat} {cs : List Char} {answer : Except NumeralError Nat}
    (value : ∀ n, answer = .ok n ↔ IsNumeral radix cs n ∧ n ≤ limit)
    (empty : answer = .error .empty ↔ cs = [])
    (overflow : answer = .error .overflow ↔ RunsOver radix limit (unsigned cs)) :
    ReadsExactly radix limit cs answer := by
  refine ⟨value, empty, overflow, ?_⟩
  have hnumeral : (∃ n ≤ limit, IsNumeral radix cs n) ↔ ∃ n, answer = .ok n := by
    simp only [value, and_comm]
  rw [hnumeral, ne_eq, ← empty, ← overflow]
  cases answer with
  | ok n => simp
  | error e => cases e <;> simp

theorem not_runsOver_nil {radix : Nat} (hr : radix ≤ 16) (limit : Nat) : ¬ RunsOver radix limit [] := by
  rintro ⟨front, back, n, hsplit, h, hn⟩
  obtain ⟨rfl, -⟩ := List.append_eq_nil_iff.mp hsplit.symm
  rw [h.unique hr .nil] at hn
  exact Nat.not_lt_zero _ hn

/-- **Numerals are read exactly.** -/
theorem readNumeral_exact {radix : Nat} (hr : 0 < radix) (hr' : radix ≤ 16) (limit : Nat)
    (cs : List Char) : ReadsExactly radix limit cs (readNumeral radix limit cs) := by
  have hnone := not_runsOver_nil hr' limit
  have hzero : 0 ≤ limit := Nat.zero_le limit
  rw [readNumeral_eq]
  by_cases hempty : cs = []
  · subst hempty
    exact .of_others (by simp [IsNumeral, unsigned]) (by simp) (by simpa [unsigned] using hnone)
  by_cases hsign : unsigned cs = []
  · rw [if_neg hempty, if_pos hsign]
    exact .of_others (by simp [IsNumeral, hsign]) (by simp [hempty]) (by simpa [hsign] using hnone)
  · rw [if_neg hempty, if_neg hsign]
    refine .of_others (fun n => ?_) (by simp [hempty, readDigits_ne_empty]) ?_
    · rw [readDigits_eq_ok hr hr' .nil hzero, List.nil_append, IsNumeral]
      simp [hsign]
    · rw [readDigits_eq_overflow hr hr' .nil hzero, List.nil_append]

end Text

/-! ### Addresses -/

namespace Word
open Text

/-- The radix of an address as the mark in front of it says, and what is behind the mark. -/
def spelling (cs : List Char) : Nat × List Char :=
  if ['0', 'x'] <+: cs then (16, cs.drop 2)
  else if ['$'] <+: cs then (16, cs.drop 1)
  else (10, cs)

theorem spelling_radix (cs : List Char) : 0 < (spelling cs).1 ∧ (spelling cs).1 ≤ 16 := by
  unfold spelling
  split
  · simp
  · split <;> simp

theorem read_eq (s : String) : read s = UInt16.ofNat <$>
    readNumeral (spelling s.toList).1 0xffff (spelling s.toList).2 := by
  unfold read
  generalize s.toList = cs
  split
  · rename_i digits
    have hzero : ['0', 'x'] <+: '0' :: 'x' :: digits := List.prefix_append _ _
    rw [spelling, if_pos hzero]
    rfl
  · rename_i digits
    have hzero : ¬ ['0', 'x'] <+: '$' :: digits := by simp
    have hdollar : ['$'] <+: '$' :: digits := List.prefix_append _ _
    rw [spelling, if_neg hzero, if_pos hdollar]
    rfl
  · rename_i hzero hdollar
    have hzero' : ¬ ['0', 'x'] <+: cs := by
      intro h
      obtain ⟨digits, h⟩ := h
      exact hzero digits h.symm
    have hdollar' : ¬ ['$'] <+: cs := by
      intro h
      obtain ⟨digits, h⟩ := h
      exact hdollar digits h.symm
    rw [spelling, if_neg hzero', if_neg hdollar']

/-- **Addresses are read exactly**, whatever the text. -/
theorem read_exact (s : String) : ReadsExactly (spelling s.toList).1 0xffff (spelling s.toList).2
    (UInt16.toNat <$> read s) := by
  obtain ⟨hr, hr'⟩ := spelling_radix s.toList
  have hexact := readNumeral_exact hr hr' 0xffff (spelling s.toList).2
  -- what is read is within the limit, so that it is a word
  have hword : UInt16.toNat <$> read s = readNumeral (spelling s.toList).1 0xffff (spelling s.toList).2 := by
    rw [read_eq]
    cases hread : readNumeral (spelling s.toList).1 0xffff (spelling s.toList).2 with
    | error e => rfl
    | ok n =>
      have hn : n ≤ 0xffff := ((hexact.value n).mp hread).2
      exact congrArg Except.ok (UInt16.toNat_ofNat_of_lt' (Nat.lt_succ_of_le hn))
  rwa [hword]

/-- The digits before the stranger decide about the error. -/
example : read "$+00c000" = .ok 0xc000 ∧ read "0x" = .error .empty ∧ read "65536x" = .error .overflow ∧
    read "65535x" = .error .invalidDigit ∧ read "$+" = .error .invalidDigit := by decide

end Word

end Asm6502

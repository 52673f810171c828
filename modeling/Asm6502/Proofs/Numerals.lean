import Asm6502.Text.Numeral

/-! Numerals are read back as they were written.

A numeral in any radix up to sixteen, padded with zeroes or not, reads as the number it was written
for (`readDigits_toDigits`, `readDigits_hex`, `isUpperHex_hexUpper`). So two numbers that are written alike are equal,
whether in hexadecimal, in decimal or in decimal behind a sign. The rest of the file says which
characters occur in a numeral. -/
namespace Asm6502.Text

/-! ### Digits -/

theorem digitIn_digitChar {radix d : Nat} (hr : radix ≤ 16) (hd : d < radix) :
    digitIn radix (Nat.digitChar d) = some d := by
  have hvalue : ∀ d < 16, digitValue (Nat.digitChar d) = some d := by decide
  unfold digitIn
  rw [hvalue d (Nat.lt_of_lt_of_le hd hr), Option.filter_some, if_pos (decide_eq_true hd)]

theorem readDigits_append (radix limit acc : Nat) (cs ds : List Char) :
    readDigits radix limit acc (cs ++ ds) =
      (readDigits radix limit acc cs >>= fun n => readDigits radix limit n ds) := by
  induction cs generalizing acc with
  | nil => rfl
  | cons c cs ih =>
    simp only [List.cons_append, readDigits]
    split
    · rfl
    · split
      · exact ih _
      · rfl

theorem readDigits_digit {radix limit acc d : Nat} (hr : radix ≤ 16) (hd : d < radix)
    (h : acc * radix + d ≤ limit) :
    readDigits radix limit acc [Nat.digitChar d] = .ok (acc * radix + d) := by
  simp only [readDigits, digitIn_digitChar hr hd, if_pos h]

/-- **A number is read back from its digits.** -/
theorem readDigits_toDigits {radix limit n : Nat} (hr : 1 < radix) (hr' : radix ≤ 16) (hn : n ≤ limit) :
    readDigits radix limit 0 (Nat.toDigits radix n) = .ok n := by
  induction n using Nat.strongRecOn with
  | ind n ih =>
    by_cases hlt : n < radix
    · rw [Nat.toDigits_of_lt_base hlt]
      have hdigit : readDigits radix limit 0 [Nat.digitChar n] = .ok (0 * radix + n) :=
        readDigits_digit hr' hlt (by omega)
      simpa using hdigit
    · -- the last digit is the remainder, and those before it are the digits of the quotient
      have hdiv : n / radix < n := Nat.div_lt_self (by omega) hr
      have hmod : n / radix * radix + n % radix = n := Nat.div_add_mod' n radix
      rw [Nat.toDigits_of_base_le hr (Nat.le_of_not_lt hlt), readDigits_append,
        ih _ hdiv (by omega)]
      show readDigits radix limit (n / radix) [Nat.digitChar (n % radix)] = _
      rw [readDigits_digit hr' (Nat.mod_lt _ (by omega)) (by omega), hmod]

theorem readDigits_zeroes {radix limit : Nat} (hr : 0 < radix) (k : Nat) (cs : List Char) :
    readDigits radix limit 0 (List.replicate k '0' ++ cs) = readDigits radix limit 0 cs := by
  induction k with
  | zero => rfl
  | succ k ih =>
    have hzero : digitIn radix '0' = some 0 := by
      unfold digitIn
      rw [show digitValue '0' = some 0 by decide, Option.filter_some, if_pos (decide_eq_true hr)]
    rw [List.replicate_succ, List.cons_append, readDigits, hzero]
    simpa using ih

theorem toDigits_inj {radix n m : Nat} (hr : 1 < radix) (hr' : radix ≤ 16)
    (h : Nat.toDigits radix n = Nat.toDigits radix m) : n = m := by
  have hn := readDigits_toDigits hr hr' (Nat.le_max_left n m)
  have hm := readDigits_toDigits hr hr' (Nat.le_max_right n m)
  rw [h, hm] at hn
  exact (Except.ok.inj hn).symm

/-! ### Hexadecimal numbers -/

theorem readDigits_hex (width : Nat) {limit n : Nat} (hn : n ≤ limit) :
    readDigits 16 limit 0 (hex width n).toList = .ok n := by
  rw [hex, String.toList_ofList, List.leftpad, readDigits_zeroes (by decide),
    readDigits_toDigits (by decide) (by decide) hn]

theorem hex_inj {width n m : Nat} (h : hex width n = hex width m) : n = m := by
  have hn := readDigits_hex width (Nat.le_max_left n m)
  have hm := readDigits_hex width (Nat.le_max_right n m)
  rw [h, hm] at hn
  exact (Except.ok.inj hn).symm

theorem length_hex {width n : Nat} (hw : 0 < width) (hn : n < Nat.pow 16 width) :
    (hex width n).toList.length = width := by
  rw [hex, String.toList_ofList, List.length_leftpad]
  exact Nat.max_eq_left ((Nat.length_toDigits_le_iff (by decide) hw).mpr hn)

theorem isAlphanum_of_digitIn {radix d : Nat} {c : Char} (h : digitIn radix c = some d) :
    c.isAlphanum = true := by
  obtain ⟨hvalue, _⟩ := Option.filter_eq_some_iff.mp h
  have hdigit : '0' ≤ c ∧ c ≤ '9' → c.isDigit = true := fun hc =>
    Bool.and_eq_true_iff.mpr ⟨decide_eq_true hc.1, decide_eq_true hc.2⟩
  have hlower : 'a' ≤ c ∧ c ≤ 'z' → c.isLower = true := fun hc =>
    Bool.and_eq_true_iff.mpr ⟨decide_eq_true hc.1, decide_eq_true hc.2⟩
  have hupper : 'A' ≤ c ∧ c ≤ 'Z' → c.isUpper = true := fun hc => decide_eq_true hc
  show ((c.isUpper || c.isLower) || c.isDigit) = true
  rw [Bool.or_eq_true, Bool.or_eq_true]
  unfold digitValue at hvalue
  split at hvalue
  · exact .inr (hdigit ‹_›)
  · split at hvalue
    · exact .inl (.inr (hlower ‹_›))
    · split at hvalue
      · exact .inl (.inl (hupper ‹_›))
      · cases hvalue

/-- Only digits are read as digits. -/
theorem isAlphanum_of_readDigits {radix limit acc n : Nat} {cs : List Char}
    (h : readDigits radix limit acc cs = .ok n) : ∀ c ∈ cs, c.isAlphanum = true := by
  induction cs generalizing acc with
  | nil => exact nofun
  | cons c cs ih =>
    rw [readDigits] at h
    split at h
    · cases h
    · rename_i d hd
      split at h
      · exact List.forall_mem_cons.mpr ⟨isAlphanum_of_digitIn hd, ih h⟩
      · cases h

theorem isAlphanum_of_mem_hex {width n : Nat} {c : Char} (h : c ∈ (hex width n).toList) :
    c.isAlphanum = true :=
  isAlphanum_of_readDigits (readDigits_hex width (Nat.le_refl n)) c h

/-! ### Letters in upper case -/

theorem mem_toDigits {radix n : Nat} (hr : 1 < radix) {c : Char} (h : c ∈ Nat.toDigits radix n) :
    ∃ d < radix, c = Nat.digitChar d := by
  induction n using Nat.strongRecOn with
  | ind n ih =>
    by_cases hlt : n < radix
    · rw [Nat.toDigits_of_lt_base hlt] at h
      exact ⟨n, hlt, List.mem_singleton.mp h⟩
    · rw [Nat.toDigits_of_base_le hr (Nat.le_of_not_lt hlt)] at h
      rcases List.mem_append.mp h with h | h
      · exact ih _ (Nat.div_lt_self (by omega) hr) h
      · exact ⟨n % radix, Nat.mod_lt _ (by omega), List.mem_singleton.mp h⟩

/-- A number in at least `width` hexadecimal digits, and in no more if they suffice, with letters in
upper case. -/
structure IsUpperHex (width n : Nat) (cs : List Char) : Prop where
  upper : ∀ c ∈ cs, c ∈ "0123456789ABCDEF".toList
  least : width ≤ cs.length
  exact : 0 < width → n < Nat.pow 16 width → cs.length = width
  value : readDigits 16 n 0 cs = .ok n

theorem toList_hexUpper (width n : Nat) :
    (hexUpper width n).toList = (hex width n).toList.map Char.toUpper := by
  rw [hexUpper, hex, String.toList_ofList, String.toList_ofList]

theorem mem_hex {width n : Nat} {c : Char} (h : c ∈ (hex width n).toList) :
    ∃ d < 16, c = Nat.digitChar d := by
  rw [hex, String.toList_ofList] at h
  rcases List.mem_append.mp h with hzero | hdigit
  · exact ⟨0, by decide, List.eq_of_mem_replicate hzero⟩
  · exact mem_toDigits (by decide) hdigit

theorem readDigits_map {radix limit : Nat} {f : Char → Char} {cs : List Char}
    (h : ∀ c ∈ cs, digitIn radix (f c) = digitIn radix c) (acc : Nat) :
    readDigits radix limit acc (cs.map f) = readDigits radix limit acc cs := by
  induction cs generalizing acc with
  | nil => rfl
  | cons c cs ih =>
    obtain ⟨hc, hcs⟩ := List.forall_mem_cons.mp h
    simp only [List.map_cons, readDigits, hc, ih hcs]

theorem digitIn_toUpper {d : Nat} (hd : d < 16) : digitIn 16 (Nat.digitChar d).toUpper = some d := by
  have hall : ∀ d < 16, digitIn 16 (Nat.digitChar d).toUpper = some d := by decide
  exact hall d hd

theorem isUpperHex_hexUpper (width n : Nat) : IsUpperHex width n (hexUpper width n).toList := by
  rw [toList_hexUpper]
  constructor
  case upper =>
    have halphabet : ∀ d < 16, (Nat.digitChar d).toUpper ∈ "0123456789ABCDEF".toList := by decide
    intro c hc
    obtain ⟨digit, hdigit, rfl⟩ := List.mem_map.mp hc
    obtain ⟨d, hd, rfl⟩ := mem_hex hdigit
    exact halphabet d hd
  case least =>
    rw [List.length_map, hex, String.toList_ofList, List.length_leftpad]
    exact Nat.le_max_left ..
  case exact =>
    intro hw hn
    rw [List.length_map, length_hex hw hn]
  case value =>
    rw [readDigits_map ?_ 0, readDigits_hex width (Nat.le_refl n)]
    intro c hc
    obtain ⟨d, hd, rfl⟩ := mem_hex hc
    rw [digitIn_toUpper hd, digitIn_digitChar (by decide) hd]

/-! ### Decimal numbers -/

theorem toList_toString (n : Int) : (toString n).toList =
    if 0 ≤ n then Nat.toDigits 10 n.toNat else '-' :: Nat.toDigits 10 (-n).toNat := by
  rw [Int.toString_eq_repr, Int.repr_eq_if]
  split
  · rw [Nat.toList_repr]
  · rw [String.toList_append, Nat.toList_repr]
    rfl

theorem toList_signed (n : Int) : (signed n).toList =
    if 0 ≤ n then '+' :: Nat.toDigits 10 n.toNat else '-' :: Nat.toDigits 10 (-n).toNat := by
  unfold signed
  by_cases h : 0 ≤ n
  · rw [if_neg (by omega), if_pos h, String.toList_append, toList_toString, if_pos h]
    rfl
  · rw [if_pos (by omega), if_neg h, toList_toString, if_neg h]

theorem minus_notMem_toDigits (n : Nat) : '-' ∉ Nat.toDigits 10 n := by
  intro h
  have := Nat.isDigit_of_mem_toDigits (by decide) (by decide) h
  cases this

theorem toString_int_inj {n m : Int} (h : toString n = toString m) : n = m := by
  have hlist := congrArg String.toList h
  rw [toList_toString, toList_toString] at hlist
  -- a minus sign is no digit, so both numbers have it or neither has
  split at hlist <;> split at hlist
  · have := toDigits_inj (by decide) (by decide) hlist
    omega
  · exact absurd (hlist ▸ List.mem_cons_self ..) (minus_notMem_toDigits n.toNat)
  · exact absurd (hlist ▸ List.mem_cons_self ..) (minus_notMem_toDigits m.toNat)
  · have := toDigits_inj (by decide) (by decide) (List.cons.inj hlist).2
    omega

theorem signed_inj {n m : Int} (h : signed n = signed m) : n = m := by
  have hlist := congrArg String.toList h
  rw [toList_signed, toList_signed] at hlist
  split at hlist <;> split at hlist <;> obtain ⟨hsign, hdigits⟩ := List.cons.inj hlist
  · have := toDigits_inj (by decide) (by decide) hdigits
    omega
  · cases hsign
  · cases hsign
  · have := toDigits_inj (by decide) (by decide) hdigits
    omega

theorem mem_toString_int {n : Int} {c : Char} (h : c ∈ (toString n).toList) :
    c.isDigit = true ∨ c = '-' := by
  rw [toList_toString] at h
  split at h
  · exact .inl (Nat.isDigit_of_mem_toDigits (by decide) (by decide) h)
  · rcases List.mem_cons.mp h with rfl | h
    · exact .inr rfl
    · exact .inl (Nat.isDigit_of_mem_toDigits (by decide) (by decide) h)

end Asm6502.Text

import Mathlib.Data.List.MinMax
import Asm6502.Proofs.Detokenizing

/-! The longest keyword wins.

Keywords are tried in the order of the table, and the first that fits is taken. No keyword of the table
begins a later one, so the first that fits is also the longest (`Keyword.longest?_eq_at?`).
`tokenizeBody_munch` says that the tokenizer gives what a lexer gives that goes through the text place by
place and always takes the longest keyword (`munch`), that every keyword of the table can be had, and
that no keyword is overlooked: none is spelled out by characters that were left as they are. -/
namespace Asm6502.BasicV2

/-! ### First and longest -/

/-- The longest keyword that a text begins with. -/
def Keyword.longest? (cs : List Char) : Option Keyword :=
  (keywords.filter fun k => k.spelling.toList.isPrefixOf cs).argmax fun k => k.spelling.toList.length

/-- No keyword of the table begins a later one. -/
theorem keywords_pairwise :
    keywords.Pairwise fun k later => ¬ k.spelling.toList <+: later.spelling.toList := by
  have h : keywords.Pairwise fun k later =>
      k.spelling.toList.isPrefixOf later.spelling.toList = false := by decide +kernel
  refine h.imp fun {k later} hk hstarts => ?_
  rw [List.isPrefixOf_iff_prefix.mpr hstarts] at hk
  cases hk

/-- Of the keywords that a text begins with, all but the first in the table are shorter than it. -/
theorem Keyword.length_lt_of_at? {cs : List Char} {k other : Keyword} (h : Keyword.at? cs = some k)
    (hother : other ∈ keywords) (hstarts : other.spelling.toList <+: cs) :
    other = k ∨ other.spelling.toList.length < k.spelling.toList.length := by
  obtain ⟨hk, before, after, hsplit, hbefore⟩ := List.find?_eq_some_iff_append.mp h
  have hpairwise := keywords_pairwise
  rw [hsplit] at hother hpairwise
  rcases List.mem_append.mp hother with hmem | hmem
  · have hno := hbefore other hmem
    rw [List.isPrefixOf_iff_prefix.mpr hstarts] at hno
    cases hno
  · rcases List.mem_cons.mp hmem with rfl | hlater
    · exact .inl rfl
    · -- both begin the text, so one of them begins the other, and it cannot be the earlier one
      have hnot := (List.pairwise_cons.mp (List.pairwise_append.mp hpairwise).2.1).1 other hlater
      rcases List.prefix_or_prefix_of_prefix hstarts (List.isPrefixOf_iff_prefix.mp hk) with hle | hge
      · refine .inr (lt_of_le_of_ne hle.length_le fun hlength => hnot ?_)
        exact (hle.eq_of_length hlength) ▸ List.prefix_rfl
      · exact absurd hge hnot

/-- **The first keyword that fits is the longest one.** -/
theorem Keyword.longest?_eq_at? (cs : List Char) : Keyword.longest? cs = Keyword.at? cs := by
  unfold Keyword.longest?
  cases h : Keyword.at? cs with
  | none =>
    rw [List.argmax_eq_none, List.filter_eq_nil_iff]
    exact List.find?_eq_none.mp h
  | some k =>
    have hlonger : ∀ other ∈ keywords.filter fun k => k.spelling.toList.isPrefixOf cs,
        other = k ∨ other.spelling.toList.length < k.spelling.toList.length := by
      intro other hother
      obtain ⟨hmem, hstarts⟩ := List.mem_filter.mp hother
      exact length_lt_of_at? h hmem (List.isPrefixOf_iff_prefix.mp hstarts)
    refine List.argmax_eq_some_iff.mpr ⟨?_, fun other hother => ?_, fun other hother hge => ?_⟩
    · have hfits := List.find?_some h
      exact List.mem_filter.mpr ⟨List.mem_of_find?_eq_some h, hfits⟩
    · rcases hlonger other hother with rfl | hlt
      · exact Nat.le_refl _
      · exact Nat.le_of_lt hlt
    · rcases hlonger other hother with rfl | hlt
      · exact Nat.le_refl _
      · exact absurd hge (Nat.not_le.mpr hlt)

/-! ### A lexer that takes the longest keyword -/

/-- Cuts a text in upper case into lexemes, place by place. Inside of a keyword nothing is looked for:
`inside` counts how many of its characters are still to come. -/
def munch (reading : Reading) (inside : Nat) : List Char → List Lexeme
  | [] => []
  | c :: rest =>
    match inside with
    | inside + 1 => munch reading inside rest
    | 0 =>
      match if reading = .keywords then Keyword.longest? (c :: rest) else none with
      | some k => .keyword k :: munch k.reading (k.spelling.toList.length - 1) rest
      | none => .character reading c :: munch (reading.after c) 0 rest

theorem Reading.keyword?_eq_longest? (reading : Reading) (cs : List Char) :
    (if reading = .keywords then Keyword.longest? cs else none) = reading.keyword? cs := by
  cases reading with
  | keywords => exact Keyword.longest?_eq_at? cs
  | _ => rfl

/-- **Place by place**, the longest keywords give the lexemes of the text. -/
theorem munch_eq_lexemes (reading : Reading) (inside : Nat) (cs : List Char) :
    munch reading inside cs = lexemes reading (cs.drop inside) := by
  induction cs generalizing reading inside with
  | nil => rw [munch, List.drop_nil, lexemes]
  | cons c rest ih =>
    cases inside with
    | succ inside =>
      rw [munch, ih]
      rfl
    | zero =>
      rw [munch, List.drop_zero, lexemes, Reading.keyword?_eq_longest?]
      cases reading.keyword? (c :: rest) with
      | some k => simp only [ih]
      | none => simp only [ih, List.drop_zero]

/-! ### Nothing overlooked -/

/-- A character that stands for itself among keywords begins none. -/
theorem at?_eq_none_of_lexemes {reading : Reading} {cs : List Char} {before after : List Lexeme}
    {c : Char} (h : lexemes reading cs = before ++ .character .keywords c :: after) :
    Keyword.at? (c :: after.flatMap Lexeme.text) = none := by
  induction reading, cs using tokens.induct generalizing before with
  | case1 reading =>
    rw [lexemes] at h
    simp at h
  | case2 reading d rest k hk ih =>
    rw [lexemes, hk] at h
    cases before with
    | nil => cases h
    | cons l before => exact ih (List.cons.inj h).2
  | case3 reading d rest hk ih =>
    rw [lexemes, hk] at h
    cases before with
    | nil =>
      cases h
      rw [flatMap_text_lexemes]
      exact hk
    | cons l before => exact ih (List.cons.inj h).2

theorem flatMap_text_characters (reading : Reading) (cs : List Char) :
    (cs.map (Lexeme.character reading)).flatMap Lexeme.text = cs := by
  induction cs with
  | nil => rfl
  | cons c rest ih => simp [Lexeme.text, ih]

/-- **No keyword is overlooked**: characters that are left as they are among keywords, one behind
another, do not spell any. -/
theorem not_infix_of_lexemes {reading : Reading} {cs run : List Char} {k : Keyword} (hk : k ∈ keywords)
    (h : run.map (Lexeme.character .keywords) <:+: lexemes reading cs) :
    ¬ k.spelling.toList <:+: run := by
  rintro ⟨left, right, rfl⟩
  obtain ⟨before, after, hsplit⟩ := h
  cases hs : k.spelling.toList with
  | nil => exact spelling_ne_nil hk hs
  | cons c ks =>
    -- the lexemes, cut where the spelling begins
    have hcut : lexemes reading cs = (before ++ left.map (Lexeme.character .keywords)) ++
        .character .keywords c :: ((ks ++ right).map (Lexeme.character .keywords) ++ after) := by
      rw [← hsplit, hs]
      simp
    have hnone := at?_eq_none_of_lexemes hcut
    rw [List.flatMap_append, flatMap_text_characters] at hnone
    apply List.find?_eq_none.mp hnone k hk
    rw [List.isPrefixOf_iff_prefix, hs]
    exact ⟨right ++ after.flatMap Lexeme.text, by simp⟩

/-- Spelled out alone, a keyword is one lexeme. -/
theorem lexemes_spelling {k : Keyword} (h : k ∈ keywords) :
    lexemes .keywords (Text.upper k.spelling.toList) = [.keyword k] := by
  have hall : ∀ k ∈ keywords, Text.upper k.spelling.toList = k.spelling.toList ∧
      Keyword.at? k.spelling.toList = some k := by decide +kernel
  obtain ⟨hupper, hat⟩ := hall k h
  have hkeyword : Reading.keywords.keyword? k.spelling.toList = some k := hat
  rw [hupper]
  cases hs : k.spelling.toList with
  | nil => exact absurd hs (spelling_ne_nil h)
  | cons c rest =>
    rw [hs] at hkeyword
    rw [lexemes, hkeyword]
    simp only [hs, List.length_cons, Nat.add_sub_cancel, List.drop_length]
    rw [lexemes]

/-- **Tokenizing takes the longest keyword at each place.** It gives the tokens of the lexer that does
so; each of the 76 keywords is taken somewhere; and characters that are left as they are among keywords,
one behind another, spell none. -/
theorem tokenizeBody_munch (body : List Char) :
    tokenizeBody body = (munch .keywords 0 (Text.upper body)).mapM Lexeme.encode ∧
    (keywords.length = 76 ∧ ∀ k ∈ keywords, ∃ source,
      munch .keywords 0 (Text.upper source) = [.keyword k] ∧ tokenizeBody source = .ok [k.token]) ∧
    (∀ run : List Char,
      run.map (Lexeme.character .keywords) <:+: munch .keywords 0 (Text.upper body) →
      ∀ k ∈ keywords, ¬ k.spelling.toList <:+: run) := by
  have hmunch : ∀ source, munch .keywords 0 (Text.upper source) =
      lexemes .keywords (Text.upper source) := fun source => munch_eq_lexemes .keywords 0 _
  refine ⟨?_, ⟨rfl, fun k hk => ?_⟩, fun run hrun k hk => ?_⟩
  · rw [hmunch]
    exact tokens_eq .keywords (Text.upper body)
  · refine ⟨k.spelling.toList, ?_, ?_⟩
    · rw [hmunch, lexemes_spelling hk]
    · unfold tokenizeBody
      rw [tokens_eq, lexemes_spelling hk]
      rfl
  · rw [hmunch] at hrun
    exact not_infix_of_lexemes hk hrun

/-- `INPUT#` is taken where `INPUT` would fit too, and a word with a blank in it is not `TO`. -/
theorem spaced_word_munch :
    tokenizeBody "input#1:gosub t o".toList = .ok [0x84, 0x31, 0x3a, 0x8d, 0x20, 0x54, 0x20, 0x4f] ∧
    " T O".toList.map (Lexeme.character .keywords) <:+:
      munch .keywords 0 (Text.upper "input#1:gosub t o".toList) ∧
    ¬ "TO".toList <:+: " T O".toList := by
  obtain ⟨htokens, _, hruns⟩ := tokenizeBody_munch "input#1:gosub t o".toList
  have hbytes : (munch .keywords 0 (Text.upper "input#1:gosub t o".toList)).mapM Lexeme.encode =
      .ok [0x84, 0x31, 0x3a, 0x8d, 0x20, 0x54, 0x20, 0x4f] := by rfl
  have hrun : " T O".toList.map (Lexeme.character .keywords) <:+:
      munch .keywords 0 (Text.upper "input#1:gosub t o".toList) := by decide +kernel
  exact ⟨htokens.trans hbytes, hrun, hruns _ hrun ⟨"TO", 0xa4⟩ (by decide)⟩

end Asm6502.BasicV2

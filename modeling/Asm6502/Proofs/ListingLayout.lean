import Mathlib.Data.List.DropRight
import Mathlib.Data.List.TakeWhile
import Mathlib.Logic.Relation
import Asm6502.Proofs.Acceptance

/-! The layout of a listing does not matter.

Blank lines, blanks around a line or behind its number, carriage returns, a newline at the end and the
case of letters can be edited at will (`Edit`). Each edit keeps the wordings of the lines that are not
blank (`Edit.wordings_eq`), and the outcome depends on these alone, but for the position at which a line
without a number is reported (`chainLines_agree`). `tokenize_edited` puts both together for any
combination of edits. -/
namespace Asm6502

/-! ### Blanks at the ends -/

namespace Text

/-- Blanks that stay on their line. -/
def Blanks (cs : List Char) : Prop := ∀ c ∈ cs, isBlank c = true ∧ c ≠ '\n'

theorem Blanks.no_newline {cs : List Char} (h : Blanks cs) : '\n' ∉ cs := fun hmem => (h _ hmem).2 rfl

theorem trimLeft_blanks {blanks : List Char} (h : Blanks blanks) (cs : List Char) :
    trimLeft (blanks ++ cs) = trimLeft cs :=
  List.dropWhile_append_of_pos fun c hc => (h c hc).1

theorem trimRight_blanks {blanks : List Char} (h : Blanks blanks) (cs : List Char) :
    trimRight (cs ++ blanks) = trimRight cs := by
  unfold trimRight
  rw [List.reverse_append, List.dropWhile_append_of_pos fun c hc => (h c (List.mem_reverse.mp hc)).1]

/-- Characters that are no blanks stay, and only what follows them is trimmed. -/
theorem trimRight_append {solid : List Char} (h : ∀ c ∈ solid, isBlank c = false) (cs : List Char) :
    trimRight (solid ++ cs) = solid ++ trimRight cs := by
  have hself : solid.reverse.dropWhile isBlank = solid.reverse := by
    rw [List.dropWhile_eq_self_iff]
    intro hpos
    rw [h _ (List.mem_reverse.mp (List.getElem_mem hpos))]
    exact Bool.false_ne_true
  unfold trimRight
  rw [List.reverse_append, List.dropWhile_append]
  split
  · rename_i hempty
    rw [hself, List.reverse_reverse, List.isEmpty_iff.mp hempty, List.reverse_nil, List.append_nil]
  · rw [List.reverse_append, List.reverse_reverse]

/-- Both ends can be trimmed in either order. -/
theorem trim_eq (cs : List Char) : trim cs = trimLeft (trimRight cs) := by
  unfold trim
  induction cs with
  | nil => rfl
  | cons c rest ih =>
    cases hc : isBlank c with
    | false =>
      have hsolid : ∀ d ∈ [c], isBlank d = false := List.forall_mem_singleton.mpr hc
      have hleft : ∀ ds, trimLeft (c :: ds) = c :: ds := fun ds =>
        List.dropWhile_cons_of_neg (by rw [hc]; exact Bool.false_ne_true)
      have hright := trimRight_append hsolid rest
      rw [List.singleton_append, List.singleton_append] at hright
      rw [hleft, hright, hleft]
    | true =>
      have hleft : ∀ ds, trimLeft (c :: ds) = trimLeft ds := fun ds => List.dropWhile_cons_of_pos hc
      rw [hleft, ih]
      -- a leading blank is trimmed on the left, or on the right if nothing else is there
      have hright : trimRight (c :: rest) = c :: trimRight rest ∨
          trimRight (c :: rest) = [] ∧ trimRight rest = [] := by
        unfold trimRight
        rw [List.reverse_cons, List.dropWhile_append]
        split
        · rename_i hempty
          right
          simp [List.isEmpty_iff.mp hempty, hc]
        · left
          simp
      rcases hright with h | ⟨h, hrest⟩
      · rw [h, hleft]
      · rw [h, hrest]

theorem trim_blanks_append {blanks : List Char} (h : Blanks blanks) (cs : List Char) :
    trim (blanks ++ cs) = trim cs := by
  unfold trim
  rw [trimLeft_blanks h]

theorem trim_append_blanks {blanks : List Char} (h : Blanks blanks) (cs : List Char) :
    trim (cs ++ blanks) = trim cs := by
  rw [trim_eq, trim_eq, trimRight_blanks h]

end Text

namespace BasicV2

/-! ### Lines -/

theorem splitLines_eq (cs : List Char) : splitLines cs = cs.splitOn '\n' := by
  induction cs with
  | nil => rfl
  | cons c rest ih =>
    rw [splitLines, ih, List.splitOn_cons_eq_if_modifyHead]
    by_cases hc : c = '\n'
    · simp [hc]
    · cases hsplit : rest.splitOn '\n' with
      | nil => exact absurd hsplit (List.splitOn_ne_nil _ _)
      | cons line lines => simp [hc]

theorem programLines_append (texts more : List (List Char)) :
    programLines (texts ++ more) = programLines texts ++ programLines more := by
  simp only [programLines, List.map_append, List.filter_append]

theorem programLines_of_blank {text : List Char} (h : Text.trim text = []) :
    programLines [text] = [] := by
  simp [programLines, h]

theorem programLines_of_text {text : List Char} (h : Text.trim text ≠ []) :
    programLines [text] = [Text.trim text] := by
  simp [programLines, h]

/-- Only what is left without the blanks at its ends matters of a line. -/
theorem programLines_congr {text other : List Char} (h : Text.trim text = Text.trim other) :
    programLines [text] = programLines [other] := by
  simp only [programLines, List.map_cons, List.map_nil, h]

/-- What the lines of a text say that are not blank. -/
def wordings (cs : List Char) : List Wording := (programLines (splitLines cs)).map wording

theorem wordings_newline (before after : List Char) :
    wordings (before ++ '\n' :: after) = wordings before ++ wordings after := by
  simp only [wordings, splitLines_eq, List.splitOn_append_cons_self, programLines_append, List.map_append]

theorem wordings_line {line : List Char} (h : '\n' ∉ line) :
    wordings line = (programLines [line]).map wording := by
  rw [wordings, splitLines_eq, List.splitOn_eq_singleton h]

theorem wordings_nil : wordings [] = [] := rfl

/-! ### Edits -/

/-- What stands before a line: nothing, or lines with their newlines. -/
def LineStart (before : List Char) : Prop := before = [] ∨ ∃ earlier, before = earlier ++ ['\n']

/-- What stands behind a line: nothing, or a newline and more lines. -/
def LineEnd (after : List Char) : Prop := after = [] ∨ ∃ later, after = '\n' :: later

/-- Blanks are added to a line. -/
inductive Spaced : List Char → List Char → Prop where
  | start {blanks line} : Text.Blanks blanks → Spaced line (blanks ++ line)
  | stop {blanks line} : Text.Blanks blanks → Spaced line (line ++ blanks)
  /-- Between the number of the line and its body. -/
  | number {indent digits blanks body} : Text.Blanks indent → digits ≠ [] →
      (∀ c ∈ digits, c.isDigit = true) → (∀ c, body.head? = some c → c.isDigit = false) →
      Text.Blanks blanks →
      Spaced (indent ++ (digits ++ body)) (indent ++ (digits ++ (blanks ++ body)))

/-- An edit of the layout of a text, or of the case of its letters. -/
inductive Edit : List Char → List Char → Prop where
  | line {before line spaced after} : LineStart before → '\n' ∉ line → LineEnd after →
      Spaced line spaced → Edit (before ++ (line ++ after)) (before ++ (spaced ++ after))
  | blankLine {before blanks after} : LineStart before → Text.Blanks blanks →
      Edit (before ++ after) (before ++ (blanks ++ '\n' :: after))
  | carriageReturn {before after} : Edit (before ++ '\n' :: after) (before ++ '\r' :: '\n' :: after)
  | finalNewline {text} : Edit text (text ++ ['\n'])
  | letterCase {text other} : text.map Char.toUpper = other.map Char.toUpper → Edit text other

/-! ### Edits keep the wordings -/

theorem wordings_start {before : List Char} (h : LineStart before) (after : List Char) :
    wordings (before ++ after) = wordings before ++ wordings after := by
  rcases h with rfl | ⟨earlier, rfl⟩
  · rfl
  · rw [List.append_assoc, List.singleton_append, wordings_newline, wordings_newline, wordings_nil,
      List.append_nil]

theorem wordings_end {after : List Char} (h : LineEnd after) (before : List Char) :
    wordings (before ++ after) = wordings before ++ wordings after := by
  rcases h with rfl | ⟨later, rfl⟩
  · rw [wordings_nil, List.append_nil, List.append_nil]
  · have hnil := wordings_newline [] later
    rw [List.nil_append, wordings_nil, List.nil_append] at hnil
    rw [wordings_newline, hnil]

/-- What holds of the ten digits holds of every digit. -/
theorem forall_digit {P : Char → Prop} (h : ∀ n < 58, 48 ≤ n → P (Char.ofNat n)) {c : Char}
    (hc : c.isDigit = true) : P c := by
  obtain ⟨hlow, hhigh⟩ : 48 ≤ c.toNat ∧ c.toNat ≤ 57 := Char.isDigit_iff_toNat.mp hc
  have hchar := h c.toNat (by omega) hlow
  rw [Char.ofNat_toNat] at hchar
  exact hchar

theorem isBlank_of_isDigit {c : Char} (h : c.isDigit = true) : Text.isBlank c = false :=
  forall_digit (P := fun c => Text.isBlank c = false) (by decide) h

/-- Digits end where something else begins. -/
theorem span_digits {digits rest : List Char} (hdigits : ∀ c ∈ digits, c.isDigit = true)
    (hrest : ∀ c, rest.head? = some c → c.isDigit = false) :
    (digits ++ rest).takeWhile Char.isDigit = digits ∧
      (digits ++ rest).dropWhile Char.isDigit = rest := by
  rw [List.takeWhile_append_of_pos hdigits, List.dropWhile_append_of_pos hdigits]
  cases rest with
  | nil => simp
  | cons c rest => simp [hrest c rfl]

/-- A line with its number in front says these digits, and the rest without blanks at its ends. -/
theorem wording_of_number {indent digits body : List Char} (hindent : Text.Blanks indent)
    (hne : digits ≠ []) (hdigits : ∀ c ∈ digits, c.isDigit = true)
    (hbody : ∀ c, body.head? = some c → c.isDigit = false) :
    (programLines [indent ++ (digits ++ body)]).map wording =
      [⟨digits, Text.upper (Text.trim body)⟩] := by
  have hsolid : ∀ c ∈ digits, Text.isBlank c = false := fun c hc => isBlank_of_isDigit (hdigits c hc)
  have htrim : Text.trim (indent ++ (digits ++ body)) = digits ++ Text.trimRight body := by
    rw [Text.trim_blanks_append hindent, Text.trim_eq, Text.trimRight_append hsolid]
    cases digits with
    | nil => exact absurd rfl hne
    | cons d ds => exact List.dropWhile_cons_of_neg (by simp [hsolid d (List.mem_cons_self ..)])
  have hhead : ∀ c, (Text.trimRight body).head? = some c → c.isDigit = false := by
    intro c hc
    obtain ⟨rest, hrest⟩ := List.rdropWhile_prefix Text.isBlank body
    apply hbody c
    rw [← hrest, List.head?_append, show (body.rdropWhile Text.isBlank).head? = some c from hc]
    rfl
  obtain ⟨htake, hdrop⟩ := span_digits hdigits hhead
  have hnonblank : Text.trim (indent ++ (digits ++ body)) ≠ [] := by
    rw [htrim]
    exact List.append_ne_nil_of_left_ne_nil hne _
  rw [programLines_of_text hnonblank, htrim, List.map_singleton, wording, bodyText, htake, hdrop,
    ← Text.trim_eq]

theorem Spaced.wording_eq {line spaced : List Char} (h : Spaced line spaced) :
    (programLines [line]).map wording = (programLines [spaced]).map wording := by
  cases h with
  | start hblanks => rw [programLines_congr (Text.trim_blanks_append hblanks _)]
  | stop hblanks => rw [programLines_congr (Text.trim_append_blanks hblanks _)]
  | @number indent digits blanks body hindent hne hdigits hbody hblanks =>
    have hspaced : ∀ c, (blanks ++ body).head? = some c → c.isDigit = false := by
      cases blanks with
      | nil => exact hbody
      | cons b rest =>
        intro c hc
        cases hc
        cases hdigit : b.isDigit with
        | false => rfl
        | true =>
          have := (hblanks b (List.mem_cons_self ..)).1
          rw [isBlank_of_isDigit hdigit] at this
          cases this
    rw [wording_of_number hindent hne hdigits hbody, wording_of_number hindent hne hdigits hspaced,
      Text.trim_blanks_append hblanks]

theorem Spaced.no_newline {line spaced : List Char} (h : Spaced line spaced) (hline : '\n' ∉ line) :
    '\n' ∉ spaced := by
  cases h with
  | start hblanks => simp [hblanks.no_newline, hline]
  | stop hblanks => simp [hblanks.no_newline, hline]
  | number _ _ _ _ hblanks =>
    simp only [List.mem_append, not_or] at hline ⊢
    exact ⟨hline.1, hline.2.1, hblanks.no_newline, hline.2.2⟩

/-- Every text ends in a line. -/
theorem exists_lineStart (cs : List Char) :
    ∃ before line, cs = before ++ line ∧ LineStart before ∧ '\n' ∉ line := by
  refine ⟨cs.rdropWhile (· ≠ '\n'), cs.rtakeWhile (· ≠ '\n'),
    List.rdropWhile_append_rtakeWhile.symm, ?_, ?_⟩
  · by_cases hnil : cs.rdropWhile (· ≠ '\n') = []
    · exact .inl hnil
    · have hlast : (cs.rdropWhile (· ≠ '\n')).getLast hnil = '\n' := by
        simpa using List.rdropWhile_last_not _ _ hnil
      have hsplit := List.dropLast_append_getLast hnil
      rw [hlast] at hsplit
      exact .inr ⟨_, hsplit.symm⟩
  · intro hmem
    simpa using List.mem_rtakeWhile_imp hmem

theorem wordings_spaced {before line spaced after : List Char} (hstart : LineStart before)
    (hline : '\n' ∉ line) (hend : LineEnd after) (h : Spaced line spaced) :
    wordings (before ++ (line ++ after)) = wordings (before ++ (spaced ++ after)) := by
  rw [wordings_start hstart, wordings_start hstart, wordings_end hend, wordings_end hend,
    wordings_line hline, wordings_line (h.no_newline hline), h.wording_eq]

/-! ### Letters -/

/-- What does not tell the letters of both cases apart does not tell a text from its capitals. -/
theorem apply_toUpper {β : Type} (f : Char → β)
    (h : ∀ n < 123, 97 ≤ n → f (Char.ofNat n).toUpper = f (Char.ofNat n)) (c : Char) :
    f c.toUpper = f c := by
  by_cases hlower : 97 ≤ c.toNat ∧ c.toNat ≤ 122
  · have hletter := h c.toNat (Nat.lt_succ_of_le hlower.2) hlower.1
    rwa [Char.ofNat_toNat] at hletter
  · have hother : ¬ ('a'.val ≤ c.val ∧ c.val ≤ 'z'.val) := by
      rw [UInt32.le_iff_toNat_le, UInt32.le_iff_toNat_le]
      exact hlower
    have hsame : c.toUpper = c := dif_neg hother
    rw [hsame]

theorem isBlank_comp_toUpper : Text.isBlank ∘ Char.toUpper = Text.isBlank :=
  funext (apply_toUpper Text.isBlank (by decide))

theorem isDigit_comp_toUpper : Char.isDigit ∘ Char.toUpper = Char.isDigit :=
  funext (apply_toUpper Char.isDigit (by decide))

theorem upper_map_toUpper (cs : List Char) : Text.upper (cs.map Char.toUpper) = Text.upper cs := by
  rw [Text.upper, List.flatMap_map]
  exact congrArg (cs.flatMap ·) (funext (apply_toUpper Text.upperChar (by decide)))

theorem trimLeft_map_toUpper (cs : List Char) :
    Text.trimLeft (cs.map Char.toUpper) = (Text.trimLeft cs).map Char.toUpper := by
  rw [Text.trimLeft, List.dropWhile_map, isBlank_comp_toUpper, Text.trimLeft]

theorem trim_map_toUpper (cs : List Char) :
    Text.trim (cs.map Char.toUpper) = (Text.trim cs).map Char.toUpper := by
  rw [Text.trim, trimLeft_map_toUpper, Text.trimRight, ← List.map_reverse, List.dropWhile_map,
    isBlank_comp_toUpper, ← List.map_reverse, Text.trim, Text.trimRight]

theorem toUpper_of_isDigit {c : Char} (h : c.isDigit = true) : c.toUpper = c :=
  forall_digit (P := fun c => c.toUpper = c) (by decide) h

theorem wording_map_toUpper (text : List Char) : wording (text.map Char.toUpper) = wording text := by
  have hdigits : (text.takeWhile Char.isDigit).map Char.toUpper = text.takeWhile Char.isDigit := by
    refine (List.map_congr_left fun c hc => ?_).trans (List.map_id _)
    exact toUpper_of_isDigit (List.mem_takeWhile_imp hc)
  rw [wording, bodyText, List.takeWhile_map, List.dropWhile_map, isDigit_comp_toUpper, hdigits,
    trimLeft_map_toUpper, upper_map_toUpper]
  rfl

theorem toUpper_eq_newline (c : Char) : c.toUpper = '\n' ↔ c = '\n' :=
  decide_eq_decide.mp (apply_toUpper (fun d => decide (d = '\n')) (by decide) c)

theorem splitLines_map_toUpper (cs : List Char) :
    splitLines (cs.map Char.toUpper) = (splitLines cs).map (List.map Char.toUpper) := by
  induction cs with
  | nil => rfl
  | cons c rest ih =>
    rw [List.map_cons, splitLines, splitLines, ih]
    by_cases hc : c = '\n'
    · rw [if_pos hc, if_pos ((toUpper_eq_newline c).mpr hc)]
      rfl
    · rw [if_neg hc, if_neg fun h => hc ((toUpper_eq_newline c).mp h)]
      cases splitLines rest <;> rfl

theorem programLines_map_toUpper (texts : List (List Char)) :
    programLines (texts.map (List.map Char.toUpper)) =
      (programLines texts).map (List.map Char.toUpper) := by
  have htrim : Text.trim ∘ List.map Char.toUpper = List.map Char.toUpper ∘ Text.trim :=
    funext trim_map_toUpper
  have hempty : (fun text : List Char => !text.isEmpty) ∘ List.map Char.toUpper =
      fun text => !text.isEmpty := by
    funext text
    simp
  rw [programLines, List.map_map, htrim, ← List.map_map, List.filter_map, hempty, programLines]

theorem wordings_map_toUpper (cs : List Char) : wordings (cs.map Char.toUpper) = wordings cs := by
  rw [wordings, splitLines_map_toUpper, programLines_map_toUpper, List.map_map]
  exact List.map_congr_left fun text _ => wording_map_toUpper text

/-- **An edit keeps what the lines say.** -/
theorem Edit.wordings_eq {text other : List Char} (h : Edit text other) :
    wordings text = wordings other := by
  cases h with
  | line hstart hline hend hspaced => exact wordings_spaced hstart hline hend hspaced
  | @blankLine before blanks after hstart hblanks =>
    have htrim := Text.trim_blanks_append hblanks []
    rw [List.append_nil] at htrim
    rw [wordings_start hstart, wordings_start hstart, wordings_newline, wordings_line hblanks.no_newline,
      programLines_of_blank htrim]
    rfl
  | @carriageReturn before after =>
    -- a carriage return is a blank at the end of the line before it
    obtain ⟨earlier, line, rfl, hstart, hline⟩ := exists_lineStart before
    have hreturn : Text.Blanks ['\r'] := by
      intro c hc
      cases List.mem_singleton.mp hc
      decide
    have h := wordings_spaced hstart hline (.inr ⟨after, rfl⟩) (.stop hreturn)
    simpa using h
  | finalNewline => rw [wordings_newline, wordings_nil, List.append_nil]
  | letterCase hcase => rw [← wordings_map_toUpper, hcase, wordings_map_toUpper]

theorem wordings_of_edits {text other : List Char} (h : Relation.EqvGen Edit text other) :
    wordings text = wordings other := by
  induction h with
  | rel _ _ hedit => exact hedit.wordings_eq
  | refl _ => rfl
  | symm _ _ _ ih => exact ih.symm
  | trans _ _ _ _ _ hfirst hsecond => exact hfirst.trans hsecond

/-! ### Outcomes -/

/-- A wording lacks a number, stands for a line, or is refused, and the position does not matter but
in the first case. -/
theorem Wording.read_cases (w : Wording) :
    (∀ index, w.read index = .error (.missingLineNumber (index + 1))) ∨
    (∃ line, ∀ index, w.read index = .ok line) ∨
    (∃ e, (∀ line, e ≠ .missingLineNumber line) ∧ ∀ index, w.read index = .error e) := by
  by_cases hdigits : w.digits.isEmpty
  · exact .inl fun index => if_pos hdigits
  · refine .inr ?_
    by_cases hnumber : decimal w.digits ≤ maxLineNumber
    · have hread : ∀ index, w.read index =
          (tokens .keywords w.statements).map (Line.mk (decimal w.digits)) := fun index =>
        (if_neg hdigits).trans (if_pos hnumber)
      cases htokens : tokens .keywords w.statements with
      | ok body =>
        refine .inl ⟨⟨decimal w.digits, body⟩, fun index => ?_⟩
        rw [hread, htokens]
        rfl
      | error e =>
        have hfailure := failure_tokens .keywords w.statements
        rw [htokens] at hfailure
        obtain ⟨c, _, hc⟩ := Option.map_eq_some_iff.mp hfailure.symm
        refine .inr ⟨e, fun line => ?_, fun index => ?_⟩
        · rw [← hc]
          exact BasicError.noConfusion
        · rw [hread, htokens]
          rfl
    · refine .inr ⟨.lineNumberOutOfRange (String.ofList w.digits), fun line => BasicError.noConfusion,
        fun index => (if_neg hdigits).trans (if_neg hnumber)⟩

/-- Outcomes of two listings that agree, given the positions of their lines: the same tokens or the same
error, where a line without a number is reported by its own position in each. -/
inductive Agree (places others : List Nat) :
    Except BasicError (List UInt8) → Except BasicError (List UInt8) → Prop where
  | tokens {bytes} : Agree places others (.ok bytes) (.ok bytes)
  | missing {k : Nat} {place other} : places[k]? = some place → others[k]? = some other →
      Agree places others (.error (.missingLineNumber place)) (.error (.missingLineNumber other))
  | refused {e} : (∀ line, e ≠ .missingLineNumber line) → Agree places others (.error e) (.error e)

theorem Agree.behind {places others : List Nat} {x y : Except BasicError (List UInt8)}
    (h : Agree places others x y) (place other : Nat) (f : List UInt8 → List UInt8) :
    Agree (place :: places) (other :: others) (x.map f) (y.map f) := by
  cases h with
  | tokens => exact .tokens
  | @missing k _ _ hplace hother => exact .missing (k := k + 1) hplace hother
  | refused he => exact .refused he

/-- **The outcome depends on what the lines say**, but for the position of a line without a number. -/
theorem chainLines_agree {ls ms : List (Nat × List Char)}
    (h : ls.map (fun p => wording p.2) = ms.map fun p => wording p.2) (address : Nat) :
    Agree (ls.map (·.1 + 1)) (ms.map (·.1 + 1)) (chainLines address ls) (chainLines address ms) := by
  induction ls generalizing ms address with
  | nil =>
    cases ms with
    | nil => exact .tokens
    | cons q ms => cases h
  | cons p ls ih =>
    cases ms with
    | nil => cases h
    | cons q ms =>
      obtain ⟨index, text⟩ := p
      obtain ⟨other, twin⟩ := q
      obtain ⟨hwording, hrest⟩ := List.cons.inj h
      have hwording : wording text = wording twin := hwording
      rw [chainLines, chainLines, Line.read_eq, Line.read_eq, hwording]
      rcases (wording twin).read_cases with hmissing | ⟨line, hline⟩ | ⟨e, he, herror⟩
      · rw [hmissing, hmissing]
        exact .missing (k := 0) rfl rfl
      · rw [hline, hline]
        show Agree _ _ (if _ then _ else _) (if _ then _ else _)
        split
        · exact .refused fun line => BasicError.noConfusion
        · exact (ih hrest _).behind _ _ _
      · rw [herror, herror]
        exact .refused he

/-- The positions of the lines of a listing that are not blank, counted from one. -/
def positions (listing : String) : List Nat := (positioned 0 (splitLines listing.toList)).map (·.1 + 1)

/-- **The layout of a listing and the case of its letters do not matter.** Whatever edits lead from one
listing to another, both have the same tokens or the same error, and a line without a number, the same
line in both, is reported by the position that it has in each. -/
theorem tokenize_edited {listing edited : String}
    (h : Relation.EqvGen Edit listing.toList edited.toList) (origin : UInt16) :
    Agree (positions listing) (positions edited) (tokenize listing origin) (tokenize edited origin) := by
  have hwordings := wordings_of_edits h
  unfold wordings at hwordings
  rw [← map_snd_positioned 0, ← map_snd_positioned 0, List.map_map, List.map_map] at hwordings
  unfold tokenize
  rw [chain_eq, chain_eq]
  exact chainLines_agree hwordings _

/-- The line without a number is the second line that is not blank in both, and moves on by one. -/
theorem numberless_line_edited :
    Relation.EqvGen Edit "10 end\nprint".toList "10 END\n \nprint\n".toList ∧
    tokenize "10 end\nprint" 0x0801 = .error (.missingLineNumber 2) ∧
    tokenize "10 END\n \nprint\n" 0x0801 = .error (.missingLineNumber 3) := by
  have hblank : Text.Blanks [' '] := by
    intro c hc
    cases List.mem_singleton.mp hc
    decide
  have hcase : Edit "10 end\nprint".toList "10 END\nprint".toList := .letterCase (by decide)
  have hline : Edit "10 END\nprint".toList "10 END\n \nprint".toList :=
    @Edit.blankLine "10 END\n".toList [' '] "print".toList (.inr ⟨"10 END".toList, rfl⟩) hblank
  have hfinal : Edit "10 END\n \nprint".toList "10 END\n \nprint\n".toList := .finalNewline
  have hedits := (Relation.EqvGen.rel _ _ hcase).trans _ _ _ ((Relation.EqvGen.rel _ _ hline).trans _ _ _
    (.rel _ _ hfinal))
  have hmissing : tokenize "10 end\nprint" 0x0801 = .error (.missingLineNumber 2) := by decide +kernel
  have hpositions : positions "10 end\nprint" = [1, 2] := by decide +kernel
  have hothers : positions "10 END\n \nprint\n" = [1, 3] := by decide +kernel
  have hagree := tokenize_edited hedits 0x0801
  rw [hmissing, hpositions, hothers] at hagree
  refine ⟨hedits, hmissing, ?_⟩
  cases hedited : tokenize "10 END\n \nprint\n" 0x0801 with
  | ok bytes =>
    rw [hedited] at hagree
    cases hagree
  | error e =>
    rw [hedited] at hagree
    cases hagree with
    | @missing k _ other hplace hother =>
      rcases k with _ | _ | k
      · cases hplace
      · cases hother
        rfl
      · cases hplace
    | refused he => exact absurd rfl (he 2)

end BasicV2

end Asm6502

import Asm6502.Proofs.Construction
import Asm6502.Proofs.Numerals

/-! What a written instruction tells.

An operand is an argument in the frame of its mode, and an argument is a number, or a name between
what its modifier puts before and behind it. The characters that frame, the characters of names and
the characters of modifiers differ, so each part ends where the next begins. A written instruction
can then be read in one way only (`Legible.eq_of_source`), provided that it has a mode, that its
label is a name, and that it is no branch by a given distance, which is written like a branch
relative to the instruction itself. -/
namespace Asm6502

/-! ### Texts in parts -/

/-- There is one way to cut a text behind its first characters of a kind. -/
theorem append_eq_append_of_span {α : Type} {p : α → Bool} {u v r s : List α}
    (hu : ∀ a ∈ u, p a = true) (hv : ∀ a ∈ v, p a = true) (hr : ∀ a ∈ r.head?, p a = false)
    (hs : ∀ a ∈ s.head?, p a = false) (h : u ++ r = v ++ s) : u = v ∧ r = s := by
  have cut : ∀ {w t : List α}, (∀ a ∈ w, p a = true) → (∀ a ∈ t.head?, p a = false) →
      (w ++ t).takeWhile p = w := by
    intro w t hw ht
    rw [List.takeWhile_append_of_pos hw]
    cases t with
    | nil => simp
    | cons a t => simp [ht a rfl]
  have huv : u = v := by rw [← cut hu hr, h, cut hv hs]
  subst huv
  exact ⟨rfl, List.append_cancel_left h⟩

theorem forall_head_append {α : Type} {p : α → Prop} {u r : List α} (hu : u ≠ [])
    (h : ∀ a ∈ u, p a) : ∀ a ∈ (u ++ r).head?, p a := by
  obtain ⟨b, u, rfl⟩ := List.exists_cons_of_ne_nil hu
  intro a ha
  cases ha
  exact h _ (List.mem_cons_self ..)

/-! ### Frames -/

/-- Does the character belong to the frame of an operand? -/
def isFraming (c : Char) : Bool := c = ' ' || c = '#' || c = '(' || c = ')' || c = ','

theorem isFraming_of_isAlphanum {c : Char} (h : c.isAlphanum = true) : isFraming c = false := by
  cases hc : isFraming c with
  | false => rfl
  | true =>
    simp only [isFraming, Bool.or_eq_true, decide_eq_true_eq] at hc
    rcases hc with (((rfl | rfl) | rfl) | rfl) | rfl <;> cases h

theorem Mode.mem_all (mode : Mode) : mode ∈ Mode.all := by
  cases mode <;> decide

/-- A frame opens with characters of its own, and closes with one unless it just ends. -/
theorem Mode.isFraming_frame {mode : Mode} {before after : String}
    (h : mode.frame = some (before, after)) :
    before.toList ≠ [] ∧ (∀ c ∈ before.toList, isFraming c = true) ∧
      ∀ c ∈ after.toList.head?, isFraming c = true := by
  have hall : ∀ mode ∈ Mode.all, ∀ f ∈ mode.frame, f.1.toList ≠ [] ∧
      f.1.toList.all isFraming = true ∧ f.2.toList.head?.all isFraming = true := by decide
  obtain ⟨hne, hopen, hclose⟩ := hall mode mode.mem_all (before, after) h
  refine ⟨hne, List.all_eq_true.mp hopen, fun c hc => ?_⟩
  change after.toList.head?.all isFraming = true at hclose
  rw [hc] at hclose
  exact hclose

/-- What can stand in a frame: some text without framing characters. -/
structure Framed (text : String) : Prop where
  nonempty : text.toList ≠ []
  plain : ∀ c ∈ text.toList, isFraming c = false

/-- A written operand tells the frame and the argument. -/
theorem Mode.render_inj {a b : Mode} {s t : String} (hs : Framed s) (ht : Framed t)
    (ha : a.frame ≠ none) (hb : b.frame ≠ none) (h : a.render s = b.render t) :
    a.frame = b.frame ∧ s = t := by
  obtain ⟨⟨before, after⟩, hfa⟩ := Option.ne_none_iff_exists'.mp ha
  obtain ⟨⟨before', after'⟩, hfb⟩ := Option.ne_none_iff_exists'.mp hb
  obtain ⟨_, hopen, hclose⟩ := Mode.isFraming_frame hfa
  obtain ⟨_, hopen', hclose'⟩ := Mode.isFraming_frame hfb
  have hlist := congrArg String.toList h
  simp only [Mode.render, hfa, hfb, String.toList_append, List.append_assoc] at hlist
  obtain ⟨hbefore, hrest⟩ := append_eq_append_of_span hopen hopen'
    (forall_head_append hs.nonempty hs.plain) (forall_head_append ht.nonempty ht.plain) hlist
  obtain ⟨htext, hafter⟩ := append_eq_append_of_span (p := fun c => !isFraming c)
    (fun c hc => by rw [hs.plain c hc]; rfl) (fun c hc => by rw [ht.plain c hc]; rfl)
    (fun c hc => by rw [hclose c hc]; rfl) (fun c hc => by rw [hclose' c hc]; rfl) hrest
  rw [hfa, hfb, String.toList_inj.mp hbefore, String.toList_inj.mp hafter]
  exact ⟨rfl, String.toList_inj.mp htext⟩

theorem Mode.exists_framing_render {mode : Mode} (h : mode.frame ≠ none) (text : String) :
    ∃ c ∈ (mode.render text).toList, isFraming c = true := by
  obtain ⟨⟨before, after⟩, hf⟩ := Option.ne_none_iff_exists'.mp h
  obtain ⟨hne, hopen, _⟩ := Mode.isFraming_frame hf
  obtain ⟨c, hc⟩ := List.exists_mem_of_ne_nil _ hne
  refine ⟨c, ?_, hopen c hc⟩
  simp only [Mode.render, hf, String.toList_append]
  exact List.mem_append_left _ (List.mem_append_left _ hc)

theorem Mode.render_ne_empty {mode : Mode} (h : mode.frame ≠ none) (text : String) :
    mode.render text ≠ "" := by
  obtain ⟨c, hc, _⟩ := Mode.exists_framing_render h text
  intro hempty
  rw [hempty] at hc
  cases hc

/-- Modes without a frame are those without an operand. -/
theorem Mode.frame_eq_none_iff (mode : Mode) : mode.frame = none ↔ mode.operandSize = 0 := by
  cases mode <;> simp [Mode.frame, Mode.operandSize]

/-- A mode that takes values has a frame to write them in. -/
theorem Mode.frame_ne_none {mode : Mode} {lo hi : Int} (h : mode.domain = some (lo, hi)) :
    mode.frame ≠ none := by
  cases mode with
  | implied => cases h
  | accumulator => cases h
  | _ => exact Option.some_ne_none _

theorem Mode.frame_ne_none_of_accepts {mode : Mode} {v : Int} (h : mode.accepts (some v) = true) :
    mode.frame ≠ none := by
  obtain ⟨_, _, hdomain, _⟩ := Mode.domain_of_accepts h
  exact Mode.frame_ne_none hdomain

theorem Mode.TakesLabel.frame_ne_none {mode : Mode} {x : Option Modifier} (h : mode.TakesLabel x) :
    mode.frame ≠ none := by
  obtain ⟨_, _, hdomain⟩ := h.domain_isSome
  exact Mode.frame_ne_none hdomain

/-! ### Names -/

def isNameCharacter (c : Char) : Bool := c.isAlphanum || c == '_'

theorem isFraming_of_isNameCharacter {c : Char} (h : isNameCharacter c = true) :
    isFraming c = false := by
  unfold isNameCharacter at h
  rw [Bool.or_eq_true, beq_iff_eq] at h
  rcases h with h | rfl
  · exact isFraming_of_isAlphanum h
  · rfl

theorem isNameCharacter_of_isIdentifier {cs : List Char} (h : isIdentifier cs = true) :
    cs ≠ [] ∧ ∀ c ∈ cs, isNameCharacter c = true := by
  cases cs with
  | nil => cases h
  | cons c rest =>
    simp only [isIdentifier, Bool.and_eq_true, List.all_eq_true] at h
    refine ⟨List.cons_ne_nil _ _, List.forall_mem_cons.mpr ⟨?_, h.2⟩⟩
    rcases Bool.or_eq_true _ _ ▸ h.1 with halpha | hscore
    · simp [isNameCharacter, Char.isAlphanum, halpha]
    · simp [isNameCharacter, hscore]

theorem toList_selfReference : Argument.selfReference.toList = ['*'] := by decide

/-- The labels that a reference can have in a block that links. -/
def IsName (name : String) : Prop :=
  name = Argument.selfReference ∨ isIdentifier name.toList = true

theorem IsName.head {name : String} (h : IsName name) :
    ∃ c cs, name.toList = c :: cs ∧ (c = '*' ∨ isNameCharacter c = true) := by
  rcases h with rfl | h
  · exact ⟨'*', [], toList_selfReference, .inl rfl⟩
  · obtain ⟨hne, hall⟩ := isNameCharacter_of_isIdentifier h
    obtain ⟨c, cs, hc⟩ := List.exists_cons_of_ne_nil hne
    exact ⟨c, cs, hc, .inr (hall c (by rw [hc]; exact List.mem_cons_self ..))⟩

/-- A name ends where a character stands that is not one of a name. -/
theorem IsName.append_inj {name name' : String} {t t' : List Char} (hn : IsName name)
    (hn' : IsName name') (ht : ∀ c ∈ t.head?, isNameCharacter c = false)
    (ht' : ∀ c ∈ t'.head?, isNameCharacter c = false) (h : name.toList ++ t = name'.toList ++ t') :
    name = name' ∧ t = t' := by
  -- no identifier begins with the character that is the self reference
  have apart : ∀ {cs r s : List Char}, isIdentifier cs = true → '*' :: r ≠ cs ++ s := by
    intro cs r s hcs heq
    obtain ⟨hne, hall⟩ := isNameCharacter_of_isIdentifier hcs
    obtain ⟨c, cs', rfl⟩ := List.exists_cons_of_ne_nil hne
    obtain ⟨rfl, _⟩ := List.cons.inj heq
    cases hall '*' (List.mem_cons_self ..)
  rcases hn with rfl | hn <;> rcases hn' with rfl | hn'
  · rw [toList_selfReference] at h
    exact ⟨rfl, (List.cons.inj h).2⟩
  · rw [toList_selfReference] at h
    exact absurd h (apart hn')
  · rw [toList_selfReference] at h
    exact absurd h.symm (apart hn)
  · obtain ⟨hname, hrest⟩ := append_eq_append_of_span (isNameCharacter_of_isIdentifier hn).2
      (isNameCharacter_of_isIdentifier hn').2 ht ht' h
    exact ⟨String.toList_inj.mp hname, hrest⟩

/-! ### References -/

/-- A label as written with its modifier, if it has one. -/
def referenceText (name : String) : Option Modifier → String
  | some x => x.render name
  | none => name

/-- What a modifier puts before a name. -/
def Modifier.lead : Option Modifier → List Char
  | some .lowByte => ['<']
  | some .highByte => ['>']
  | _ => []

/-- What a modifier puts behind a name. -/
def Modifier.tail : Option Modifier → List Char
  | some (.arithmetic .add n) => (Text.signed n).toList
  | some (.arithmetic op n) => op.symbol.toList ++ (toString n).toList
  | _ => []

theorem toList_referenceText (name : String) (x : Option Modifier) :
    (referenceText name x).toList = Modifier.lead x ++ (name.toList ++ Modifier.tail x) := by
  rcases x with _ | (_ | _ | ⟨op, n⟩)
  · exact (List.append_nil _).symm
  · simp [referenceText, Modifier.render, Modifier.lead, Modifier.tail]
  · simp [referenceText, Modifier.render, Modifier.lead, Modifier.tail]
  · cases op <;> simp [referenceText, Modifier.render, Modifier.lead, Modifier.tail]

def isByteSign (c : Char) : Bool := c = '<' || c = '>'

theorem isFraming_of_isByteSign {c : Char} (h : isByteSign c = true) : isFraming c = false := by
  simp only [isByteSign, Bool.or_eq_true, decide_eq_true_eq] at h
  rcases h with rfl | rfl <;> rfl

theorem Modifier.isByteSign_lead (x : Option Modifier) :
    ∀ c ∈ Modifier.lead x, isByteSign c = true := by
  rcases x with _ | (_ | _ | _)
  · exact nofun
  · exact List.forall_mem_singleton.mpr rfl
  · exact List.forall_mem_singleton.mpr rfl
  · exact nofun

theorem IsName.isByteSign_head {name : String} {t : List Char} (h : IsName name) :
    ∀ c ∈ (name.toList ++ t).head?, isByteSign c = false := by
  intro c hc
  obtain ⟨d, ds, hd, hkind⟩ := h.head
  rw [hd] at hc
  cases hc
  cases hsign : isByteSign c with
  | false => rfl
  | true =>
    simp only [isByteSign, Bool.or_eq_true, decide_eq_true_eq] at hsign
    rcases hsign with rfl | rfl <;> rcases hkind with hkind | hkind <;> cases hkind

/-- The first character behind a name: the sign of a number to add, or the operation. -/
def ArithmeticOp.mark (n : Int) : ArithmeticOp → Char
  | add => if 0 ≤ n then '+' else '-'
  | div => '/'
  | mul => '*'
  | shl => '<'
  | shr => '>'
  | and => '&'
  | or => '|'

theorem head_tail_arithmetic (op : ArithmeticOp) (n : Int) :
    (Modifier.tail (some (.arithmetic op n))).head? = some (op.mark n) := by
  cases op with
  | add =>
    rw [Modifier.tail, Text.toList_signed, ArithmeticOp.mark]
    split <;> rfl
  | _ => rfl

/-- The operation that a mark stands for. -/
def ArithmeticOp.ofMark? : Char → Option ArithmeticOp
  | '+' | '-' => some add
  | '/' => some div
  | '*' => some mul
  | '<' => some shl
  | '>' => some shr
  | '&' => some and
  | '|' => some or
  | _ => none

theorem ArithmeticOp.ofMark?_mark (op : ArithmeticOp) (n : Int) : ofMark? (op.mark n) = some op := by
  cases op with
  | add =>
    show ofMark? (if 0 ≤ n then '+' else '-') = some add
    split <;> rfl
  | _ => rfl

theorem Modifier.isNameCharacter_tail (x : Option Modifier) :
    ∀ c ∈ (Modifier.tail x).head?, isNameCharacter c = false := by
  rcases x with _ | (_ | _ | ⟨op, n⟩)
  · exact nofun
  · exact nofun
  · exact nofun
  · intro c hc
    rw [head_tail_arithmetic] at hc
    cases hc
    cases op with
    | add =>
      show isNameCharacter (if 0 ≤ n then '+' else '-') = false
      split <;> rfl
    | _ => rfl

theorem Modifier.isFraming_tail (x : Option Modifier) :
    ∀ c ∈ Modifier.tail x, isFraming c = false := by
  have number : ∀ n : Int, ∀ c ∈ (toString n).toList, isFraming c = false := by
    intro n c hc
    rcases Text.mem_toString_int hc with hdigit | rfl
    · exact isFraming_of_isAlphanum (by simp [Char.isAlphanum, hdigit])
    · rfl
  intro c hc
  rcases x with _ | (_ | _ | ⟨op, n⟩)
  · cases hc
  · cases hc
  · cases hc
  · have hsymbol : op.symbol.toList.any isFraming = false := by cases op <;> decide
    have symbol : ∀ c ∈ op.symbol.toList, isFraming c = false := by simpa using hsymbol
    cases op with
    | add =>
      change c ∈ (Text.signed n).toList at hc
      unfold Text.signed at hc
      split at hc
      · exact number n c hc
      · rw [String.toList_append] at hc
        exact (List.mem_append.mp hc).elim (symbol c) (number n c)
    | _ => exact (List.mem_append.mp hc).elim (symbol c) (number n c)

/-- What an operation puts behind a name tells the operation and its number. -/
theorem Modifier.eq_of_tail_arithmetic {op : ArithmeticOp} {n : Int} {y : Option Modifier}
    (h : Modifier.tail (some (.arithmetic op n)) = Modifier.tail y) : some (.arithmetic op n) = y := by
  have hhead := congrArg List.head? h
  rw [head_tail_arithmetic] at hhead
  rcases y with _ | (_ | _ | ⟨op', n'⟩)
  · cases hhead
  · cases hhead
  · cases hhead
  · rw [head_tail_arithmetic] at hhead
    have hop := congrArg ArithmeticOp.ofMark? (Option.some.inj hhead)
    rw [ArithmeticOp.ofMark?_mark, ArithmeticOp.ofMark?_mark] at hop
    cases hop
    have hn : n = n' := by
      cases op with
      | add => exact Text.signed_inj (String.toList_inj.mp h)
      | _ => exact Text.toString_int_inj (String.toList_inj.mp (List.append_cancel_left h))
    rw [hn]

/-- What stands before and behind a name tells the modifier. -/
theorem Modifier.eq_of_lead_tail {x y : Option Modifier} (hlead : Modifier.lead x = Modifier.lead y)
    (htail : Modifier.tail x = Modifier.tail y) : x = y := by
  rcases x with _ | (_ | _ | ⟨op, n⟩)
  case some.arithmetic => exact Modifier.eq_of_tail_arithmetic htail
  all_goals rcases y with _ | (_ | _ | ⟨op, n⟩)
  case some.arithmetic | some.arithmetic | some.arithmetic =>
    exact (Modifier.eq_of_tail_arithmetic htail.symm).symm
  case none.none | some.lowByte.some.lowByte | some.highByte.some.highByte => rfl
  all_goals cases hlead

/-- **A written reference tells its label and its modifier.** -/
theorem referenceText_inj {name name' : String} {x y : Option Modifier} (hn : IsName name)
    (hn' : IsName name') (h : referenceText name x = referenceText name' y) : name = name' ∧ x = y := by
  have hlist := congrArg String.toList h
  rw [toList_referenceText, toList_referenceText] at hlist
  obtain ⟨hlead, hrest⟩ := append_eq_append_of_span (Modifier.isByteSign_lead x)
    (Modifier.isByteSign_lead y) hn.isByteSign_head hn'.isByteSign_head hlist
  obtain ⟨hname, htail⟩ := hn.append_inj hn' (Modifier.isNameCharacter_tail x)
    (Modifier.isNameCharacter_tail y) hrest
  exact ⟨hname, Modifier.eq_of_lead_tail hlead htail⟩

/-! ### Instructions -/

theorem Mnemonic.length_name (m : Mnemonic) : m.name.toList.length = 3 := by
  cases m <;> rfl

theorem Mnemonic.ofName?_name (m : Mnemonic) : ofName? m.name = some m := by
  cases m <;> decide

theorem Mnemonic.isNameCharacter_name (m : Mnemonic) :
    m.name.toList ≠ [] ∧ ∀ c ∈ m.name.toList, isNameCharacter c = true := by
  have hname : m.name.toList.all isNameCharacter = true := by cases m <;> decide
  refine ⟨?_, List.all_eq_true.mp hname⟩
  intro hnil
  have hlength := m.length_name
  rw [hnil] at hlength
  cases hlength

/-- No mnemonic has both modes that are written without an operand. -/
theorem Mnemonic.supports_implied_or_accumulator (m : Mnemonic) :
    m.supports .implied = false ∨ m.supports .accumulator = false := by
  cases m <;> decide

/-- No mnemonic has both modes in which a bare label stands for its address. -/
theorem Mnemonic.supports_absolute_or_relative (m : Mnemonic) :
    m.supports .absolute = false ∨ m.supports .relative = false := by
  cases m <;> decide

/-- Among the modes that are no branches, frame and size tell the mode. -/
theorem Mode.eq_of_frame_of_size {a b : Mode} (hframe : a.frame = b.frame)
    (hsize : a.operandSize = b.operandSize) (ha : a.operandSize ≠ 0) (har : a ≠ .relative)
    (hbr : b ≠ .relative) : a = b := by
  have hall : ∀ a ∈ Mode.all, ∀ b ∈ Mode.all, a.frame = b.frame → a.operandSize = b.operandSize →
      a.operandSize ≠ 0 → a ≠ .relative → b ≠ .relative → a = b := by decide
  exact hall a a.mem_all b b.mem_all hframe hsize ha har hbr

/-- Among the modes that go with a label, the frame tells the mode but for branches and jumps. -/
theorem Mode.TakesLabel.eq_of_frame {a b : Mode} {x y : Option Modifier} (ha : a.TakesLabel x)
    (hb : b.TakesLabel y) (hframe : a.frame = b.frame) :
    a = b ∨ (a = .absolute ∧ b = .relative) ∨ (a = .relative ∧ b = .absolute) := by
  have hall : ∀ a ∈ Mode.all, ∀ b ∈ Mode.all, a.admitsLabel = true ∨ a = .immediate →
      b.admitsLabel = true ∨ b = .immediate → a.frame = b.frame →
      a = b ∨ (a = .absolute ∧ b = .relative) ∨ (a = .relative ∧ b = .absolute) := by decide
  exact hall a a.mem_all b b.mem_all (ha.admits.imp_right And.left) (hb.admits.imp_right And.left)
    hframe

namespace Instruction

/-- What is written behind the mnemonic. -/
def operandText (i : Instruction) : String :=
  match i.mode? with
  | some mode => mode.render (i.renderArgument mode)
  | none => ""

theorem source_eq (i : Instruction) : i.source = i.mnemonic.name ++ i.operandText := by
  unfold source operandText
  cases i.mode? with
  | none => exact String.append_empty.symm
  | some mode =>
    by_cases hsize : mode.operandSize = 0
    · have hrender : mode.render (i.renderArgument mode) = "" := by
        simp only [Mode.render, (Mode.frame_eq_none_iff mode).mpr hsize]
      simp only [if_pos hsize, hrender, String.append_empty]
    · exact if_neg hsize

/-- A written instruction tells its mnemonic. -/
theorem mnemonic_eq_of_source {i j : Instruction} (h : i.source = j.source) :
    i.mnemonic = j.mnemonic ∧ i.operandText = j.operandText := by
  rw [source_eq, source_eq] at h
  have hlist := congrArg String.toList h
  rw [String.toList_append, String.toList_append] at hlist
  obtain ⟨hname, htext⟩ := List.append_inj hlist
    (i.mnemonic.length_name.trans j.mnemonic.length_name.symm)
  have hmnemonic := congrArg Mnemonic.ofName? (String.toList_inj.mp hname)
  rw [Mnemonic.ofName?_name, Mnemonic.ofName?_name] at hmnemonic
  exact ⟨Option.some.inj hmnemonic, String.toList_inj.mp htext⟩

/-- A number as written in the operand of a mode. -/
def numberText (mode : Mode) (v : Int) : String := "$" ++ Text.hex (2 * mode.operandSize) v.toNat

theorem toList_numberText (mode : Mode) (v : Int) :
    (numberText mode v).toList = '$' :: (Text.hex (2 * mode.operandSize) v.toNat).toList := by
  rw [numberText, String.toList_append]
  rfl

theorem framed_numberText (mode : Mode) (v : Int) : Framed (numberText mode v) := by
  refine ⟨by rw [toList_numberText]; exact List.cons_ne_nil _ _, ?_⟩
  rw [toList_numberText]
  exact List.forall_mem_cons.mpr
    ⟨rfl, fun c hc => isFraming_of_isAlphanum (Text.isAlphanum_of_mem_hex hc)⟩

/-- A number is written with as many digits as its mode has room for. -/
theorem length_numberText {mode : Mode} {v : Int} (hv : mode.accepts (some v) = true)
    (hr : mode ≠ .relative) : 0 ≤ v ∧ mode.operandSize ≠ 0 ∧
      (numberText mode v).toList.length = 2 * mode.operandSize + 1 := by
  have hdomain : ∀ mode ∈ Mode.all, mode ≠ .relative → ∀ d ∈ mode.domain,
      d.1 = 0 ∧ mode.operandSize ≠ 0 ∧ d.2.toNat < Nat.pow 16 (2 * mode.operandSize) := by decide
  obtain ⟨lo, hi, hd, hmin, hmax⟩ := Mode.domain_of_accepts hv
  obtain ⟨hlo, hsize, hhi⟩ := hdomain mode mode.mem_all hr _ hd
  refine ⟨hlo ▸ hmin, hsize, ?_⟩
  have hfits : v.toNat < Nat.pow 16 (2 * mode.operandSize) :=
    Nat.lt_of_le_of_lt (Int.toNat_le_toNat hmax) hhi
  rw [toList_numberText, List.length_cons, Text.length_hex (by omega) hfits]

/-- A written number tells the number and the size of its mode. -/
theorem numberText_inj {a b : Mode} {v w : Int} (hv : a.accepts (some v) = true) (ha : a ≠ .relative)
    (hw : b.accepts (some w) = true) (hb : b ≠ .relative) (h : numberText a v = numberText b w) :
    a.operandSize = b.operandSize ∧ v = w := by
  obtain ⟨hv0, _, hva⟩ := length_numberText hv ha
  obtain ⟨hw0, _, hwb⟩ := length_numberText hw hb
  have hsize : a.operandSize = b.operandSize := by
    rw [h] at hva
    omega
  rw [numberText, numberText, hsize] at h
  have hhex := congrArg String.toList h
  rw [String.toList_append, String.toList_append] at hhex
  have hvalue := Text.hex_inj (String.toList_inj.mp (List.append_cancel_left hhex))
  exact ⟨hsize, by omega⟩

theorem framed_referenceText {name : String} (hn : IsName name) (x : Option Modifier) :
    Framed (referenceText name x) := by
  obtain ⟨c, cs, hc, _⟩ := hn.head
  constructor
  · rw [toList_referenceText, hc]
    simp
  · have hname : ∀ c ∈ name.toList, isFraming c = false := by
      rcases hn with rfl | hn
      · rw [toList_selfReference]
        exact List.forall_mem_singleton.mpr rfl
      · exact fun c hc => isFraming_of_isNameCharacter ((isNameCharacter_of_isIdentifier hn).2 c hc)
    intro d hd
    rw [toList_referenceText, List.mem_append, List.mem_append] at hd
    rcases hd with hd | hd | hd
    · exact isFraming_of_isByteSign (Modifier.isByteSign_lead x d hd)
    · exact hname d hd
    · exact Modifier.isFraming_tail x d hd

/-- No number is written like a reference. -/
theorem numberText_ne_referenceText {name : String} (hn : IsName name) (mode : Mode) (v : Int)
    (x : Option Modifier) : numberText mode v ≠ referenceText name x := by
  intro h
  have hlist := congrArg String.toList h
  rw [toList_numberText, toList_referenceText] at hlist
  cases hlead : Modifier.lead x with
  | cons c cs =>
    have hc := Modifier.isByteSign_lead x c (hlead ▸ List.mem_cons_self ..)
    rw [hlead] at hlist
    rw [← (List.cons.inj hlist).1] at hc
    cases hc
  | nil =>
    obtain ⟨c, cs, hc, hkind⟩ := hn.head
    rw [hlead, hc] at hlist
    rw [← (List.cons.inj hlist).1] at hkind
    rcases hkind with hkind | hkind <;> cases hkind

/-- The instructions that a listing tells apart: those without an operand, those with a number that
is not the distance of a branch, and those with a label. -/
inductive Legible : Instruction → Prop where
  | plain {m mode} : m.supports mode = true → mode.operandSize = 0 →
      Legible ⟨m, .none, none, .settled mode none⟩
  | number {m mode v} : m.supports mode = true → mode.accepts (some v) = true → mode ≠ .relative →
      Legible ⟨m, .literal v, none, .settled mode (some v)⟩
  | reference {m name mode x} : m.supports mode = true → mode.TakesLabel x → IsName name →
      Legible ⟨m, .label name, x, .pending mode⟩


theorem operandText_plain {m : Mnemonic} {mode : Mode} (h : mode.operandSize = 0) :
    operandText ⟨m, .none, none, .settled mode none⟩ = "" := by
  show mode.render _ = ""
  simp only [Mode.render, (Mode.frame_eq_none_iff mode).mpr h]

theorem operandText_number {m : Mnemonic} {mode : Mode} {v : Int} (h : mode ≠ .relative) :
    operandText ⟨m, .literal v, none, .settled mode (some v)⟩ = mode.render (numberText mode v) := by
  show mode.render (if mode = .relative then _ else _) = _
  rw [if_neg h]
  rfl

theorem operandText_reference {m : Mnemonic} {name : String} {x : Option Modifier} {mode : Mode} :
    operandText ⟨m, .label name, x, .pending mode⟩ = mode.render (referenceText name x) := by
  cases x <;> rfl

theorem operandText_number_ne_empty {m : Mnemonic} {mode : Mode} {v : Int}
    (hv : mode.accepts (some v) = true) (hr : mode ≠ .relative) :
    operandText ⟨m, .literal v, none, .settled mode (some v)⟩ ≠ "" := by
  rw [operandText_number hr]
  exact Mode.render_ne_empty (Mode.frame_ne_none_of_accepts hv) _

theorem operandText_reference_ne_empty {m : Mnemonic} {name : String} {x : Option Modifier}
    {mode : Mode} (ht : mode.TakesLabel x) :
    operandText ⟨m, .label name, x, .pending mode⟩ ≠ "" := by
  rw [operandText_reference]
  exact Mode.render_ne_empty ht.frame_ne_none _

theorem operandText_number_ne_reference {m m' : Mnemonic} {mode mode' : Mode} {v : Int}
    {name : String} {x : Option Modifier} (hv : mode.accepts (some v) = true) (hr : mode ≠ .relative)
    (ht : mode'.TakesLabel x) (hn : IsName name) :
    operandText ⟨m, .literal v, none, .settled mode (some v)⟩ ≠
      operandText ⟨m', .label name, x, .pending mode'⟩ := by
  rw [operandText_number hr, operandText_reference]
  intro h
  obtain ⟨_, htext⟩ := Mode.render_inj (framed_numberText mode v) (framed_referenceText hn x)
    (Mode.frame_ne_none_of_accepts hv) ht.frame_ne_none h
  exact numberText_ne_referenceText hn mode v x htext

theorem operandText_number_inj {m m' : Mnemonic} {a b : Mode} {v w : Int}
    (hv : a.accepts (some v) = true) (ha : a ≠ .relative) (hw : b.accepts (some w) = true)
    (hb : b ≠ .relative) (h : operandText ⟨m, .literal v, none, .settled a (some v)⟩ =
      operandText ⟨m', .literal w, none, .settled b (some w)⟩) : a = b ∧ v = w := by
  rw [operandText_number ha, operandText_number hb] at h
  obtain ⟨hframe, htext⟩ := Mode.render_inj (framed_numberText a v) (framed_numberText b w)
    (Mode.frame_ne_none_of_accepts hv) (Mode.frame_ne_none_of_accepts hw) h
  obtain ⟨hsize, hvalue⟩ := numberText_inj hv ha hw hb htext
  exact ⟨Mode.eq_of_frame_of_size hframe hsize (length_numberText hv ha).2.1 ha hb, hvalue⟩

/-- Frame and mnemonic tell the mode of a reference: what branches does not jump. -/
theorem operandText_reference_inj {m : Mnemonic} {a b : Mode} {name name' : String}
    {x y : Option Modifier} (hs : m.supports a = true) (ha : a.TakesLabel x) (hn : IsName name)
    (hs' : m.supports b = true) (hb : b.TakesLabel y) (hn' : IsName name')
    (h : operandText ⟨m, .label name, x, .pending a⟩ = operandText ⟨m, .label name', y, .pending b⟩) :
    a = b ∧ name = name' ∧ x = y := by
  rw [operandText_reference, operandText_reference] at h
  obtain ⟨hframe, htext⟩ := Mode.render_inj (framed_referenceText hn x) (framed_referenceText hn' y)
    ha.frame_ne_none hb.frame_ne_none h
  refine ⟨?_, referenceText_inj hn hn' htext⟩
  rcases ha.eq_of_frame hb hframe with hmode | ⟨rfl, rfl⟩ | ⟨rfl, rfl⟩
  · exact hmode
  · rcases m.supports_absolute_or_relative with hnot | hnot
    · cases hnot.symm.trans hs
    · cases hnot.symm.trans hs'
  · rcases m.supports_absolute_or_relative with hnot | hnot
    · cases hnot.symm.trans hs'
    · cases hnot.symm.trans hs

/-- The mnemonic tells the mode of an instruction without an operand. -/
theorem mode_eq_of_no_operand {m : Mnemonic} {a b : Mode} (hs : m.supports a = true)
    (ha : a.operandSize = 0) (hs' : m.supports b = true) (hb : b.operandSize = 0) : a = b := by
  have hzero : ∀ {mode : Mode}, mode.operandSize = 0 → mode = .implied ∨ mode = .accumulator := by
    intro mode h
    cases mode with
    | implied => exact .inl rfl
    | accumulator => exact .inr rfl
    | _ => cases h
  have hnot := m.supports_implied_or_accumulator
  rcases hzero ha with rfl | rfl <;> rcases hzero hb with rfl | rfl
  · rfl
  · simp [hs, hs'] at hnot
  · simp [hs, hs'] at hnot
  · rfl

/-- **A written instruction can be read in one way only.** -/
theorem Legible.eq_of_source {i j : Instruction} (hi : i.Legible) (hj : j.Legible)
    (h : i.source = j.source) : i = j := by
  obtain ⟨hmnemonic, htext⟩ := mnemonic_eq_of_source h
  cases hi with
  | @plain m mode hs hsize =>
    have hempty := operandText_plain (m := m) hsize
    cases hj with
    | plain hs' hsize' =>
      cases hmnemonic
      rw [mode_eq_of_no_operand hs hsize hs' hsize']
    | number _ hv hr => exact absurd (htext.symm.trans hempty) (operandText_number_ne_empty hv hr)
    | reference _ ht _ => exact absurd (htext.symm.trans hempty) (operandText_reference_ne_empty ht)
  | number hs hv hr =>
    cases hj with
    | plain _ hsize =>
      exact absurd (htext.trans (operandText_plain hsize)) (operandText_number_ne_empty hv hr)
    | number _ hv' hr' =>
      obtain ⟨rfl, rfl⟩ := operandText_number_inj hv hr hv' hr' htext
      cases hmnemonic
      rfl
    | reference _ ht hn => exact absurd htext (operandText_number_ne_reference hv hr ht hn)
  | reference hs ht hn =>
    cases hj with
    | plain _ hsize =>
      exact absurd (htext.trans (operandText_plain hsize)) (operandText_reference_ne_empty ht)
    | number _ hv hr => exact absurd htext.symm (operandText_number_ne_reference hv hr ht hn)
    | reference hs' ht' hn' =>
      cases hmnemonic
      obtain ⟨rfl, rfl, rfl⟩ := operandText_reference_inj hs ht hn hs' ht' hn' htext
      rfl

end Instruction

end Asm6502

import Asm6502.Listing
import Asm6502.Proofs.Spelling

/-! What a listing tells.

Every kind of statement has its own way to begin, none is written like the lines that open and
close a block, and each kind can be read in one way only. So the listing of a block whose
statements are legible tells the block (`Block.Legible.eq_of_source`). A label is not legible if it
is spelled like an instruction without operand. -/
namespace Asm6502

/-! ### Data -/

namespace Content

def isText : Content → Bool
  | text _ => true
  | numbers _ => false

/-- The word that a line of data begins with. -/
def directive (isText : Bool) (mode : DataMode) : String :=
  match isText, mode with
  | true, .screen => ".screen"
  | true, _ => ".text"
  | false, .word => ".word"
  | false, _ => ".byte"

/-- Numbers as written behind a directive. -/
def numberList (width : Nat) (ns : List Int) : String :=
  ",".intercalate (ns.map fun n => "$" ++ Text.hex width n.toNat)

/-- The content as written behind its directive. -/
def argumentText (content : Content) (mode : DataMode) : String :=
  match content, mode with
  | text s, _ => "\"" ++ s ++ "\""
  | numbers ns, .word => numberList 4 ns
  | numbers ns, _ => numberList 2 ns

theorem toList_source (content : Content) (mode : DataMode) : (content.source mode).toList =
    (directive content.isText mode).toList ++ ' ' :: (content.argumentText mode).toList := by
  cases content with
  | text s => cases mode <;> simp [source, isText, directive, argumentText]
  | numbers ns => cases mode <;> simp [source, isText, directive, argumentText, numberList]

theorem blank_notMem_directive (isText : Bool) (mode : DataMode) :
    ' ' ∉ (directive isText mode).toList := by
  cases isText <;> cases mode <;> decide

/-- What the directive says of the data behind it. -/
def ofDirective? (word : String) : Option (Bool × DataMode) :=
  if word = ".text" then some (true, .plain)
  else if word = ".screen" then some (true, .screen)
  else if word = ".byte" then some (false, .plain)
  else if word = ".word" then some (false, .word)
  else none

theorem ofDirective?_directive {content : Content} {mode : DataMode} {bytes : List UInt8}
    (h : content.encode mode = .ok bytes) :
    ofDirective? (directive content.isText mode) = some (content.isText, mode) := by
  cases content with
  | text s =>
    cases mode with
    | word => cases h
    | _ => rfl
  | numbers ns =>
    cases mode with
    | screen => cases h
    | _ => rfl

/-- Words without commas are told by the text that has commas between them. -/
theorem eq_of_intercalate {xs ys : List String} (hx : ∀ s ∈ xs, s ≠ "" ∧ ',' ∉ s.toList)
    (hy : ∀ s ∈ ys, s ≠ "" ∧ ',' ∉ s.toList) (h : ",".intercalate xs = ",".intercalate ys) :
    xs = ys := by
  -- the words between the commas; no word at all is read as one that is empty
  have words : ∀ zs : List String, (∀ s ∈ zs, s ≠ "" ∧ ',' ∉ s.toList) →
      (",".intercalate zs).toList.splitOn ',' = if zs = [] then [[]] else zs.map String.toList := by
    intro zs hz
    rw [String.toList_intercalate]
    by_cases hnil : zs = []
    · subst hnil
      rfl
    · rw [if_neg hnil]
      refine List.splitOn_intercalate ',' (fun l hl => ?_) (by simpa using hnil)
      obtain ⟨s, hs, rfl⟩ := List.mem_map.mp hl
      exact (hz s hs).2
  have empty : ∀ zs : List String, (∀ s ∈ zs, s ≠ "" ∧ ',' ∉ s.toList) →
      [[]] ≠ zs.map String.toList := by
    intro zs hz hmap
    obtain ⟨s, hs, hempty⟩ := List.mem_map.mp (hmap ▸ List.mem_singleton_self [])
    exact (hz s hs).1 (String.toList_eq_nil_iff.mp hempty)
  have hwords := words ys hy
  rw [← h, words xs hx] at hwords
  split at hwords <;> split at hwords
  · simp [*]
  · exact absurd hwords (empty ys hy)
  · exact absurd hwords.symm (empty xs hx)
  · exact (List.map_inj_right fun _ _ => String.toList_inj.mp).mp hwords

theorem numberList_inj {width : Nat} {ns ms : List Int} (hn : ∀ n ∈ ns, 0 ≤ n) (hm : ∀ m ∈ ms, 0 ≤ m)
    (h : numberList width ns = numberList width ms) : ns = ms := by
  have hdollar : ∀ n, ("$" ++ Text.hex width n).toList = '$' :: (Text.hex width n).toList := by
    intro n
    rw [String.toList_append]
    rfl
  have word : ∀ ks : List Int, ∀ s ∈ ks.map fun k => "$" ++ Text.hex width k.toNat,
      s ≠ "" ∧ ',' ∉ s.toList := by
    intro ks s hs
    obtain ⟨k, _, rfl⟩ := List.mem_map.mp hs
    constructor
    · intro hempty
      have hnil := congrArg String.toList hempty
      rw [hdollar] at hnil
      cases hnil
    · rw [hdollar]
      refine List.not_mem_cons_of_ne_of_not_mem (by decide) fun hcomma => ?_
      cases Text.isAlphanum_of_mem_hex hcomma
  have hwords := eq_of_intercalate (word ns) (word ms) h
  have htoNat : ns.map Int.toNat = ms.map Int.toNat := by
    refine (List.map_inj_right (f := fun n => "$" ++ Text.hex width n) fun n m hnm => ?_).mp ?_
    · have hlist := congrArg String.toList hnm
      rw [hdollar, hdollar] at hlist
      exact Text.hex_inj (String.toList_inj.mp (List.cons.inj hlist).2)
    · rw [List.map_map, List.map_map]
      exact hwords
  have back : ∀ ks : List Int, (∀ k ∈ ks, 0 ≤ k) →
      (ks.map Int.toNat).map (fun n : Nat => (n : Int)) = ks := by
    intro ks hk
    rw [List.map_map]
    exact (List.map_congr_left fun k hmem => Int.toNat_of_nonneg (hk k hmem)).trans (List.map_id ks)
  rw [← back ns hn, htoNat, back ms hm]

theorem nonneg_of_encodeBytes {ns : List Int} {bytes : List UInt8} (h : encodeBytes ns = .ok bytes) :
    ∀ n ∈ ns, 0 ≤ n := by
  induction ns generalizing bytes with
  | nil => exact nofun
  | cons n ns ih =>
    rw [encodeBytes] at h
    split at h
    · rename_i hn
      obtain ⟨rest, hrest, _⟩ := bind_eq_ok.mp h
      exact List.forall_mem_cons.mpr ⟨hn.1, ih hrest⟩
    · cases h

theorem nonneg_of_encodeWords {ns : List Int} {bytes : List UInt8} (h : encodeWords ns = .ok bytes) :
    ∀ n ∈ ns, 0 ≤ n := by
  induction ns generalizing bytes with
  | nil => exact nofun
  | cons n ns ih =>
    rw [encodeWords] at h
    split at h
    · rename_i hn
      obtain ⟨rest, hrest, _⟩ := bind_eq_ok.mp h
      exact List.forall_mem_cons.mpr ⟨hn.1, ih hrest⟩
    · cases h

/-- What is written behind the directive tells the content. -/
theorem argumentText_inj {c d : Content} {mode : DataMode} {bytes bytes' : List UInt8}
    (hc : c.encode mode = .ok bytes) (hd : d.encode mode = .ok bytes') (hkind : c.isText = d.isText)
    (h : c.argumentText mode = d.argumentText mode) : c = d := by
  cases c with
  | text s =>
    cases d with
    | numbers ms => cases hkind
    | text t =>
      have hlist := congrArg String.toList h
      simp only [argumentText, String.toList_append] at hlist
      have hst := List.append_cancel_left (List.append_cancel_right hlist)
      rw [String.toList_inj.mp hst]
  | numbers ns =>
    cases d with
    | text t => cases hkind
    | numbers ms =>
      cases mode with
      | plain => rw [numberList_inj (nonneg_of_encodeBytes hc) (nonneg_of_encodeBytes hd) h]
      | word => rw [numberList_inj (nonneg_of_encodeWords hc) (nonneg_of_encodeWords hd) h]
      | screen => cases hc

end Content

/-- **Written data can be read in one way only.** -/
theorem Data.eq_of_source {d e : Data} (h : d.source = e.source) : d = e := by
  obtain ⟨content, mode, bytes, hbytes⟩ := d
  obtain ⟨content', mode', bytes', hbytes'⟩ := e
  have hlist : (content.source mode).toList = (content'.source mode').toList :=
    congrArg String.toList h
  rw [Content.toList_source, Content.toList_source] at hlist
  -- the directive is what stands before the first blank
  have unblank : ∀ (isText : Bool) (mode : DataMode), ∀ c ∈ (Content.directive isText mode).toList,
      (c != ' ') = true := fun isText mode c hc =>
    bne_iff_ne.mpr fun hblank => Content.blank_notMem_directive isText mode (hblank ▸ hc)
  have blank : ∀ t : List Char, ∀ c ∈ (' ' :: t).head?, (c != ' ') = false := by
    intro t c hc
    cases hc
    rfl
  obtain ⟨hdirective, hargument⟩ := append_eq_append_of_span (unblank _ _) (unblank _ _)
    (blank _) (blank _) hlist
  have hkind := congrArg Content.ofDirective? (String.toList_inj.mp hdirective)
  rw [Content.ofDirective?_directive hbytes, Content.ofDirective?_directive hbytes'] at hkind
  obtain ⟨hisText, rfl⟩ := Prod.mk.inj (Option.some.inj hkind)
  have htext := String.toList_inj.mp (List.cons.inj hargument).2
  cases Content.argumentText_inj hbytes hbytes' hisText htext
  cases hbytes.symm.trans hbytes'
  rfl

/-! ### Statements -/

theorem Align.eq_of_source {a b : Align} (h : a.source = b.source) : a = b := by
  have hlist := congrArg String.toList h
  rw [source, source, String.toList_append, String.toList_append] at hlist
  have haddress := Text.hex_inj (String.toList_inj.mp (List.append_cancel_left hlist))
  cases a
  cases b
  cases UInt16.toNat_inj.mp haddress
  rfl

/-- The label is not spelled like an instruction without operand. -/
def Label.NoOperation (l : Label) : Prop :=
  ∀ m : Mnemonic, m.supports .implied = true ∨ m.supports .accumulator = true → l.name ≠ m.name

theorem Instruction.operandText_cases (i : Instruction) :
    i.operandText = "" ∨ ∃ c ∈ i.operandText.toList, isFraming c = true := by
  unfold operandText
  cases i.mode? with
  | none => exact .inl rfl
  | some mode =>
    by_cases hframe : mode.frame = none
    · refine .inl ?_
      simp only [Mode.render, hframe]
    · exact .inr (Mode.exists_framing_render hframe _)

/-- An instruction is not written like a label that is no operation. -/
theorem Instruction.Legible.source_ne_label {i : Instruction} {l : Label} (hi : i.Legible)
    (hl : l.NoOperation) : i.source ≠ l.name := by
  intro h
  rcases i.operandText_cases with hempty | ⟨c, hc, hframing⟩
  · rw [source_eq, hempty, String.append_empty] at h
    cases hi with
    | @plain m mode hs hsize =>
      refine hl m ?_ h.symm
      cases mode with
      | implied => exact .inl hs
      | accumulator => exact .inr hs
      | _ => cases hsize
    | number _ hv hr => exact operandText_number_ne_empty hv hr hempty
    | reference _ ht _ => exact operandText_reference_ne_empty ht hempty
  · -- the frame of the operand has a character that no label has
    have hmem : c ∈ l.name.toList := by
      rw [← h, source_eq, String.toList_append]
      exact List.mem_append_right _ hc
    have hname := (isNameCharacter_of_isIdentifier l.valid).2 c hmem
    rw [isFraming_of_isNameCharacter hname] at hframing
    cases hframing

namespace Statement

/-- Instructions that can be told apart, and labels that are not taken for one. -/
def Legible : Statement → Prop
  | instruction i => i.Legible
  | label l => l.NoOperation
  | align _ => True
  | data _ => True

/-- How the line of a statement begins: data with a dot, an alignment with the place it sets, and
all else with a name. -/
inductive Opening where
  | dot
  | star
  | name
deriving DecidableEq

def Opening.ofChar (c : Char) : Opening :=
  if c = '.' then dot else if c = '*' then star else name

def opening : Statement → Opening
  | data _ => .dot
  | align _ => .star
  | _ => .name

theorem Opening.ofChar_head_of_name {u r : List Char} (hne : u ≠ [])
    (h : ∀ c ∈ u, isNameCharacter c = true) : (u ++ r).head?.map ofChar = some name := by
  obtain ⟨c, u, rfl⟩ := List.exists_cons_of_ne_nil hne
  have hc : isNameCharacter c = true := h c (List.mem_cons_self ..)
  have hdot : c ≠ '.' := by
    rintro rfl
    cases hc
  have hstar : c ≠ '*' := by
    rintro rfl
    cases hc
  show some (ofChar c) = some name
  rw [ofChar, if_neg hdot, if_neg hstar]

theorem ofChar_head_source (s : Statement) :
    s.source.toList.head?.map Opening.ofChar = some s.opening := by
  cases s with
  | instruction i =>
    obtain ⟨hne, hname⟩ := i.mnemonic.isNameCharacter_name
    show i.source.toList.head?.map _ = _
    rw [Instruction.source_eq, String.toList_append]
    exact Opening.ofChar_head_of_name hne hname
  | label l =>
    obtain ⟨hne, hname⟩ := isNameCharacter_of_isIdentifier l.valid
    have h := Opening.ofChar_head_of_name (r := []) hne hname
    rwa [List.append_nil] at h
  | align a =>
    show a.source.toList.head?.map _ = _
    rw [Align.source, String.toList_append]
    rfl
  | data d =>
    show (d.content.source d.mode).toList.head?.map _ = _
    rw [Content.toList_source]
    cases d.content.isText <;> cases d.mode <;> rfl

/-- **A written statement can be read in one way only.** -/
theorem Legible.eq_of_source {s t : Statement} (hs : s.Legible) (ht : t.Legible)
    (h : s.source = t.source) : s = t := by
  have hopening : s.opening = t.opening := by
    have hhead := ofChar_head_source s
    rw [h, ofChar_head_source t] at hhead
    exact (Option.some.inj hhead).symm
  cases s with
  | instruction i =>
    cases t with
    | instruction j => rw [Instruction.Legible.eq_of_source hs ht h]
    | label l => exact absurd h (Instruction.Legible.source_ne_label hs ht)
    | _ => cases hopening
  | label l =>
    cases t with
    | instruction i => exact absurd h.symm (Instruction.Legible.source_ne_label ht hs)
    | label k =>
      cases l
      cases k
      cases h
      rfl
    | _ => cases hopening
  | align a =>
    cases t with
    | align b => rw [Align.eq_of_source h]
    | _ => cases hopening
  | data d =>
    cases t with
    | data e => rw [Data.eq_of_source h]
    | _ => cases hopening

/-- The lines of a block are the lines of no statement: of all lines that begin with a dot, only
those of data have a blank. -/
theorem source_ne_block (s : Statement) :
    s.source ≠ Listing.blockStart ∧ s.source ≠ Listing.blockEnd := by
  have apart : ∀ line : String, line.toList.head?.map Opening.ofChar = some .dot →
      ' ' ∉ line.toList → s.source ≠ line := by
    rintro line hdot hblank rfl
    rw [ofChar_head_source] at hdot
    cases s with
    | data d =>
      refine hblank ?_
      show ' ' ∈ (d.content.source d.mode).toList
      rw [Content.toList_source]
      exact List.mem_append_right _ (List.mem_cons_self ..)
    | _ => cases hdot
  exact ⟨apart _ (by decide) (by decide), apart _ (by decide) (by decide)⟩

end Statement

/-! ### Blocks -/

/-- The lines of an outline end at the first line that closes a block and that no group opened. -/
theorem Listing.lines_append_inj {α : Type} {source : α → String} {o p : Outline Unit α}
    (hinj : ∀ a ∈ o.leaves, ∀ b ∈ p.leaves, source a = source b → a = b)
    (hline : ∀ a, source a ≠ blockStart ∧ source a ≠ blockEnd) {r r' : List String}
    (h : lines source o ++ blockEnd :: r = lines source p ++ blockEnd :: r') : o = p ∧ r = r' := by
  have hblock : blockStart ≠ blockEnd := by decide
  induction o generalizing p r r' with
  | nil =>
    cases p with
    | nil => exact ⟨rfl, (List.cons.inj h).2⟩
    | item b rest => exact absurd (List.cons.inj h).1.symm (hline b).2
    | group _ inner rest => exact absurd (List.cons.inj h).1.symm hblock
  | item a rest ih =>
    cases p with
    | nil => exact absurd (List.cons.inj h).1 (hline a).2
    | item b rest' =>
      obtain ⟨hhead, htail⟩ := List.cons.inj h
      have hab := hinj a (List.mem_cons_self ..) b (List.mem_cons_self ..) hhead
      obtain ⟨hrest, hr⟩ := ih (fun c hc d hd => hinj c (List.mem_cons_of_mem _ hc) d
        (List.mem_cons_of_mem _ hd)) htail
      exact ⟨by rw [hab, hrest], hr⟩
    | group _ inner rest' => exact absurd (List.cons.inj h).1 (hline a).1
  | group _ inner rest ihi ihr =>
    cases p with
    | nil => exact absurd (List.cons.inj h).1 hblock
    | item b rest' => exact absurd (List.cons.inj h).1.symm (hline b).1
    | group _ inner' rest' =>
      -- the line that closes the group is the first one unopened behind `inner`
      simp only [lines, List.cons_append, List.append_assoc, List.cons.injEq, true_and] at h
      obtain ⟨hinner, htail⟩ := ihi (fun c hc d hd => hinj c (List.mem_append_left _ hc) d
        (List.mem_append_left _ hd)) h
      obtain ⟨hrest, hr⟩ := ihr (fun c hc d hd => hinj c (List.mem_append_right _ hc) d
        (List.mem_append_right _ hd)) htail
      exact ⟨by rw [hinner, hrest], hr⟩

/-- All statements are legible. -/
def Block.Legible (b : Block) : Prop := ∀ s ∈ b.leaves, s.Legible

/-- **A listing tells the block**, if its statements are legible. -/
theorem Block.Legible.eq_of_source {b c : Block} (hb : b.Legible) (hc : c.Legible)
    (h : b.source = c.source) : b = c := by
  have hinj : ∀ s ∈ b.leaves, ∀ t ∈ c.leaves, s.source = t.source → s = t :=
    fun s hs t ht => Statement.Legible.eq_of_source (hb s hs) (hc t ht)
  exact (Listing.lines_append_inj hinj Statement.source_ne_block (List.cons.inj h).2).1

end Asm6502

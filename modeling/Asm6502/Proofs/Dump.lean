import Asm6502.Listing
import Asm6502.Proofs.Image
import Asm6502.Proofs.Numerals

/-! The listings agree with each other and with the image.

Source and dump are written by separate walks, the source once for the block and once for the
program. All walks pass the same entries in the same order: the statements, and two lines around
every block (`Listing.entries`). So the lines of the dump can be put beside those of the source one
by one, the addresses in them follow the tiling of the program, and the bytes shown beside an
instruction are read back from the text (`readColumn`) as the ones at its address in the code.
`link_listings` says this of every block that links. -/
namespace Asm6502

/-! ### The byte column -/

namespace Listing

/-- The bytes that a column shows: two digits for each, and blanks between or behind them. -/
def readColumn : List Char → Option (List UInt8)
  | [] => some []
  | ' ' :: rest => readColumn rest
  | high :: low :: rest => do
    let h ← Text.digitIn 16 high
    let l ← Text.digitIn 16 low
    let bytes ← readColumn rest
    return UInt8.ofNat (16 * h + l) :: bytes
  | [_] => none

theorem toList_hexUpper_byte (b : UInt8) : (Text.hexUpper 2 b.toNat).toList =
    [(Nat.digitChar (b.toNat / 16)).toUpper, (Nat.digitChar (b.toNat % 16)).toUpper] := by
  have hb : b.toNat < 256 := b.toNat_lt
  rw [Text.hexUpper, String.toList_ofList]
  by_cases hlt : b.toNat < 16
  · rw [Nat.toDigits_of_lt_base hlt, Nat.div_eq_of_lt hlt, Nat.mod_eq_of_lt hlt]
    rfl
  · rw [Nat.toDigits_of_base_le (by decide) (Nat.le_of_not_lt hlt),
      Nat.toDigits_of_lt_base (by omega)]
    rfl

theorem readColumn_byte (b : UInt8) (cs : List Char) :
    readColumn ((Text.hexUpper 2 b.toNat).toList ++ cs) = (readColumn cs).map (b :: ·) := by
  have hdigit : ∀ d < 16, (Nat.digitChar d).toUpper ≠ ' ' := by decide
  have hb : b.toNat < 256 := b.toNat_lt
  have hvalue : 16 * (b.toNat / 16) + b.toNat % 16 = b.toNat := Nat.div_add_mod b.toNat 16
  rw [toList_hexUpper_byte]
  show readColumn (_ :: _ :: cs) = _
  rw [readColumn, Text.digitIn_toUpper (by omega), Text.digitIn_toUpper (by omega)]
  · simp only [Option.bind_eq_bind, Option.bind_some, hvalue, UInt8.ofNat_toNat]
    cases readColumn cs <;> rfl
  · exact fun h => hdigit (b.toNat / 16) (by omega) h

theorem toList_byteColumn (b c : UInt8) (rest : List UInt8) :
    (byteColumn (b :: c :: rest)).toList =
      (Text.hexUpper 2 b.toNat).toList ++ ' ' :: (byteColumn (c :: rest)).toList := by
  simp [byteColumn, String.toList_intercalate]

theorem toList_byteColumn_one (b : UInt8) :
    (byteColumn [b]).toList = (Text.hexUpper 2 b.toNat).toList := by
  simp [byteColumn]

theorem readColumn_byteColumn (bytes : List UInt8) {cs : List Char} (h : readColumn cs = some []) :
    readColumn ((byteColumn bytes).toList ++ cs) = some bytes := by
  induction bytes with
  | nil => exact h
  | cons b rest ih =>
    cases rest with
    | nil => rw [toList_byteColumn_one, readColumn_byte, h]; rfl
    | cons c rest =>
      rw [toList_byteColumn, List.append_assoc, readColumn_byte, List.cons_append, readColumn, ih]
      rfl

theorem readColumn_blanks (n : Nat) : readColumn (List.replicate n ' ') = some [] := by
  induction n with
  | zero => rfl
  | succ n ih => rw [List.replicate_succ, readColumn, ih]

/-- **The bytes of a column are read back.** -/
theorem readColumn_column (width : Nat) (bytes : List UInt8) :
    readColumn (Text.column width (byteColumn bytes)).toList = some bytes := by
  rw [Text.column, String.toList_ofList]
  exact readColumn_byteColumn bytes (readColumn_blanks _)

theorem length_byteColumn (bytes : List UInt8) :
    (byteColumn bytes).toList.length = 3 * bytes.length - 1 := by
  induction bytes with
  | nil => rfl
  | cons b rest ih =>
    cases rest with
    | nil => rw [toList_byteColumn_one, toList_hexUpper_byte]; rfl
    | cons c rest =>
      simp only [toList_byteColumn, toList_hexUpper_byte, List.length_append, List.length_cons,
        List.length_nil] at ih ⊢
      omega

/-! ### Entries -/

/-- What a line of a listing is about: a statement, or a block that begins or ends. -/
inductive Entry where
  | statement (p : Placed Emitted)
  | start (scope : Scope)
  | stop (scope : Scope)

namespace Entry

def address : Entry → Nat
  | statement p => p.address
  | start scope => scope.origin
  | stop scope => scope.stop

def source : Entry → String
  | statement p => p.content.statement.source
  | start _ => blockStart
  | stop _ => blockEnd

def statement? : Entry → Option (Placed Emitted)
  | statement p => some p
  | _ => none

/-- What the byte column shows. -/
def bytes : Entry → String
  | statement ⟨_, .instruction _, bytes⟩ => byteColumn bytes
  | statement ⟨_, .data _, _⟩ => ".. .. .."
  | _ => ""

/-- Labels stand at the margin, everything else behind a tab. -/
def indent : Entry → String
  | statement ⟨_, .label _, _⟩ => ""
  | _ => "\t"

theorem bytes_instruction {s : Placed Emitted} {i : Instruction}
    (h : s.content.statement = .instruction i) : (statement s).bytes = byteColumn s.content.bytes := by
  obtain ⟨address, statement, bytes⟩ := s
  cases h
  rfl

end Entry

/-- The entries of a listing in its order. -/
def entries : Outline Scope (Placed Emitted) → List Entry
  | .nil => []
  | .item p rest => .statement p :: entries rest
  | .group scope inner rest => .start scope :: entries inner ++ .stop scope :: entries rest

/-- Every statement has one entry. -/
theorem filterMap_entries (o : Outline Scope (Placed Emitted)) :
    (entries o).filterMap Entry.statement? = o.leaves := by
  induction o with
  | nil => rfl
  | item p rest ih => exact congrArg (List.cons p) ih
  | group scope inner rest ihi ihr =>
    rw [entries, List.filterMap_append, Outline.leaves, ← ihi, ← ihr]
    rfl

theorem lines_eq (o : Outline Scope (Placed Emitted)) :
    lines (fun e => e.content.statement.source) o = (entries o).map Entry.source := by
  induction o with
  | nil => rfl
  | item p rest ih => simp only [lines, entries, List.map_cons, ih, Entry.source]
  | group scope inner rest ihi ihr =>
    simp only [lines, entries, List.map_cons, List.map_append, ihi, ihr, Entry.source]

theorem statementLine_eq (p : Placed Emitted) : statementLine p =
    dumpLine p.address (Entry.statement p).bytes (Entry.statement p).indent p.content.statement.source := by
  obtain ⟨address, statement, bytes⟩ := p
  cases statement <;> rfl

theorem dumpLines_eq (o : Outline Scope (Placed Emitted)) :
    dumpLines o = (entries o).map fun e => dumpLine e.address e.bytes e.indent e.source := by
  induction o with
  | nil => rfl
  | item p rest ih => rw [dumpLines, ih, statementLine_eq]; rfl
  | group scope inner rest ihi ihr =>
    rw [dumpLines, ihi, ihr, entries, List.map_append]
    rfl

end Listing

/-! ### Source and dump -/

theorem Instruction.source_pending (i : Instruction) : i.pending.source = i.source := by
  obtain ⟨m, a, x, operand⟩ := i
  unfold pending
  split
  · rename_i ha ho
    cases ha
    cases ho
    rfl
  · rfl

theorem Statement.source_pending (s : Statement) : s.pending.source = s.source := by
  cases s with
  | instruction i => exact i.source_pending
  | _ => rfl

theorem Listing.lines_map {η θ α β : Type} (f : η → θ) (g : α → β) (source : β → String)
    (o : Outline η α) : lines source (o.map f g) = lines (fun a => source (g a)) o := by
  induction o with
  | nil => rfl
  | item a rest ih => simp only [Outline.map, lines, ih]
  | group h inner rest ihi ihr => simp only [Outline.map, lines, ihi, ihr]

namespace Program
open Listing

/-- The entries of a program: those of its body, and its end. -/
def entries (p : Program) : List Entry := Listing.entries p.body ++ [.stop p.scope]

theorem source_eq (p : Program) : p.source = blockStart :: p.entries.map Entry.source := by
  rw [source, lines_eq, entries, List.map_append]
  rfl

theorem dump_eq (p : Program) :
    p.dump = p.entries.map fun e => dumpLine e.address e.bytes e.indent e.source := by
  rw [dump, dumpLines_eq, entries, List.map_append]
  rfl

/-- What is listed of a program is what is listed of its block. -/
theorem source_unlinked (p : Program) : p.unlinked.source = p.source := by
  rw [Block.source, unlinked, lines_map]
  simp only [Statement.source_pending]
  rfl

end Program

theorem Block.LinksTo.source {b : Block} {address : Nat} {p : Program} (h : b.LinksTo address p) :
    p.source = b.source := by
  rw [← p.source_unlinked, h.unlinked, Block.source, Listing.lines_map]
  simp only [Statement.source_pending]
  rfl

/-! ### Addresses and bytes -/

/-- Addresses that lie between two others and never decrease. -/
structure Climbs (start stop : Nat) (as : List Nat) : Prop where
  bounded : ∀ a ∈ as, start ≤ a ∧ a ≤ stop
  ordered : as.Pairwise (· ≤ ·)

namespace Climbs
variable {start mid stop : Nat} {as bs : List Nat}

theorem nil : Climbs start stop [] := ⟨fun a ha => (by cases ha), List.Pairwise.nil⟩

theorem singleton (a : Nat) : Climbs a a [a] :=
  ⟨List.forall_mem_singleton.mpr ⟨Nat.le_refl a, Nat.le_refl a⟩, List.pairwise_singleton _ a⟩

theorem append (hstart : start ≤ mid) (hstop : mid ≤ stop) (ha : Climbs start mid as)
    (hb : Climbs mid stop bs) : Climbs start stop (as ++ bs) := by
  refine ⟨fun x hx => ?_, List.pairwise_append.mpr ⟨ha.ordered, hb.ordered, fun x hx y hy => ?_⟩⟩
  · rcases List.mem_append.mp hx with hx | hx
    · exact ⟨(ha.bounded x hx).1, Nat.le_trans (ha.bounded x hx).2 hstop⟩
    · exact ⟨Nat.le_trans hstart (hb.bounded x hx).1, (hb.bounded x hx).2⟩
  · exact Nat.le_trans (ha.bounded x hx).2 (hb.bounded y hy).1

end Climbs

/-- Addresses never decrease down the entries of a tiled block. -/
theorem Tiles.climbs {start stop : Nat} {o : Outline Scope (Placed Emitted)} (h : Tiles start stop o) :
    Climbs start stop ((Listing.entries o).map Listing.Entry.address) := by
  induction h with
  | nil => exact .nil
  | @item p rest stop _ hr ih =>
    have hnext : p.address ≤ p.address + p.content.bytes.length := Nat.le_add_right ..
    have hrest : Climbs p.address stop ((Listing.entries rest).map Listing.Entry.address) :=
      .append hnext hr.le .nil ih
    exact .append (Nat.le_refl _) (Nat.le_trans hnext hr.le) (.singleton p.address) hrest
  | @group scope inner rest stop _ hi hr ihi ihr =>
    have hrest : Climbs scope.stop stop (scope.stop :: (Listing.entries rest).map Listing.Entry.address) :=
      .append (Nat.le_refl _) hr.le (.singleton scope.stop) ihr
    have hinner : Climbs scope.origin scope.stop
        (scope.origin :: (Listing.entries inner).map Listing.Entry.address) :=
      .append (Nat.le_refl _) hi.le (.singleton scope.origin) ihi
    rw [Listing.entries, List.map_append]
    exact .append hi.le hr.le hinner hrest

theorem Instruction.length_of_encode {i : Instruction} {bytes : List UInt8} (h : i.encode = .ok bytes) :
    bytes.length ≤ 3 := by
  have hsize : ∀ size v, (operandBytes size v).length ≤ 2 := by
    intro size v
    unfold operandBytes
    split <;> simp [Word.littleEndian]
  unfold encode at h
  split at h
  · split at h
    · cases h
      split
      · exact Nat.succ_le_succ (hsize _ _)
      · simp
    · cases h
  · cases h

/-- The statements of a program are sound as those of the block were. -/
theorem Block.LinksTo.sound {b : Block} (hb : b.Reachable) {address : Nat} {p : Program}
    (h : b.LinksTo address p) : ∀ e ∈ p.body.leaves, e.content.statement.Sound := by
  intro e he
  rw [← Outline.map_snd_sitesIn p.body.items] at he
  obtain ⟨site, hsite, rfl⟩ := List.mem_map.mp he
  obtain ⟨s, hs, hemit⟩ := h.sites site hsite
  have hsound := Statement.sound_of_reachable hb s hs
  intro j hj
  obtain ⟨i, k, rfl, hk, _, he⟩ | ⟨l, rfl, he⟩ | ⟨a, rfl, he⟩ | ⟨d, rfl, he⟩ := Statement.emit_cases hemit
  · rw [hj] at he
    cases he
    exact (hsound i rfl).of_resolveAt hk
  · rw [he] at hj
    cases hj
  · rw [he] at hj
    cases hj
  · rw [he] at hj
    cases hj

/-- A linked instruction has as many bytes as its mode says. -/
theorem Instruction.size_of_genuine {address : Nat} {e : Emitted} {i : Instruction}
    (hs : e.statement.Sound) (hg : e.Genuine address) (hi : e.statement = .instruction i) :
    i.size? = some e.bytes.length := by
  have hencode : i.encode = .ok e.bytes := by
    rw [Emitted.Genuine, hi] at hg
    exact hg
  obtain ⟨bytes, hbytes, hsize⟩ := (hs i hi).encode_of_ready (isReady_of_encode hencode)
  rw [hencode] at hbytes
  cases hbytes
  exact hsize

/-! ### The listings of a program -/

theorem Block.LinksTo.tiles {b : Block} (hb : b.Reachable) {address : Nat} {p : Program}
    (h : b.LinksTo address p) (ha : address ≤ memorySize) : Tiles p.origin p.stop p.body := by
  rw [h.origin, h.stop]
  exact tiles_of_emits (Statement.sound_of_reachable hb) ha h.faultless h.emits

/-- A line of a dump shows an entry of the program. -/
structure Program.Shows (p : Program) (line source : String) (e : Listing.Entry) : Prop where
  subject : source = e.source
  text : line = "$" ++ Text.hexUpper 4 e.address ++ "   " ++ Text.column 8 e.bytes ++ "   " ++
    e.indent ++ source
  address : Text.IsUpperHex 4 e.address (Text.hexUpper 4 e.address).toList
  width : (Text.column 8 e.bytes).toList.length = 8
  inside : p.origin ≤ e.address ∧ e.address ≤ p.stop
  /-- The bytes shown beside an instruction are those of the code. -/
  code : ∀ s i, e = .statement s → s.content.statement = .instruction i → ∃ size, i.size? = some size ∧
    Listing.readColumn (Text.column 8 e.bytes).toList =
      some ((p.code.drop (e.address - p.origin)).take size)

/-- The listings of a program agree with each other, with its block and with its code. -/
structure Program.ListsAs (p : Program) (b : Block) : Prop where
  source : p.source = b.source
  length : p.dump.length + 1 = p.source.length
  /-- Every statement has one line, and so has each end of a block. -/
  statements : p.entries.filterMap Listing.Entry.statement? = p.body.leaves
  lines : ∀ i line, p.dump[i]? = some line → ∃ source e,
    p.source[i + 1]? = some source ∧ p.entries[i]? = some e ∧ p.Shows line source e
  ordered : (p.entries.map Listing.Entry.address).Pairwise (· ≤ ·)

theorem Listing.Entry.length_column {e : Entry}
    (h : ∀ s, e = .statement s → s.content.Genuine s.address) :
    (Text.column 8 e.bytes).toList.length = 8 := by
  have hblank : ("" : String).toList.length ≤ 8 := by decide
  have hdots : ".. .. ..".toList.length ≤ 8 := by decide
  have hwidth : e.bytes.toList.length ≤ 8 := by
    cases e with
    | start scope => exact hblank
    | stop scope => exact hblank
    | statement s =>
      have hg := h s rfl
      obtain ⟨address, statement, bytes⟩ := s
      cases statement with
      | instruction i =>
        have hlength : bytes.length ≤ 3 := Instruction.length_of_encode hg
        show (byteColumn bytes).toList.length ≤ 8
        rw [length_byteColumn]
        omega
      | label l => exact hblank
      | align a => exact hblank
      | data d => exact hdots
  rw [Text.column, String.toList_ofList, List.length_rightpad, Nat.max_eq_left hwidth]

/-- **The listings agree with each other and with the image.** -/
theorem link_listings {b : Block} (hb : b.Reachable) {origin : Int} {p : Program}
    (h : b.link origin = .ok p) : p.ListsAs b := by
  obtain ⟨_, hlt, hl⟩ := linksTo_of_link h
  have htiles := hl.tiles hb (Nat.le_of_lt hlt)
  have hclimbs : Climbs p.origin p.stop (p.entries.map Listing.Entry.address) := by
    rw [Program.entries, List.map_append]
    exact .append htiles.le (Nat.le_refl _) htiles.climbs (.singleton p.stop)
  have hstatements : p.entries.filterMap Listing.Entry.statement? = p.body.leaves := by
    rw [Program.entries, List.filterMap_append, Listing.filterMap_entries]
    exact List.append_nil _
  have hleaf : ∀ s, Listing.Entry.statement s ∈ p.entries → s ∈ p.body.leaves := by
    intro s hs
    rw [← hstatements]
    exact List.mem_filterMap.mpr ⟨_, hs, rfl⟩
  constructor
  case source => exact hl.source
  case length =>
    rw [p.dump_eq, p.source_eq, List.length_map, List.length_cons, List.length_map]
  case statements => exact hstatements
  case ordered => exact hclimbs.ordered
  case lines =>
    intro i line hline
    rw [p.dump_eq, List.getElem?_map] at hline
    obtain ⟨e, he, rfl⟩ := Option.map_eq_some_iff.mp hline
    have hmem : e ∈ p.entries := List.mem_of_getElem? he
    refine ⟨e.source, e, ?_, he, ?_⟩
    · rw [p.source_eq, List.getElem?_cons_succ, List.getElem?_map, he]
      rfl
    constructor
    case subject => rfl
    case text => rfl
    case address => exact Text.isUpperHex_hexUpper 4 e.address
    case width =>
      refine Listing.Entry.length_column fun s hs => ?_
      subst hs
      exact htiles.genuine s (hleaf s hmem)
    case inside => exact hclimbs.bounded _ (List.mem_map_of_mem hmem)
    case code =>
      intro s j hs hj
      subst hs
      have hs := hleaf s hmem
      have hsize := Instruction.size_of_genuine (hl.sound hb s hs) (htiles.genuine s hs) hj
      have hslice : (p.code.drop (s.address - p.origin)).take s.content.bytes.length = s.content.bytes :=
        (htiles.slice hs).2
      refine ⟨_, hsize, ?_⟩
      rw [Listing.Entry.bytes_instruction hj, Listing.readColumn_column]
      exact congrArg some hslice.symm

theorem countdown_listings : ∃ p, Block.countdown.link 0x1000 = .ok p ∧ p.ListsAs Block.countdown ∧
    p.source[6]? = some "bne loop" ∧ p.dump[5]? = some "$1003   D0 FD      \tbne loop" := by
  obtain ⟨p, hp, hsource, hdump⟩ : ∃ p, Block.countdown.link 0x1000 = .ok p ∧
      p.source[6]? = some "bne loop" ∧ p.dump[5]? = some "$1003   D0 FD      \tbne loop" :=
    ⟨_, rfl, rfl, rfl⟩
  exact ⟨p, hp, link_listings Block.countdown_fresh.reachable hp, hsource, hdump⟩

end Asm6502

import Mathlib.Algebra.GroupWithZero.Nat
import Asm6502.Proofs.Flattening
import Asm6502.Proofs.Relinking
import Asm6502.Proofs.SymbolTables

/-! Labels that are defined again.

The warnings of a program are threaded through all its blocks, while each block begins a table of
its own. Said without tables, a label is reported if an earlier label of the same name lies directly
in the same block, and then with the address of the nearest such label (`Placed.redefinition?`).
`link_redefinitions` says that the warnings are these reports in the order of the program, that each
table lists the labels of its block, and that no label is lost: each one either adds an entry to a
table or is reported. -/
namespace Asm6502

/-! ### One label behind others -/

/-- The redefinition that a statement makes behind others on its level. -/
def Placed.redefinition? (before : List (Placed Statement)) (p : Placed Statement) :
    Option Redefinition :=
  p.content.defines.bind fun name =>
    (lastDefinition? name before).map fun previous => ⟨name, previous, p.address⟩

/-- A level holds two labels of the name of a redefinition and no third between them, the first at
the former address and the second at the new one. -/
def Redefinition.OccursIn (r : Redefinition) (ps : List (Placed Statement)) : Prop :=
  ∃ before earlier between later after, ps = before ++ earlier :: (between ++ later :: after) ∧
    earlier.content.defines = some r.name ∧ later.content.defines = some r.name ∧
    (∀ p ∈ between, p.content.defines ≠ some r.name) ∧
    earlier.address = r.previous ∧ later.address = r.address

theorem lastDefinition?_eq_some {name : String} {ps : List (Placed Statement)} {a : Nat} :
    lastDefinition? name ps = some a ↔ ∃ before p after, ps = before ++ p :: after ∧
      p.content.defines = some name ∧ (∀ q ∈ after, q.content.defines ≠ some name) ∧ p.address = a := by
  simp only [lastDefinition?, Option.map_eq_some_iff, List.find?_eq_some_iff_append, decide_eq_true_eq,
    Bool.not_eq_true', decide_eq_false_iff_not]
  constructor
  · rintro ⟨p, ⟨hp, after, before, hsplit, hafter⟩, ha⟩
    refine ⟨before.reverse, p, after.reverse, ?_, hp, fun q hq => hafter q (List.mem_reverse.mp hq), ha⟩
    rw [← List.reverse_reverse ps, hsplit]
    simp
  · rintro ⟨before, p, after, rfl, hp, hafter, ha⟩
    refine ⟨p, ⟨hp, after.reverse, before.reverse, by simp, fun q hq => ?_⟩, ha⟩
    exact hafter q (List.mem_reverse.mp hq)

theorem Placed.redefinition?_eq_some {before : List (Placed Statement)} {p : Placed Statement}
    {r : Redefinition} : p.redefinition? before = some r ↔
      p.content.defines = some r.name ∧ lastDefinition? r.name before = some r.previous ∧
        p.address = r.address := by
  simp only [redefinition?, Option.bind_eq_some_iff, Option.map_eq_some_iff]
  constructor
  · rintro ⟨name, hname, previous, hprevious, rfl⟩
    exact ⟨hname, hprevious, rfl⟩
  · rintro ⟨hname, hprevious, haddress⟩
    exact ⟨r.name, hname, r.previous, hprevious, by rw [haddress]⟩

/-- A redefinition occurs on a level if one of its statements makes it behind those before. -/
theorem Redefinition.occursIn_iff {r : Redefinition} {ps : List (Placed Statement)} :
    r.OccursIn ps ↔
      ∃ before p after, ps = before ++ p :: after ∧ p.redefinition? before = some r := by
  simp only [Placed.redefinition?_eq_some, lastDefinition?_eq_some]
  constructor
  · rintro ⟨before, earlier, between, later, after, rfl, he, hl, hbetween, hprevious, haddress⟩
    refine ⟨before ++ earlier :: between, later, after, by simp, hl, ?_, haddress⟩
    exact ⟨before, earlier, between, rfl, he, hbetween, hprevious⟩
  · rintro ⟨_, later, after, rfl, hl, ⟨before, earlier, between, rfl, he, hbetween, hprevious⟩, haddress⟩
    exact ⟨before, earlier, between, later, after, by simp, he, hl, hbetween, hprevious, haddress⟩

/-! ### The labels of a block -/

theorem labelsOf_concat (before : List (Placed Statement)) (p : Placed Statement) :
    labelsOf (before ++ [p]) = (p.content.defineAt p.address (labelsOf before)).2 := by
  rw [labelsOf, SymbolTable.defineAll, List.foldl_append]
  rfl

/-- The table of a level reports what the level shows. -/
theorem Placed.fst_defineAt (before : List (Placed Statement)) (p : Placed Statement) :
    (p.content.defineAt p.address (labelsOf before)).1 = (p.redefinition? before).toList := by
  rw [Statement.defineAt_eq, redefinition?]
  cases p.content.defines with
  | none => rfl
  | some name =>
    simp only [address?_labelsOf, Option.bind_some]
    cases lastDefinition? name before <;> rfl

theorem Statement.size_defineAt (a : Nat) (t : SymbolTable) (s : Statement) :
    (s.defineAt a t).1.length + (s.defineAt a t).2.size = s.defines.toList.length + t.size := by
  rw [defineAt_eq]
  cases s.defines with
  | none => rfl
  | some name =>
    have hsize := t.size_define name a
    rw [SymbolTable.fst_define] at hsize
    simp only [List.length_map, Option.toList_some, List.length_singleton]
    omega

namespace Block

/-- **The redefinitions of a block** are those that its statements make, each behind the statements
before it on its own level. -/
theorem redefinitions_eq (address : Nat) (b : Block) (before : List (Placed Statement)) :
    b.redefinitions address (labelsOf before) =
      ((b.placed address).precededIn before).filterMap fun site => site.2.redefinition? site.1 := by
  induction b generalizing address before with
  | nil => rfl
  | item s rest ih =>
    have hreport := Placed.fst_defineAt before ⟨address, s⟩
    have hlabels := labelsOf_concat before ⟨address, s⟩
    rw [redefinitions, hreport, ← hlabels, ih, placed, Outline.precededIn, List.filterMap_cons]
    cases Placed.redefinition? before ⟨address, s⟩ <;> rfl
  | group _ inner rest ihi ihr =>
    rw [redefinitions, placed, Outline.precededIn, List.filterMap_append, ← ihi address [], ← ihr]
    rfl

/-- Every label adds an entry to a table or is defined again. -/
theorem length_defines (address : Nat) (t : SymbolTable) (b : Block) :
    (b.leaves.filterMap Statement.defines).length + t.size =
      (b.redefinitions address t).length + (t.defineAll (b.placed address).items).size +
        ((b.placed address).groups.map fun g => g.1.labels.size).sum := by
  induction b generalizing address t with
  | nil => simp [Outline.leaves, redefinitions, placed, Outline.items, Outline.groups,
      SymbolTable.defineAll]
  | item s rest ih =>
    have hstep := s.size_defineAt address t
    have hrest := ih (s.stopAt address) (s.defineAt address t).2
    have hnames : ((s :: rest.leaves).filterMap Statement.defines).length =
        s.defines.toList.length + (rest.leaves.filterMap Statement.defines).length := by
      rw [List.filterMap_cons]
      cases s.defines <;> simp [Nat.add_comm]
    have hitems : t.defineAll (placed address (.item s rest)).items =
        (s.defineAt address t).2.defineAll (placed (s.stopAt address) rest).items := rfl
    rw [Outline.leaves, hnames, redefinitions, List.length_append, hitems, placed, Outline.groups]
    omega
  | group _ inner rest ihi ihr =>
    have hinner := ihi address .empty
    have hrest := ihr (stopAt address inner) t
    have hempty : SymbolTable.empty.size = 0 := rfl
    rw [Outline.leaves, List.filterMap_append, List.length_append, redefinitions, List.length_append,
      placed, Outline.items, Outline.groups, List.map_cons, List.map_append, List.sum_cons,
      List.sum_append]
    simp only [labelsOf]
    omega

end Block

/-! ### The warnings of a program -/

/-- The scope of a linked block holds the labels of the statements that were emitted in it. -/
theorem Emits.scope_labels {b : Block} {address : Nat} {labels : SymbolTable}
    {out : Outline Scope (Placed Emitted)} (h : Emits labels (b.placed address) out) :
    ∀ g ∈ out.groups, g.1.labels = labelsOf (g.2.items.map Placed.statement) := by
  induction b generalizing address labels out with
  | nil =>
    cases h
    intro g hg
    cases hg
  | item s rest ih =>
    cases h with
    | item _ hr =>
      have hrest := ih hr
      exact hrest
  | group _ inner rest ihi ihr =>
    cases h with
    | group hi hr =>
      refine List.forall_mem_cons.mpr ⟨(hi.defineAll_items .empty).symm, ?_⟩
      exact List.forall_mem_append.mpr ⟨ihi hi, ihr hr⟩

/-- What a program reports and tabulates of its labels. -/
structure Program.ReportsLabels (p : Program) : Prop where
  /-- There is one warning for each label that an earlier one of its own block has the name of, in
  the order of the program, and it names the nearest of these. -/
  warnings : p.warnings = p.body.preceded.filterMap fun site =>
    site.2.statement.redefinition? (site.1.map Placed.statement)
  /-- A warning is about two labels directly in one block, never about labels of two blocks. -/
  withinBlocks : ∀ r, r ∈ p.warnings ↔
    ∃ block ∈ p.blocks, r.OccursIn (block.2.items.map Placed.statement)
  /-- The table of every block lists its labels. -/
  tables : ∀ block ∈ p.blocks, block.1.labels.Tabulates (block.2.items.map Placed.statement)

theorem Block.LinksTo.warnings_eq {b : Block} {address : Nat} {p : Program} (h : b.LinksTo address p)
    (ha : address ≤ memorySize) : p.warnings = p.body.preceded.filterMap fun site =>
      site.2.statement.redefinition? (site.1.map Placed.statement) := by
  have hplaced : p.toBlock.placed address = p.body.map id Placed.statement := h.emits.placed_blockOf
  have hmap := Outline.precededIn_map id Placed.statement [] p.body
  calc p.warnings
    _ = p.toBlock.redefinitions address (labelsOf []) := (h.toBlock ha).warnings
    _ = ((p.body.map id Placed.statement).precededIn []).filterMap fun site =>
          site.2.redefinition? site.1 := by rw [Block.redefinitions_eq, hplaced]
    _ = _ := by
      rw [← List.map_nil (f := Placed.statement), hmap, List.filterMap_map]
      rfl

/-- What stands before a statement of a program is the beginning of its block. -/
theorem Program.mem_preceded {p : Program} {before : List (Placed Emitted)} {e : Placed Emitted} :
    (before, e) ∈ p.body.preceded ↔ ∃ block ∈ p.blocks, ∃ after, block.2.items = before ++ e :: after := by
  rw [Outline.preceded, Outline.mem_precededIn]
  simp [Program.blocks]

theorem Program.mem_reports {p : Program} {r : Redefinition} :
    r ∈ (p.body.preceded.filterMap fun site =>
        site.2.statement.redefinition? (site.1.map Placed.statement)) ↔
      ∃ block ∈ p.blocks, r.OccursIn (block.2.items.map Placed.statement) := by
  constructor
  · intro h
    obtain ⟨⟨before, e⟩, hsite, hr⟩ := List.mem_filterMap.mp h
    obtain ⟨block, hblock, after, hitems⟩ := Program.mem_preceded.mp hsite
    refine ⟨block, hblock, Redefinition.occursIn_iff.mpr ⟨_, e.statement, after.map Placed.statement, ?_, hr⟩⟩
    rw [hitems, List.map_append, List.map_cons]
  · rintro ⟨block, hblock, hr⟩
    obtain ⟨_, _, _, hitems, hr⟩ := Redefinition.occursIn_iff.mp hr
    obtain ⟨before, rest, hsplit, rfl, hrest⟩ := List.map_eq_append_iff.mp hitems
    obtain ⟨e, after, rfl, rfl, rfl⟩ := List.map_eq_cons_iff.mp hrest
    have hsite : (before, e) ∈ p.body.preceded :=
      Program.mem_preceded.mpr ⟨block, hblock, after, hsplit⟩
    exact List.mem_filterMap.mpr ⟨(before, e), hsite, hr⟩

/-- **Redefinitions are reported exactly.** The warnings and tables of a linked block account for all
of its labels: each one, at whatever depth, is an entry of a table or the subject of a warning. -/
theorem link_redefinitions {b : Block} {origin : Int} {p : Program} (h : b.link origin = .ok p) :
    p.ReportsLabels ∧ p.unlinked = b.map id Statement.pending ∧
      (b.leaves.filterMap Statement.defines).length =
        p.warnings.length + (p.blocks.map fun block => block.1.labels.size).sum := by
  obtain ⟨_, hlt, hl⟩ := linksTo_of_link h
  have hwarnings := hl.warnings_eq (Nat.le_of_lt hlt)
  refine ⟨⟨hwarnings, fun r => ?_, ?_⟩, hl.unlinked, ?_⟩
  · rw [hwarnings]
    exact Program.mem_reports
  · have htop : p.scope.labels = labelsOf (p.body.items.map Placed.statement) := by
      rw [hl.scope]
      exact hl.labelsAt_eq
    refine List.forall_mem_cons.mpr ⟨htop ▸ labelsOf_tabulates _, fun g hg => ?_⟩
    exact hl.emits.scope_labels g hg ▸ labelsOf_tabulates _
  · have hcount := b.length_defines (b.startFor origin.toNat) .empty
    have hscopes := congrArg (List.map fun scope => scope.labels.size) hl.emits.scopes
    simp only [List.map_map, Function.comp_def] at hscopes
    rw [hl.warnings, Program.blocks, List.map_cons, List.sum_cons, hscopes, hl.scope, ← Nat.add_assoc]
    exact hcount

/-- A name that is defined twice in a block and, between the two, in a block inside it. -/
def Block.relabelled : Block :=
  let name : Label := ⟨"twice", by decide⟩
  let nop : Statement := .instruction ⟨.nop, .none, none, .settled .implied none⟩
  .item (.label name) <| .item nop <|
  .group () (.item (.label name) <| .item nop .nil) <|
  .item (.label name) .nil

theorem relabelled_redefinitions : ∃ p, Block.relabelled.link 0x1000 = .ok p ∧ p.ReportsLabels ∧
    p.warnings = [⟨"twice", 0x1000, 0x1002⟩] ∧
    p.blocks.map (fun block => block.1.labels) = [⟨[⟨"twice", 0x1002⟩]⟩, ⟨[⟨"twice", 0x1001⟩]⟩] := by
  obtain ⟨p, hp, hwarnings, htables⟩ : ∃ p, Block.relabelled.link 0x1000 = .ok p ∧
      p.warnings = [⟨"twice", 0x1000, 0x1002⟩] ∧
      p.blocks.map (fun block => block.1.labels) = [⟨[⟨"twice", 0x1002⟩]⟩, ⟨[⟨"twice", 0x1001⟩]⟩] :=
    ⟨_, rfl, rfl, rfl⟩
  exact ⟨p, hp, (link_redefinitions hp).1, hwarnings, htables⟩

end Asm6502

import Asm6502.Proofs.Flattening

/-! Programs that go on.

Statements that are put behind a block come later in both passes, and yet they can reach back: a
label defined again behind the block moves every reference to it inside. Nothing else can. A level is
emitted from the labels that its instructions wait for and from no others (`Layout.emit_congr`), and
a label table keeps the address of every name that is not defined again. So `link_append` says that
a block whose awaited names are left alone is found in the longer program as it was linked on its
own, with the warnings in front of the later ones. Data define no label at all, so they can stand
behind any block that links (`Block.linkFrom_push_data`). -/
namespace Asm6502

/-! ### The labels that are looked up -/

/-- The label that an instruction waits for. -/
def Statement.awaits : Statement → Option String
  | instruction i => if i.isReady then none else i.label?
  | _ => none

/-- The names that the instructions directly in a block wait for. -/
def Block.awaited (b : Block) : List String := b.items.filterMap Statement.awaits

section Congruence
variable {t u : SymbolTable}

theorem SymbolTable.target_congr {name : String} (h : t.address? name = u.address? name)
    (address : Nat) : t.target address name = u.target address name := by
  unfold SymbolTable.target
  rw [h]

theorem Statement.emit_congr {s : Statement}
    (h : ∀ name, s.awaits = some name → t.address? name = u.address? name) (address : Nat) :
    s.emit t address = s.emit u address := by
  cases s with
  | instruction i =>
    have hresolve : i.resolveAt t address = i.resolveAt u address := by
      unfold Instruction.resolveAt
      cases hl : i.label? with
      | none => rfl
      | some name =>
        by_cases hr : i.isReady = true
        · simp only [hr, if_true]
        · have hname : t.address? name = u.address? name := by
            apply h
            simp only [awaits, hr, if_false, hl, Bool.false_eq_true]
          simp only [SymbolTable.target_congr hname]
    rw [emit, hresolve, emit]
  | _ => rfl

/-- **Only awaited labels are looked up**: tables that agree on them emit the same. -/
theorem Layout.emit_congr {o : Outline Scope (Placed Statement)}
    (h : ∀ p ∈ o.items, ∀ name, p.content.awaits = some name → t.address? name = u.address? name) :
    Layout.emit t o = Layout.emit u o := by
  induction o with
  | nil => rfl
  | item p rest ih =>
    obtain ⟨hp, hrest⟩ := List.forall_mem_cons.mp h
    rw [Layout.emit, Layout.emit, Statement.emit_congr hp, ih hrest]
  | group scope inner rest _ ihr => rw [Layout.emit, Layout.emit, ihr h]

end Congruence

/-! ### Both passes over a longer block -/

namespace Block

/-- A name that is not defined again keeps its address. -/
theorem address?_labelsAt_append {address : Nat} {b c : Block} {name : String} (h : name ∉ c.labelNames) :
    (labelsAt address (b ++ c)).address? name = (b.labelsAt address).address? name := by
  have hnone : lastDefinition? name (c.placed (b.stopAt address)).items = none := by
    rw [lastDefinition?_eq_filter, filter_defines_eq_nil.mpr (by rw [items_placed]; exact h)]
    rfl
  have hlabels : labelsAt address (b ++ c) =
      (b.labelsAt address).defineAll (c.placed (b.stopAt address)).items := by
    rw [labelsAt, placed_append, Outline.items_append]
    exact List.foldl_append
  rw [hlabels, address?_defineAll, hnone, Option.none_or]

theorem redefinitions_append (address : Nat) (labels : SymbolTable) (b c : Block) :
    redefinitions address labels (b ++ c) = b.redefinitions address labels ++
      c.redefinitions (b.stopAt address) (labels.defineAll (b.placed address).items) := by
  induction b generalizing address labels with
  | nil => rfl
  | item s rest ih =>
    simp only [Outline.item_append, redefinitions, ih, List.append_assoc]
    rfl
  | group _ inner rest _ ih =>
    simp only [Outline.group_append, redefinitions, ih, List.append_assoc, placed, Outline.items]
    rw [stopAt_group]

/-- What is put behind a block does not come first in it. -/
theorem startFor_append {b : Block} (hb : b ≠ .nil) (c : Block) (origin : Nat) :
    startFor (b ++ c) origin = b.startFor origin := by
  unfold startFor
  cases b with
  | nil => exact absurd rfl hb
  | item s rest => cases s <;> rfl
  | group _ inner rest => rfl

end Block

theorem Emits.of_append {t : SymbolTable} {o o' : Outline Scope (Placed Statement)}
    {out : Outline Scope (Placed Emitted)} (h : Emits t (o ++ o') out) :
    ∃ x y, Emits t o x ∧ Emits t o' y ∧ out = x ++ y := by
  induction o generalizing out with
  | nil => exact ⟨.nil, out, .nil, h, rfl⟩
  | item p rest ih =>
    cases h with
    | item he hr =>
      obtain ⟨x, y, hx, hy, rfl⟩ := ih hr
      exact ⟨_, y, .item he hx, hy, rfl⟩
  | group scope inner rest _ ih =>
    cases h with
    | group hi hr =>
      obtain ⟨x, y, hx, hy, rfl⟩ := ih hr
      exact ⟨_, y, .group hi hx, hy, rfl⟩

/-! ### Data behind a block -/

/-- A program with data behind it. -/
def Program.withData (p : Program) (d : Data) : Program where
  scope := { p.scope with stop := p.stop + d.bytes.length }
  body := p.body ++ .item ⟨p.stop, ⟨.data d, d.bytes⟩⟩ .nil
  warnings := p.warnings

theorem Program.code_withData (p : Program) (d : Data) : (p.withData d).code = p.code ++ d.bytes := by
  simp [code, withData, Outline.leaves]

namespace Block

theorem stopAt_data (address : Nat) (b : Block) (d : Data) :
    (b.push (.data d)).stopAt address = b.stopAt address + d.bytes.length := by
  rw [push, stopAt, Outline.leaves_append, runningAddress_append]
  rfl

theorem labelsAt_data (address : Nat) (b : Block) (d : Data) :
    (b.push (.data d)).labelsAt address = b.labelsAt address := by
  rw [push, labelsAt, placed_append, Outline.items_append, labelsOf, SymbolTable.defineAll,
    List.foldl_append]
  rfl

theorem redefinitions_data (address : Nat) (labels : SymbolTable) (b : Block) (d : Data) :
    (b.push (.data d)).redefinitions address labels = b.redefinitions address labels := by
  rw [push, redefinitions_append]
  exact List.append_nil _

theorem firstFault_data {address : Nat} {b : Block} (h : firstFault address b.leaves = none) (d : Data) :
    firstFault address (b.push (.data d)).leaves =
      Statement.overflow? (b.stopAt address) (.data d) := by
  rw [push, Outline.leaves_append, firstFault_append, h, Option.none_or]
  show firstFault (b.stopAt address) [.data d] = _
  rw [firstFault_cons]
  exact Option.or_none

/-- **Data behind a block** come behind its program, or the memory ends before they do. -/
theorem linkFrom_push_data {b : Block} {address : Nat} {p : Program} (ha : address ≤ memorySize)
    (h : b.linkFrom address = .ok p) (d : Data) : (b.push (.data d)).linkFrom address =
      if p.stop + d.bytes.length ≤ memorySize then .ok (p.withData d)
      else .error (.programOverflow (p.stop + d.bytes.length)) := by
  have hlinks := linkFrom_eq_ok.mp h
  have hfault := firstFault_data hlinks.faultless d
  have hstop : (Statement.data d).stopAt (b.stopAt address) = p.stop + d.bytes.length := by
    rw [hlinks.stop]
    rfl
  rw [Statement.overflow?, hstop] at hfault
  by_cases hfits : p.stop + d.bytes.length ≤ memorySize
  · rw [if_neg (Nat.not_lt.mpr hfits)] at hfault
    rw [if_pos hfits]
    apply linkFrom_eq_ok.mpr
    constructor
    case fits => exact .inl ha
    case faultless => exact hfault
    case scope =>
      rw [stopAt_data, labelsAt_data, Program.withData, hlinks.scope, hlinks.stop]
    case warnings =>
      rw [redefinitions_data]
      exact hlinks.warnings
    case emits =>
      rw [labelsAt_data, push, placed_append, Program.withData, hlinks.stop]
      exact hlinks.emits.append (.item rfl .nil)
  · rw [if_pos (Nat.lt_of_not_le hfits)] at hfault
    rw [if_neg hfits, linkFrom, Layout.place_eq ha, hfault]
    rfl

end Block

/-! ### Longer programs -/

/-- A program that begins with another one. -/
structure Program.ExtendedBy (p q : Program) : Prop where
  origin : q.origin = p.origin
  /-- Every node at every depth is there as it was, with its address and its size, a statement with
  its resolved value and its bytes, a nested block with its labels. -/
  body : ∃ more, q.body = p.body ++ more
  code : p.code <+: q.code
  /-- The later warnings come behind those there were. -/
  warnings : p.warnings <+: q.warnings

/-- What a block emits does not change when more is put behind it. -/
theorem Block.LinksTo.body_append {b c : Block} {address : Nat} {p q : Program}
    (hp : b.LinksTo address p) (hq : LinksTo (b ++ c) address q)
    (hnames : ∀ name ∈ b.awaited, name ∉ c.labelNames) : ∃ more, q.body = p.body ++ more := by
  have hemits := hq.emits
  rw [Block.placed_append] at hemits
  obtain ⟨body, more, hbody, _, hq⟩ := hemits.of_append
  have hagree : ∀ s ∈ (b.placed address).items, ∀ name, s.content.awaits = some name →
      (Block.labelsAt address (b ++ c)).address? name = (b.labelsAt address).address? name := by
    intro s hs name hname
    apply Block.address?_labelsAt_append
    apply hnames
    rw [Block.awaited, ← Block.items_placed address]
    exact List.mem_filterMap.mpr ⟨_, List.mem_map_of_mem hs, hname⟩
  have hsame := emit_eq_ok.mpr hbody
  rw [Layout.emit_congr hagree, emit_eq_ok.mpr hp.emits] at hsame
  cases hsame
  exact ⟨more, hq⟩

/-- **Appending disturbs nothing.** A block that is not empty is found as it was in every longer
program from the same origin, if no label that its own instructions wait for is defined again. -/
theorem link_append {b c : Block} (hb : b ≠ .nil) {origin : Int} {p q : Program}
    (hp : b.link origin = .ok p) (hq : Block.link (b ++ c) origin = .ok q)
    (hnames : ∀ name ∈ b.awaited, name ∉ c.labelNames) : p.ExtendedBy q := by
  obtain ⟨_, _, hlp⟩ := linksTo_of_link hp
  obtain ⟨_, _, hlq⟩ := linksTo_of_link hq
  rw [Block.startFor_append hb] at hlq
  obtain ⟨more, hbody⟩ := hlp.body_append hlq hnames
  constructor
  case origin => rw [hlp.origin, hlq.origin]
  case body => exact ⟨more, hbody⟩
  case code =>
    rw [Program.code, Program.code, hbody, Outline.leaves_append, List.flatMap_append]
    exact List.prefix_append _ _
  case warnings =>
    rw [hlp.warnings, hlq.warnings, Block.redefinitions_append]
    exact List.prefix_append _ _

namespace Block

/-- A counter that is counted up, and a label that is defined twice. -/
def countUp : Block :=
  .item (.label ⟨"mark", by decide⟩) <|
  .item (.instruction ⟨.inc, .label "count", none, .pending .absolute⟩) <|
  .item (.label ⟨"mark", by decide⟩) <|
  .item (.instruction ⟨.jmp, .label "*", some (.offset 4), .pending .absolute⟩) <|
  .item (.label ⟨"count", by decide⟩) <|
  .item (.data (Data.ofBytes [0])) .nil

/-- Defines the label a third time, and counts down from a counter of its own. -/
def countDown : Block :=
  .item (.label ⟨"mark", by decide⟩) <|
  .group () (
    .item (.instruction ⟨.dec, .label "count", none, .pending .absolute⟩) <|
    .item (.label ⟨"count", by decide⟩) <|
    .item (.data (Data.ofBytes [9])) .nil) .nil

end Block

theorem countUp_extended : ∃ p q, Block.countUp.link 0x1000 = .ok p ∧
    Block.link (Block.countUp ++ Block.countDown) 0x1000 = .ok q ∧
    p.code = [0xee, 0x06, 0x10, 0x4c, 0x07, 0x10, 0] ∧ q.code = p.code ++ [0xce, 0x0a, 0x10, 9] ∧
    p.warnings = [⟨"mark", 0x1000, 0x1003⟩] ∧
    q.warnings = [⟨"mark", 0x1000, 0x1003⟩, ⟨"mark", 0x1003, 0x1007⟩] ∧ p.ExtendedBy q := by
  obtain ⟨p, hp, hpcode, hpw⟩ : ∃ p, Block.countUp.link 0x1000 = .ok p ∧
      p.code = [0xee, 0x06, 0x10, 0x4c, 0x07, 0x10, 0] ∧
      p.warnings = [⟨"mark", 0x1000, 0x1003⟩] := ⟨_, rfl, rfl, rfl⟩
  obtain ⟨q, hq, hqcode, hqw⟩ : ∃ q, Block.link (Block.countUp ++ Block.countDown) 0x1000 = .ok q ∧
      q.code = [0xee, 0x06, 0x10, 0x4c, 0x07, 0x10, 0] ++ [0xce, 0x0a, 0x10, 9] ∧
      q.warnings = [⟨"mark", 0x1000, 0x1003⟩, ⟨"mark", 0x1003, 0x1007⟩] := ⟨_, rfl, rfl, rfl⟩
  have hnames : ∀ name ∈ Block.countUp.awaited, name ∉ Block.countDown.labelNames := by decide
  have hne : Block.countUp ≠ .nil := by
    intro h
    cases h
  rw [← hpcode] at hqcode
  exact ⟨p, q, hp, hq, hpcode, hqcode, hpw, hqw, link_append hne hp hq hnames⟩

end Asm6502

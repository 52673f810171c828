import Asm6502.Proofs.Emission

/-! Programs that are linked again.

A linked program can be read as a block: its statements as they were emitted, in the same nesting
(`Program.toBlock`). Nothing in that block waits for a label, so linking it looks up no name and
checks no value, and it may take its origin from elsewhere than the first linking did. It comes to
the same program all the same (`link_toBlock`): an emitted statement emits itself under whatever
labels (`Statement.emit_again`), and a block restated in what its statements emit (`Block.Restated`)
is as long as before, defines the same names and begins with the same alignment. -/
namespace Asm6502

/-! ### Emitted statements -/

theorem Instruction.resolveAt_of_isReady {i : Instruction} (h : i.isReady = true)
    (labels : SymbolTable) (address : Nat) : i.resolveAt labels address = .ok i := by
  unfold resolveAt
  cases i.label? <;> simp [h]

namespace Statement
variable {labels : SymbolTable} {address : Nat} {s : Statement} {e : Emitted}

theorem isReady_of_emit (h : s.emit labels address = .ok e) : e.statement.isReady = true := by
  obtain ⟨i, j, rfl, _, hb, he⟩ | ⟨l, rfl, rfl⟩ | ⟨a, rfl, rfl⟩ | ⟨d, rfl, rfl⟩ := emit_cases h
  · rw [he]
    exact Instruction.isReady_of_encode hb
  · rfl
  · rfl
  · rfl

/-- **An emitted statement emits itself**, whatever the labels. -/
theorem emit_again (h : s.emit labels address = .ok e) (other : SymbolTable) :
    e.statement.emit other address = .ok e := by
  obtain ⟨i, j, rfl, _, hb, he⟩ | ⟨l, rfl, rfl⟩ | ⟨a, rfl, rfl⟩ | ⟨d, rfl, rfl⟩ := emit_cases h
  · have hj := Instruction.resolveAt_of_isReady (Instruction.isReady_of_encode hb) other address
    obtain ⟨statement, bytes⟩ := e
    rw [show statement = instruction j from he]
    exact emit_instruction hj hb
  · rfl
  · rfl
  · rfl

/-- An emitted statement is as long as the one it was emitted from. -/
theorem stopAt_of_emit (h : s.emit labels address = .ok e) (other : Nat) :
    e.statement.stopAt other = s.stopAt other := by
  obtain ⟨i, j, rfl, hj, _, he⟩ | ⟨l, rfl, rfl⟩ | ⟨a, rfl, rfl⟩ | ⟨d, rfl, rfl⟩ := emit_cases h
  · rw [he, stopAt, stopAt, (Instruction.pending_of_resolveAt hj).2]
  · rfl
  · rfl
  · rfl

/-- An emitted statement can stand where the one could that it was emitted from. -/
theorem fault?_of_emit (hf : s.fault? address = none) (h : s.emit labels address = .ok e) :
    e.statement.fault? address = none := by
  obtain ⟨i, j, rfl, _, _, he⟩ | ⟨l, rfl, rfl⟩ | ⟨a, rfl, rfl⟩ | ⟨d, rfl, rfl⟩ := emit_cases h
  · have hready := isReady_of_emit h
    have hstop := (stopAt_of_fault hf).2
    rw [← stopAt_of_emit h] at hstop
    rw [he] at hready hstop ⊢
    -- what is ready has a mode, so only the end of the memory could be in the way
    have hmode : j.mode? ≠ none := by
      intro hmode
      unfold Instruction.mode? at hmode
      change j.operand.isSettled = true at hready
      cases ho : j.operand <;> simp [ho, Operand.mode?, Operand.isSettled] at hmode hready
    rw [fault?, if_neg hmode, overflow?, if_neg (Nat.not_lt.mpr hstop)]
  · exact hf
  · exact hf
  · exact hf

theorem defineAt_of_emit (h : s.emit labels address = .ok e) (other : Nat) (t : SymbolTable) :
    e.statement.defineAt other t = s.defineAt other t := by
  unfold defineAt
  rw [(pending_of_emit h).2]

end Statement

/-! ### Emitted blocks -/

namespace Block

/-- A block in which every statement is replaced by what it emits, under whatever labels. -/
inductive Restated : Nat → Block → Block → Prop where
  | nil {address} : Restated address .nil .nil
  | item {address labels s e rest rest'} : s.emit labels address = .ok e →
      Restated (s.stopAt address) rest rest' →
      Restated address (.item s rest) (.item e.statement rest')
  | group {address inner inner' rest rest'} : Restated address inner inner' →
      Restated (inner.stopAt address) rest rest' →
      Restated address (.group () inner rest) (.group () inner' rest')

namespace Restated
variable {address : Nat} {b c : Block}

theorem isReady (h : Restated address b c) : c.isReady = true := by
  unfold Block.isReady
  induction h with
  | nil => rfl
  | item he _ ih => rw [Outline.leaves, List.all_cons, Statement.isReady_of_emit he, ih, Bool.and_self]
  | group _ _ ihi ihr => rw [Outline.leaves, List.all_append, ihi, ihr, Bool.and_self]

theorem stopAt (h : Restated address b c) (other : Nat) : c.stopAt other = b.stopAt other := by
  induction h generalizing other with
  | nil => rfl
  | @item _ _ s e rest rest' he _ ih =>
    show Block.stopAt (e.statement.stopAt other) rest' = Block.stopAt (s.stopAt other) rest
    rw [Statement.stopAt_of_emit he, ih]
  | group _ _ ihi ihr => rw [stopAt_group, stopAt_group, ihi, ihr]

theorem faultless (h : Restated address b c) (hf : firstFault address b.leaves = none) :
    firstFault address c.leaves = none := by
  induction h with
  | nil => rfl
  | item he _ ih =>
    rw [Outline.leaves, firstFault_cons, Option.or_eq_none_iff] at hf
    rw [Outline.leaves, firstFault_cons, Statement.fault?_of_emit hf.1 he,
      Statement.stopAt_of_emit he, ih hf.2, Option.none_or]
  | @group address inner inner' _ _ hi _ ihi ihr =>
    have hstop : runningAddress address inner'.leaves = runningAddress address inner.leaves :=
      hi.stopAt address
    rw [Outline.leaves, firstFault_append, Option.or_eq_none_iff] at hf
    rw [Outline.leaves, firstFault_append, hstop, ihi hf.1, Option.none_or]
    exact ihr hf.2

/-- The same names are defined again. -/
theorem redefinitions (h : Restated address b c) (t : SymbolTable) :
    c.redefinitions address t = b.redefinitions address t := by
  induction h generalizing t with
  | nil => rfl
  | item he _ ih =>
    rw [Block.redefinitions, Statement.defineAt_of_emit he, Statement.stopAt_of_emit he, ih,
      Block.redefinitions]
  | group hi _ ihi ihr =>
    rw [Block.redefinitions, hi.stopAt, ihi, ihr, Block.redefinitions]

/-- An alignment that decides the origin goes on to do so. -/
theorem leadingAlign? (h : Restated address b c) : c.leadingAlign? = b.leadingAlign? := by
  induction h with
  | nil => rfl
  | item he _ _ =>
    obtain ⟨i, j, rfl, _, _, hj⟩ | ⟨l, rfl, rfl⟩ | ⟨a, rfl, rfl⟩ | ⟨d, rfl, rfl⟩ :=
      Statement.emit_cases he
    · rw [hj]
      rfl
    · rfl
    · rfl
    · rfl
  | group _ _ ihi _ => rw [Block.leadingAlign?, ihi, Block.leadingAlign?]

end Restated

end Block

/-! ### The block of a program -/

/-- Emitted statements as a block. -/
def blockOf (o : Outline Scope (Placed Emitted)) : Block :=
  o.map (fun _ => ()) fun e => e.content.statement

/-- The block of a program: its statements as they were emitted. -/
def Program.toBlock (p : Program) : Block := blockOf p.body

namespace Emits
variable {labels : SymbolTable} {out : Outline Scope (Placed Emitted)}

theorem restated {b : Block} {address : Nat} (h : Emits labels (b.placed address) out) :
    b.Restated address (blockOf out) := by
  induction b generalizing address labels out with
  | nil =>
    cases h
    exact .nil
  | item s rest ih =>
    cases h with
    | item he hr => exact .item he (ih hr)
  | group _ inner rest ihi ihr =>
    cases h with
    | group hi hr => exact .group (ihi hi) (ihr hr)

/-- Emitted statements are placed where they were, under the same scopes. -/
theorem placed_blockOf {b : Block} {address : Nat} (h : Emits labels (b.placed address) out) :
    (blockOf out).placed address = out.map id Placed.statement := by
  induction b generalizing address labels out with
  | nil =>
    cases h
    rfl
  | item s rest ih =>
    cases h with
    | @item _ _ e _ out he hr =>
      show Outline.item _ (Block.placed (e.statement.stopAt address) (blockOf out)) = _
      rw [Statement.stopAt_of_emit he, ih hr]
      rfl
  | group _ inner rest ihi ihr =>
    cases h with
    | @group _ _ _ _ out out' hi hr =>
      have hlabels : labelsOf ((blockOf out).placed address).items =
          labelsOf (Block.placed address inner).items := by
        rw [ihi hi, Outline.items_map]
        exact hi.defineAll_items .empty
      show Outline.group ⟨address, Block.stopAt address (blockOf out),
        labelsOf ((blockOf out).placed address).items⟩ ((blockOf out).placed address)
        (Block.placed (Block.stopAt address (blockOf out)) (blockOf out')) = _
      rw [hlabels, hi.restated.stopAt, ihi hi, ihr hr]
      rfl

/-- What was emitted once is emitted again from itself. -/
theorem again {o : Outline Scope (Placed Statement)} (h : Emits labels o out) (other : SymbolTable) :
    Emits other (out.map id Placed.statement) out := by
  induction h generalizing other with
  | nil => exact .nil
  | @item _ p e _ _ he _ ih =>
    exact @Emits.item _ ⟨p.address, e.statement⟩ _ _ _ (Statement.emit_again he other) (ih other)
  | group _ _ ihi ihr => exact .group (ihi _) (ihr other)

end Emits

/-! ### Linking again -/

/-- A program is linked from its own block, from where it begins. -/
theorem Block.LinksTo.toBlock {b : Block} {address : Nat} {p : Program} (h : b.LinksTo address p)
    (ha : address ≤ memorySize) : p.toBlock.LinksTo address p := by
  have hrestated : b.Restated address p.toBlock := h.emits.restated
  have hplaced : p.toBlock.placed address = p.body.map id Placed.statement := h.emits.placed_blockOf
  have hlabels : p.toBlock.labelsAt address = b.labelsAt address := by
    rw [Block.labelsAt, hplaced, Outline.items_map, h.labelsAt_eq]
  constructor
  case fits => exact .inl ha
  case faultless => exact hrestated.faultless h.faultless
  case scope => rw [h.scope, hrestated.stopAt, hlabels]
  case warnings => rw [h.warnings, hrestated.redefinitions]
  case emits =>
    rw [hplaced]
    exact h.emits.again _

/-- **A program is a fixed point of linking.** The block of its emitted statements is ready, and
linked at the program's origin it is the program again: with the same end, the same labels on every
level, the same addresses, gaps, values and bytes, and the same warnings. -/
theorem link_toBlock {b : Block} {origin : Int} {p : Program} (h : b.link origin = .ok p) :
    p.toBlock.link p.origin = .ok p ∧ p.toBlock.isReady = true := by
  obtain ⟨_, hlt, hl⟩ := linksTo_of_link h
  have horigin : p.origin = b.startFor origin.toNat := hl.origin
  rw [← horigin] at hl hlt
  have hrestated : b.Restated p.origin p.toBlock := hl.emits.restated
  have hword : (0 : Int) ≤ p.origin ∧ (p.origin : Int) ≤ 0xffff := by
    unfold memorySize at hlt
    omega
  -- an alignment that decided the origin leads the block of the program too
  have hstart : p.toBlock.startFor p.origin = p.origin := by
    rw [Block.startFor, hrestated.leadingAlign?]
    cases hlead : b.leadingAlign? with
    | none => rfl
    | some a =>
      rw [Block.startFor, hlead] at horigin
      exact horigin.symm
  refine ⟨?_, hrestated.isReady⟩
  rw [link_of_origin hword, Int.toNat_natCast, hstart]
  exact linkFrom_eq_ok.mpr (hl.toBlock (Nat.le_of_lt hlt))

theorem countdown_toBlock : ∃ p, Block.countdown.link 0x1000 = .ok p ∧
    p.code = [0xa2, 0x03, 0xca, 0xd0, 0xfd, 0xa9, 0x10, 0x4c, 0x00, 0x10, 0, 0, 0, 0, 0, 0, 1, 2, 3] ∧
    Block.countdown.isReady = false ∧ p.toBlock.isReady = true ∧ p.toBlock.link 0x1000 = .ok p := by
  obtain ⟨p, hp, horigin, hcode⟩ : ∃ p, Block.countdown.link 0x1000 = .ok p ∧ p.origin = 0x1000 ∧
      p.code = [0xa2, 0x03, 0xca, 0xd0, 0xfd, 0xa9, 0x10, 0x4c, 0x00, 0x10, 0, 0, 0, 0, 0, 0, 1, 2, 3] :=
    ⟨_, rfl, rfl, rfl⟩
  obtain ⟨hlink, hready⟩ := link_toBlock hp
  rw [horigin] at hlink
  exact ⟨p, hp, hcode, rfl, hready, hlink⟩

end Asm6502

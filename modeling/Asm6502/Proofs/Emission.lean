import Asm6502.Proofs.Construction
import Asm6502.Proofs.Placement

/-! The second pass: what the placed statements emit.

`Emits` relates placed statements to what they emit, each under the labels of its own level, and
`Block.LinksTo` puts both passes together: it says of a block and an address what a program is that
was linked from them, and linking succeeds with exactly these programs (`linkFrom_eq_ok`). A linked
program has the form of its block and, resolution apart, its statements (`LinksTo.unlinked`), and
every statement in it was emitted under the labels that lie on its own level (`LinksTo.sites`). -/
namespace Asm6502

/-! ### Resolution at an address -/

namespace Instruction

/-- The instruction before its label was resolved. -/
def pending (i : Instruction) : Instruction :=
  match i.argument, i.operand with
  | .label _, .settled mode _ => { i with operand := .pending mode }
  | _, _ => i

/-- Resolution leaves an instruction as it is, or settles an operand that waits for a label. -/
theorem resolve_cases {i j : Instruction} {value : Int} (h : i.resolve value = .ok j) :
    (j = i ∧ (i.label? = none ∨ i.isReady = true)) ∨
      ∃ name mode v, i.argument = .label name ∧ i.operand = .pending mode ∧
        i.modified value = .ok v ∧ mode.accepts (some v) = true ∧
        j = { i with operand := .settled mode (some v) } := by
  rw [resolve_eq] at h
  split at h
  · cases h
    exact .inl ⟨rfl, .inl ‹_›⟩
  · rename_i ho
    cases h
    exact .inl ⟨rfl, .inr (by rw [isReady, ho]; rfl)⟩
  · cases h
  · rename_i name mode hl ho
    obtain ⟨v, hv, h⟩ := bind_eq_ok.mp h
    obtain ⟨w, hw, h⟩ := bind_eq_ok.mp h
    obtain ⟨rfl, haccept⟩ := validate_eq_ok.mp hw
    cases h
    refine .inr ⟨name, mode, v, ?_, ho, hv, haccept, rfl⟩
    cases ha : i.argument with
    | label other =>
      rw [label?, ha] at hl
      cases hl
      rfl
    | _ =>
      rw [label?, ha] at hl
      cases hl

theorem resolveAt_cases {labels : SymbolTable} {address : Nat} {i j : Instruction}
    (h : i.resolveAt labels address = .ok j) :
    (j = i ∧ (i.label? = none ∨ i.isReady = true)) ∨
      ∃ name target, i.label? = some name ∧ labels.target address name = .ok target ∧
        i.resolve (Mode.reference i.mode? address target) = .ok j := by
  unfold resolveAt at h
  split at h
  · rename_i name hl
    split at h
    · cases h
      exact .inl ⟨rfl, .inr ‹_›⟩
    · obtain ⟨target, ht, h⟩ := bind_eq_ok.mp h
      split at h
      · rename_i k hk
        cases h
        exact .inr ⟨name, target, hl, ht, hk⟩
      · cases h
  · cases h
    exact .inl ⟨rfl, .inl ‹_›⟩

theorem pending_of_resolveAt {labels : SymbolTable} {address : Nat} {i j : Instruction}
    (h : i.resolveAt labels address = .ok j) : j.pending = i.pending ∧ j.size? = i.size? := by
  obtain ⟨rfl, _⟩ | ⟨_, _, _, _, hres⟩ := resolveAt_cases h
  · exact ⟨rfl, rfl⟩
  · obtain ⟨rfl, _⟩ | ⟨name, mode, v, ha, ho, _, _, rfl⟩ := resolve_cases hres
    · exact ⟨rfl, rfl⟩
    · cases i
      cases ha
      cases ho
      exact ⟨rfl, rfl⟩

theorem Sound.of_resolveAt {labels : SymbolTable} {address : Nat} {i j : Instruction} (hi : Sound i)
    (h : i.resolveAt labels address = .ok j) : Sound j := by
  obtain ⟨rfl, _⟩ | ⟨_, _, _, _, hres⟩ := resolveAt_cases h
  · exact hi
  · exact hi.of_resolve hres

/-- An instruction with a mode is settled by resolving it. -/
theorem Sound.isReady_of_resolveAt {labels : SymbolTable} {address : Nat} {i j : Instruction}
    (hi : Sound i) (hm : i.mode? ≠ none) (h : i.resolveAt labels address = .ok j) :
    j.isReady = true := by
  have ready : i.label? = none ∨ i.isReady = true → i.isReady = true := by
    rintro (hl | hr)
    · cases hi with
      | resolved _ _ _ => rfl
      | unresolved hi =>
        cases hi with
        | bare => exact absurd rfl hm
        | plain _ _ _ => rfl
        | waiting _ _ => cases hl
    · exact hr
  obtain ⟨rfl, h⟩ | ⟨_, _, _, _, hres⟩ := resolveAt_cases h
  · exact ready h
  · obtain ⟨rfl, h⟩ | ⟨_, _, _, _, _, _, _, rfl⟩ := resolve_cases hres
    · exact ready h
    · rfl

theorem isReady_of_encode {i : Instruction} {bytes : List UInt8} (h : i.encode = .ok bytes) :
    i.isReady = true := by
  unfold encode at h
  unfold isReady
  split at h
  · rename_i ho
    rw [ho]
    rfl
  · cases h

end Instruction

/-! ### Emission of a statement -/

namespace Statement

/-- The statement before its label was resolved. -/
def pending : Statement → Statement
  | instruction i => instruction i.pending
  | s => s

/-- An instruction is in one of the states that can be reached. -/
def Sound (s : Statement) : Prop := ∀ i, s = instruction i → i.Sound

theorem sound_of_reachable {b : Block} (h : b.Reachable) : ∀ s ∈ b.leaves, s.Sound := by
  intro s hs i hi
  subst hi
  exact (h i hs).sound

/-- What emitted statements are, and with which bytes. -/
theorem emit_cases {labels : SymbolTable} {address : Nat} {s : Statement} {e : Emitted}
    (h : s.emit labels address = .ok e) :
    (∃ i j, s = instruction i ∧ i.resolveAt labels address = .ok j ∧ j.encode = .ok e.bytes ∧
      e.statement = instruction j) ∨
    (∃ l, s = label l ∧ e = ⟨label l, []⟩) ∨
    (∃ a, s = align a ∧ e = ⟨align a, List.replicate (a.address.toNat - address) 0⟩) ∨
    (∃ d, s = data d ∧ e = ⟨data d, d.bytes⟩) := by
  cases s with
  | instruction i =>
    obtain ⟨j, hj, h⟩ := bind_eq_ok.mp h
    cases hb : j.encode with
    | error c =>
      rw [hb] at h
      cases h
    | ok bytes =>
      rw [hb] at h
      cases h
      exact .inl ⟨i, j, rfl, hj, hb, rfl⟩
  | label l => cases h; exact .inr (.inl ⟨l, rfl, rfl⟩)
  | align a => cases h; exact .inr (.inr (.inl ⟨a, rfl, rfl⟩))
  | data d => cases h; exact .inr (.inr (.inr ⟨d, rfl, rfl⟩))

theorem emit_instruction {labels : SymbolTable} {address : Nat} {i j : Instruction}
    {bytes : List UInt8} (hj : i.resolveAt labels address = .ok j) (hbytes : j.encode = .ok bytes) :
    (instruction i).emit labels address = .ok ⟨instruction j, bytes⟩ := by
  simp only [emit, hj, bind, Except.bind, hbytes]
  rfl

theorem pending_of_emit {labels : SymbolTable} {address : Nat} {s : Statement} {e : Emitted}
    (h : s.emit labels address = .ok e) :
    e.statement.pending = s.pending ∧ e.statement.defines = s.defines := by
  obtain ⟨i, j, rfl, hj, _, he⟩ | ⟨l, rfl, rfl⟩ | ⟨a, rfl, rfl⟩ | ⟨d, rfl, rfl⟩ := emit_cases h
  · rw [he]
    exact ⟨congrArg instruction (Instruction.pending_of_resolveAt hj).1, rfl⟩
  · exact ⟨rfl, rfl⟩
  · exact ⟨rfl, rfl⟩
  · exact ⟨rfl, rfl⟩

/-- The bytes that are emitted fill the place that was kept for them. -/
theorem emit_length {labels : SymbolTable} {address : Nat} {s : Statement} {e : Emitted}
    (hs : s.Sound) (hf : s.fault? address = none) (h : s.emit labels address = .ok e) :
    address + e.bytes.length = s.stopAt address := by
  obtain ⟨i, j, rfl, hj, hb, _⟩ | ⟨l, rfl, rfl⟩ | ⟨a, rfl, rfl⟩ | ⟨d, rfl, rfl⟩ := emit_cases h
  · have hsound := (hs i rfl).of_resolveAt hj
    obtain ⟨bytes, hbytes, hsize⟩ := hsound.encode_of_ready (Instruction.isReady_of_encode hb)
    rw [hb] at hbytes
    cases hbytes
    rw [(Instruction.pending_of_resolveAt hj).2] at hsize
    simp only [stopAt, hsize, Option.getD_some]
  · rfl
  · have hle : address ≤ a.address.toNat := (stopAt_of_fault hf).1
    simp only [stopAt, List.length_replicate]
    omega
  · rfl

end Statement

/-! ### Emission of a block -/

/-- What placed statements emit, each under the labels of its own level. -/
inductive Emits : SymbolTable → Outline Scope (Placed Statement) → Outline Scope (Placed Emitted) →
    Prop where
  | nil {labels} : Emits labels .nil .nil
  | item {labels p e rest out} : p.content.emit labels p.address = .ok e → Emits labels rest out →
      Emits labels (.item p rest) (.item ⟨p.address, e⟩ out)
  | group {labels scope inner rest out out'} : Emits scope.labels inner out →
      Emits labels rest out' → Emits labels (.group scope inner rest) (.group scope out out')

theorem emit_eq_ok {labels : SymbolTable} {o : Outline Scope (Placed Statement)}
    {out : Outline Scope (Placed Emitted)} : Layout.emit labels o = .ok out ↔ Emits labels o out := by
  constructor
  · intro h
    induction o generalizing labels out with
    | nil =>
      cases h
      exact .nil
    | item p rest ih =>
      rw [Layout.emit] at h
      obtain ⟨e, he, h⟩ := bind_eq_ok.mp h
      obtain ⟨rest', hr, h⟩ := bind_eq_ok.mp h
      cases h
      exact .item he (ih hr)
    | group scope inner rest ihi ihr =>
      rw [Layout.emit] at h
      obtain ⟨inner', hi, h⟩ := bind_eq_ok.mp h
      obtain ⟨rest', hr, h⟩ := bind_eq_ok.mp h
      cases h
      exact .group (ihi hi) (ihr hr)
  · intro h
    induction h with
    | nil => rfl
    | item he _ ih => rw [Layout.emit, he, ih]; rfl
    | group _ _ ihi ihr => rw [Layout.emit, ihi, ihr]; rfl

/-- A program that was linked from a block, beginning at an address. -/
structure Block.LinksTo (b : Block) (address : Nat) (p : Program) : Prop where
  fits : address ≤ memorySize ∨ b = .nil
  faultless : firstFault address b.leaves = none
  scope : p.scope = ⟨address, b.stopAt address, b.labelsAt address⟩
  warnings : p.warnings = b.redefinitions address .empty
  emits : Emits (b.labelsAt address) (b.placed address) p.body

theorem Block.LinksTo.origin {b : Block} {address : Nat} {p : Program} (h : b.LinksTo address p) :
    p.origin = address := congrArg Scope.origin h.scope

theorem Block.LinksTo.stop {b : Block} {address : Nat} {p : Program} (h : b.LinksTo address p) :
    p.stop = b.stopAt address := congrArg Scope.stop h.scope

theorem linkFrom_eq_ok {b : Block} {address : Nat} {p : Program} :
    b.linkFrom address = .ok p ↔ b.LinksTo address p := by
  constructor
  · intro h
    obtain ⟨l, hl, h⟩ := bind_eq_ok.mp h
    obtain ⟨body, hbody, h⟩ := bind_eq_ok.mp h
    obtain ⟨hfits, hf, rfl⟩ := Layout.place_eq_ok.mp hl
    cases h
    exact ⟨hfits, hf, rfl, rfl, emit_eq_ok.mp hbody⟩
  · intro h
    have hplace : Layout.place address .empty b = .ok (b.laidOut address .empty) :=
      Layout.place_eq_ok.mpr ⟨h.fits, h.faultless, rfl⟩
    have hemit : Layout.emit (b.laidOut address .empty).labels (b.laidOut address .empty).body =
        .ok p.body := emit_eq_ok.mpr h.emits
    unfold Block.linkFrom
    rw [hplace]
    show (Layout.emit (b.laidOut address .empty).labels (b.laidOut address .empty).body >>= _) = _
    rw [hemit]
    obtain ⟨scope, body, warnings⟩ := p
    cases h.scope
    cases h.warnings
    rfl

/-! ### The form of a linked program -/

/-- An emitted statement at its address, without its bytes. -/
def Placed.statement (p : Placed Emitted) : Placed Statement := ⟨p.address, p.content.statement⟩

/-- The block of a program: its statements as they were before labels were resolved. -/
def Program.unlinked (p : Program) : Block :=
  p.body.map (fun _ => ()) fun e => e.content.statement.pending

/-- The program's own block and all blocks inside it. -/
def Program.blocks (p : Program) : List (Scope × Outline Scope (Placed Emitted)) :=
  (p.scope, p.body) :: p.body.groups

namespace Emits

/-- Emitting changes neither the form nor, resolution apart, the statements. -/
theorem map_pending {b : Block} {address : Nat} {labels : SymbolTable}
    {out : Outline Scope (Placed Emitted)} (h : Emits labels (b.placed address) out) :
    out.map (fun _ => ()) (fun e => e.content.statement.pending) = b.map id Statement.pending := by
  induction b generalizing address labels out with
  | nil =>
    cases h
    rfl
  | item s rest ih =>
    cases h with
    | item he hr =>
      simp only [Outline.map, ih hr]
      rw [(Statement.pending_of_emit he).1]
  | group _ inner rest ihi ihr =>
    cases h with
    | group hi hr => simp only [Outline.map, ihi hi, ihr hr, id]

/-- Emitting changes no label. -/
theorem defineAll_items {labels : SymbolTable} {o : Outline Scope (Placed Statement)}
    {out : Outline Scope (Placed Emitted)} (h : Emits labels o out) (t : SymbolTable) :
    t.defineAll (out.items.map Placed.statement) = t.defineAll o.items := by
  induction h generalizing t with
  | nil => rfl
  | @item labels p e rest out he _ ih =>
    have hd : e.statement.defineAt p.address t = p.content.defineAt p.address t := by
      unfold Statement.defineAt
      rw [(Statement.pending_of_emit he).2]
    show (e.statement.defineAt p.address t).2.defineAll _ = _
    rw [hd, ih]
    rfl
  | group _ _ _ ih => exact ih t

/-- Every emitted statement is one of the block's, emitted under the labels of its own level. -/
theorem sites {b : Block} {address : Nat} {own : List (Placed Emitted)}
    {out : Outline Scope (Placed Emitted)}
    (h : Emits (labelsOf (own.map Placed.statement)) (b.placed address) out) :
    ∀ site ∈ out.sitesIn own, ∃ s ∈ b.leaves,
      s.emit (labelsOf (site.1.map Placed.statement)) site.2.address = .ok site.2.content := by
  induction b generalizing address own out with
  | nil =>
    cases h
    intro site hsite
    cases hsite
  | item s rest ih =>
    cases h with
    | item he hr =>
      intro site hsite
      rcases List.mem_cons.mp hsite with rfl | hsite
      · exact ⟨s, List.mem_cons_self .., he⟩
      · obtain ⟨s', hs', he'⟩ := ih hr site hsite
        exact ⟨s', List.mem_cons_of_mem _ hs', he'⟩
  | group _ inner rest ihi ihr =>
    cases h with
    | @group _ _ _ _ out out' hi hr =>
      intro site hsite
      rcases List.mem_append.mp hsite with hsite | hsite
      · -- below, `own` is what the nested block emitted, which defines the labels of its scope
        have hlabels : labelsOf (out.items.map Placed.statement) =
            labelsOf (Block.placed address inner).items := hi.defineAll_items .empty
        have hi' : Emits (labelsOf (out.items.map Placed.statement)) (Block.placed address inner) out := by
          rw [hlabels]
          exact hi
        obtain ⟨s, hs, he⟩ := ihi hi' site hsite
        exact ⟨s, List.mem_append_left _ hs, he⟩
      · obtain ⟨s, hs, he⟩ := ihr hr site hsite
        exact ⟨s, List.mem_append_right _ hs, he⟩

end Emits

namespace Block.LinksTo

theorem unlinked {b : Block} {address : Nat} {p : Program} (h : b.LinksTo address p) :
    p.unlinked = b.map id Statement.pending := h.emits.map_pending

/-- The labels of a program are those of the statements on its outermost level. -/
theorem labelsAt_eq {b : Block} {address : Nat} {p : Program} (h : b.LinksTo address p) :
    b.labelsAt address = labelsOf (p.body.items.map Placed.statement) :=
  (h.emits.defineAll_items .empty).symm

theorem sites {b : Block} {address : Nat} {p : Program} (h : b.LinksTo address p) :
    ∀ site ∈ p.body.sites, ∃ s ∈ b.leaves,
      s.emit (labelsOf (site.1.map Placed.statement)) site.2.address = .ok site.2.content := by
  have hemits : Emits (labelsOf (p.body.items.map Placed.statement)) (b.placed address) p.body := by
    rw [← h.labelsAt_eq]
    exact h.emits
  exact hemits.sites

end Block.LinksTo

/-! ### The address that is linked from -/

/-- The address that linking begins at when `origin` is asked for. -/
def Block.startFor (b : Block) (origin : Nat) : Nat :=
  match b.leadingAlign? with
  | some a => a.address.toNat
  | none => origin

theorem Block.startFor_lt {b : Block} {origin : Nat} (h : origin < memorySize) :
    b.startFor origin < memorySize := by
  unfold Block.startFor
  split
  · exact UInt16.toNat_lt _
  · exact h

theorem link_of_origin {b : Block} {origin : Int} (h : 0 ≤ origin ∧ origin ≤ 0xffff) :
    b.link origin = b.linkFrom (b.startFor origin.toNat) := by
  have hword : Word.ofInt? origin = some (UInt16.ofNat origin.toNat) := if_pos h
  unfold Block.link Block.startFor
  rw [hword]
  show b.linkFrom _ = _
  cases b.leadingAlign? with
  | some a => rfl
  | none =>
    have hn : origin.toNat < 2 ^ 16 := by omega
    show b.linkFrom (UInt16.ofNat origin.toNat).toNat = _
    rw [UInt16.toNat_ofNat_of_lt' hn]

theorem link_of_no_origin {b : Block} {origin : Int} (h : ¬ (0 ≤ origin ∧ origin ≤ 0xffff)) :
    b.link origin = .error (.invalidOrigin origin) := by
  have hword : Word.ofInt? origin = none := if_neg h
  unfold Block.link
  rw [hword]

/-- A block that links was linked from an address. -/
theorem linksTo_of_link {b : Block} {origin : Int} {p : Program} (h : b.link origin = .ok p) :
    (0 ≤ origin ∧ origin ≤ 0xffff) ∧ b.startFor origin.toNat < memorySize ∧
      b.LinksTo (b.startFor origin.toNat) p := by
  by_cases ho : 0 ≤ origin ∧ origin ≤ 0xffff
  · rw [link_of_origin ho] at h
    have hlt : origin.toNat < memorySize := by unfold memorySize; omega
    exact ⟨ho, Block.startFor_lt hlt, linkFrom_eq_ok.mp h⟩
  · rw [link_of_no_origin ho] at h
    cases h

end Asm6502

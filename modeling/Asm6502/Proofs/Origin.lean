import Mathlib.Data.List.Forall2
import Asm6502.Proofs.Outcome

/-! What decides the origin of a program.

An alignment that is the first statement of a block overrides the origin that was asked for, in
whatever depth of nested blocks it lies. The search for it goes from first node to first node, so a
nested block without any statement ends it: behind such a block the alignment is a gap like any
other, or a step back, although it is the first statement (`hollow_start_hides_align`). With that
exception `link_origin` says that the first statement decides: a leading alignment is the origin,
has no gap before it and cannot be misaligned, and without one the origin is the one asked for. -/
namespace Asm6502

/-! ### The first statement -/

namespace Block

/-- Does a nested block without any statement stand before the first statement? -/
def hollowStart : Block → Bool
  | .group _ inner _ => inner.leaves.isEmpty || hollowStart inner
  | _ => false

/-- The alignment that overrides the origin is the first statement, unless a hollow block hides it. -/
theorem leadingAlign?_eq_some_iff {b : Block} {a : Align} :
    b.leadingAlign? = some a ↔ b.leaves.head? = some (.align a) ∧ b.hollowStart = false := by
  induction b with
  | nil => simp [leadingAlign?, Outline.leaves]
  | item s rest _ => cases s <;> simp [leadingAlign?, Outline.leaves, hollowStart]
  | group _ inner rest ihi _ =>
    rw [leadingAlign?, ihi, hollowStart, Outline.leaves]
    cases inner.leaves with
    | nil => simp
    | cons s leaves => simp

theorem startFor_of_leadingAlign {b : Block} {a : Align} (h : b.leadingAlign? = some a) (origin : Nat) :
    b.startFor origin = a.address.toNat := by
  rw [startFor, h]

theorem startFor_of_no_align {b : Block} (h : b.leadingAlign? = none) (origin : Nat) :
    b.startFor origin = origin := by
  rw [startFor, h]

end Block

/-! ### Steps back -/

/-- An alignment is misaligned where the statements before it end behind its target. -/
theorem misaligned_of_firstFault {start address : Nat} {target : UInt16} {ss : List Statement}
    (h : firstFault start ss = some (.misaligned address target)) :
    ∃ before a after, ss = before ++ .align a :: after ∧ a.address = target ∧
      runningAddress start before = address ∧ target.toNat < address := by
  induction ss generalizing start with
  | nil => cases h
  | cons s ss ih =>
    rw [firstFault_cons] at h
    rcases Option.or_eq_some_iff.mp h with hfault | ⟨_, hbehind⟩
    · obtain ⟨i, _, _, hf⟩ | ⟨a, rfl, hback, hf⟩ | ⟨_, hf⟩ := s.fault?_cases start
      · cases hf.symm.trans hfault
      · cases hf.symm.trans hfault
        exact ⟨[], a, ss, rfl, rfl, rfl, hback⟩
      · rw [hf, Statement.overflow?] at hfault
        split at hfault <;> cases hfault
    · obtain ⟨before, a, after, rfl, htarget, haddress, hback⟩ := ih hbehind
      exact ⟨s :: before, a, after, rfl, htarget, haddress, hback⟩

theorem misaligned_of_link {b : Block} (hb : b.Reachable) {origin : Int} {address : Nat}
    {target : UInt16} (h : b.link origin = .error (.misaligned address target)) :
    firstFault (b.startFor origin.toNat) b.leaves = some (.misaligned address target) := by
  by_cases ho : 0 ≤ origin ∧ origin ≤ 0xffff
  · have hfailure := failure_link hb ho
    rw [h] at hfailure
    rcases Option.or_eq_some_iff.mp hfailure.symm with hf | ⟨_, hr⟩
    · exact hf
    · cases stage_of_firstReferenceFault hr
  · cases (link_of_no_origin ho).symm.trans h

/-! ### Leaves -/

/-- What is emitted stands, leaf by leaf, where the statements were placed. -/
theorem Emits.leaves {labels : SymbolTable} {o : Outline Scope (Placed Statement)}
    {out : Outline Scope (Placed Emitted)} (h : Emits labels o out) :
    List.Forall₂ (fun p e => e.address = p.address ∧
      ∃ own : SymbolTable, p.content.emit own p.address = .ok e.content) o.leaves out.leaves := by
  induction h with
  | nil => exact .nil
  | item he _ ih => exact .cons ⟨rfl, _, he⟩ ih
  | group _ _ ihi ihr => exact List.rel_append ihi ihr

/-- An alignment to the address that linking begins at is emitted there, without any bytes. -/
theorem Block.LinksTo.head_of_align {b : Block} {a : Align} {p : Program}
    (h : b.LinksTo a.address.toNat p) (hhead : b.leaves.head? = some (.align a)) :
    p.body.leaves.head? = some ⟨a.address.toNat, ⟨.align a, []⟩⟩ := by
  obtain ⟨rest, hrest⟩ := List.head?_eq_some_iff.mp hhead
  have hleaves := h.emits.leaves
  rw [Block.leaves_placed, hrest, walk] at hleaves
  cases hout : p.body.leaves with
  | nil =>
    rw [hout] at hleaves
    cases hleaves
  | cons e out =>
    rw [hout] at hleaves
    obtain ⟨⟨haddress, own, hemit⟩, _⟩ := List.forall₂_cons.mp hleaves
    have hcontent : e.content = ⟨.align a, []⟩ := by
      rw [← Except.ok.inj hemit, Nat.sub_self]
      rfl
    obtain ⟨address, content⟩ := e
    cases haddress
    cases hcontent
    rfl

/-! ### The origin -/

/-- What linking comes to if the first statement is an alignment that decides the origin. -/
structure Block.StartsAt (b : Block) (origin : Int) (a : Align) : Prop where
  /-- An alignment that would step back is a later statement, and the statements before it, counted
  from the first alignment on, have gone too far. -/
  misaligned : ∀ address target, b.link origin = .error (.misaligned address target) →
    ∃ before x after, b.leaves = before ++ .align x :: after ∧ before ≠ [] ∧ x.address = target ∧
      runningAddress a.address.toNat before = address ∧ target.toNat < address
  /-- The alignment stands at its own target, so there is no gap before it. -/
  padding : ∀ p, b.link origin = .ok p →
    p.body.leaves.head? = some ⟨a.address.toNat, ⟨.align a, []⟩⟩
  origin : ∀ p, b.link origin = .ok p → p.origin = a.address.toNat

theorem Block.startsAt {b : Block} (hb : b.Reachable) {origin : Int} {a : Align}
    (hlead : b.leadingAlign? = some a) : b.StartsAt origin a := by
  have hstart := Block.startFor_of_leadingAlign hlead origin.toNat
  have hhead := (Block.leadingAlign?_eq_some_iff.mp hlead).1
  constructor
  case misaligned =>
    intro address target h
    have hfault := misaligned_of_link hb h
    rw [hstart] at hfault
    obtain ⟨before, x, after, hleaves, htarget, haddress, hback⟩ := misaligned_of_firstFault hfault
    refine ⟨before, x, after, hleaves, ?_, htarget, haddress, hback⟩
    -- the walk begins at the target of the first alignment, which is therefore not behind it
    rintro rfl
    rw [hleaves] at hhead
    cases hhead
    cases htarget
    exact absurd hback (by rw [← haddress]; exact Nat.lt_irrefl _)
  case padding =>
    intro p hp
    obtain ⟨_, _, hl⟩ := linksTo_of_link hp
    rw [hstart] at hl
    exact hl.head_of_align hhead
  case origin =>
    intro p hp
    obtain ⟨_, _, hl⟩ := linksTo_of_link hp
    rw [hl.origin, hstart]

/-- **The first statement decides the origin**, unless a nested block without any statement stands
before it. -/
theorem link_origin {b : Block} (hb : b.Reachable) (origin : Int) :
    (∀ a, b.leaves.head? = some (.align a) → b.hollowStart = false → b.StartsAt origin a) ∧
    ((∀ a, b.leaves.head? = some (.align a) → b.hollowStart = true) →
      ∀ p, b.link origin = .ok p → p.origin = origin) := by
  constructor
  · intro a hhead hhollow
    exact Block.startsAt hb (Block.leadingAlign?_eq_some_iff.mpr ⟨hhead, hhollow⟩)
  · intro hother p hp
    have hlead : b.leadingAlign? = none := by
      cases hlead : b.leadingAlign? with
      | none => rfl
      | some a =>
        obtain ⟨hhead, hhollow⟩ := Block.leadingAlign?_eq_some_iff.mp hlead
        cases (hother a hhead).symm.trans hhollow
    obtain ⟨ho, _, hl⟩ := linksTo_of_link hp
    rw [hl.origin, Block.startFor_of_no_align hlead]
    omega

namespace Block

/-- A return behind what is given. -/
def returnBehind (lead : Block) : Block :=
  lead ++ single (.instruction ⟨.rts, .none, none, .settled .implied none⟩)

theorem returnBehind_reachable (lead : Block) (h : ∀ i, Statement.instruction i ∉ lead.leaves) :
    (returnBehind lead).Reachable := by
  have hrts : Instruction.infer .rts .none none =
      .ok ⟨.rts, .none, none, .settled .implied none⟩ := rfl
  intro i hi
  rw [returnBehind, Outline.leaves_append, List.mem_append] at hi
  rcases hi with hi | hi
  · exact absurd hi (h i)
  · cases List.mem_singleton.mp hi
    exact .fresh (.inferred hrts)

end Block

/-- An alignment in a nested block takes the origin back from where it was asked for. -/
theorem nested_align_origin : ∃ p,
    (Block.returnBehind (.group () (Block.single (.align ⟨0x0801⟩)) .nil)).link 0x1000 = .ok p ∧
    p.body.leaves.head? = some ⟨0x0801, ⟨.align ⟨0x0801⟩, []⟩⟩ ∧ p.origin = 0x0801 := by
  have hb := Block.returnBehind_reachable (.group () (Block.single (.align ⟨0x0801⟩)) .nil)
    (by simp [Block.single, Outline.leaves])
  obtain ⟨p, hp⟩ : ∃ p, (Block.returnBehind
    (.group () (Block.single (.align ⟨0x0801⟩)) .nil)).link 0x1000 = .ok p := ⟨_, rfl⟩
  have hstarts := (link_origin hb 0x1000).1 ⟨0x0801⟩ rfl rfl
  exact ⟨p, hp, hstarts.padding p hp, hstarts.origin p hp⟩

/-- **A hollow block hides an alignment**: the first statement is an alignment, and yet it is padded
for where the origin lies before it and misaligned where the origin lies behind it. -/
theorem hollow_start_hides_align :
    (Block.returnBehind (.group () .nil (Block.single (.align ⟨0x1002⟩)))).leaves.head? =
      some (.align ⟨0x1002⟩) ∧
    (∃ p, (Block.returnBehind (.group () .nil (Block.single (.align ⟨0x1002⟩)))).link 0x1000 = .ok p ∧
      p.origin = 0x1000 ∧ p.code = [0, 0, 0x60]) ∧
    (Block.returnBehind (.group () .nil (Block.single (.align ⟨0x1002⟩)))).link 0x2000 =
      .error (.misaligned 0x2000 0x1002) :=
  ⟨rfl, ⟨_, rfl, rfl, rfl⟩, rfl⟩

end Asm6502

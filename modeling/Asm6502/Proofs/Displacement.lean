import Mathlib.Data.List.Forall2
import Asm6502.Proofs.Construction
import Asm6502.Proofs.Placement

/-! The layout of one block at two places.

Without alignments, nothing that the first pass computes depends on where a block stands, except for
the distance. Two addresses that lie so far apart are `Shifted`, and symbols, tables of labels, scopes
and warnings are `Moved` if their addresses are and nothing else differs. One statement keeps these
relations (`Statement.Movable.stopAt`, `Statement.defineAt_moved`), and so does a whole block: its
labels and its warnings move with it (`Block.labelsAt_moved`, `Block.redefinitions_moved`), and it can
be laid out wherever it ends in the memory (`firstFault_of_fits`). -/
namespace Asm6502

/-! ### Distances -/

/-- An address and the one at a distance from it. -/
def Shifted (d : Int) (a a' : Nat) : Prop := (a' : Int) = a + d

structure Symbol.Moved (d : Int) (s s' : Symbol) : Prop where
  name : s'.name = s.name
  address : Shifted d s.address s'.address

/-- The same names in the same order, and the addresses at a distance. -/
def SymbolTable.Moved (d : Int) (t u : SymbolTable) : Prop :=
  List.Forall₂ (Symbol.Moved d) t.symbols u.symbols

structure Scope.Moved (d : Int) (s s' : Scope) : Prop where
  origin : Shifted d s.origin s'.origin
  stop : Shifted d s.stop s'.stop
  labels : s.labels.Moved d s'.labels

structure Redefinition.Moved (d : Int) (r r' : Redefinition) : Prop where
  name : r'.name = r.name
  previous : Shifted d r.previous r'.previous
  address : Shifted d r.address r'.address

/-! ### Labels at a distance -/

section Labels
variable {d : Int} {a a' : Nat} {t u : SymbolTable}

theorem SymbolTable.Moved.empty : SymbolTable.empty.Moved d .empty := .nil

theorem SymbolTable.Moved.address? (h : t.Moved d u) {name : String} {x : Nat}
    (hx : t.address? name = some x) : ∃ y, u.address? name = some y ∧ Shifted d x y := by
  obtain ⟨ss⟩ := t
  obtain ⟨ss'⟩ := u
  change List.Forall₂ (Symbol.Moved d) ss ss' at h
  unfold SymbolTable.address? SymbolTable.find? at hx ⊢
  induction h with
  | nil => cases hx
  | @cons s s' rest rest' hs _ ih =>
    by_cases hname : s.name = name
    · have hname' : s'.name = name := hs.name.trans hname
      simp only [List.find?_cons, hname, hname', decide_true, Option.map_some] at hx ⊢
      cases hx
      exact ⟨_, rfl, hs.address⟩
    · have hname' : s'.name ≠ name := fun h => hname (hs.name.symm.trans h)
      simp only [List.find?_cons, hname, hname', decide_false] at hx ⊢
      exact ih hx

theorem SymbolTable.Moved.target (h : t.Moved d u) (ha : Shifted d a a') {name : String} {x : Nat}
    (hx : t.target a name = .ok x) : ∃ y, u.target a' name = .ok y ∧ Shifted d x y := by
  unfold SymbolTable.target at hx ⊢
  by_cases hself : name = Argument.selfReference
  · rw [if_pos hself] at hx ⊢
    cases hx
    exact ⟨a', rfl, ha⟩
  · rw [if_neg hself] at hx ⊢
    cases hfound : t.address? name with
    | none =>
      rw [hfound] at hx
      cases hx
    | some found =>
      rw [hfound] at hx
      cases hx
      obtain ⟨y, hy, hmoved⟩ := h.address? hfound
      rw [hy]
      exact ⟨y, rfl, hmoved⟩

theorem SymbolTable.Moved.define (h : t.Moved d u) (ha : Shifted d a a') (name : String) :
    Option.Rel (Shifted d) (t.define name a).1 (u.define name a').1 ∧
      (t.define name a).2.Moved d (u.define name a').2 := by
  obtain ⟨ss⟩ := t
  obtain ⟨ss'⟩ := u
  change List.Forall₂ (Symbol.Moved d) ss ss' at h
  show Option.Rel (Shifted d) (defineIn name a ss).1 (defineIn name a' ss').1 ∧
    List.Forall₂ (Symbol.Moved d) (defineIn name a ss).2 (defineIn name a' ss').2
  induction h with
  | nil => exact ⟨.none, .cons ⟨rfl, ha⟩ .nil⟩
  | @cons s s' rest rest' hs hrest ih =>
    unfold defineIn
    by_cases hname : s.name = name
    · rw [if_pos hname, if_pos (hs.name.trans hname)]
      exact ⟨.some hs.address, .cons ⟨rfl, ha⟩ hrest⟩
    · rw [if_neg hname, if_neg fun h => hname (hs.name.symm.trans h)]
      exact ⟨ih.1, .cons hs ih.2⟩

/-- A statement defines the same label at a distance, or warns of the same redefinition. -/
theorem Statement.defineAt_moved (h : t.Moved d u) (ha : Shifted d a a') (s : Statement) :
    List.Forall₂ (Redefinition.Moved d) (s.defineAt a t).1 (s.defineAt a' u).1 ∧
      (s.defineAt a t).2.Moved d (s.defineAt a' u).2 := by
  unfold Statement.defineAt
  cases s.defines with
  | none => exact ⟨.nil, h⟩
  | some name =>
    obtain ⟨hprevious, hlabels⟩ := h.define ha name
    cases ht : t.define name a with
    | mk previous labels =>
      cases hu : u.define name a' with
      | mk previous' labels' =>
        rw [ht, hu] at hprevious hlabels
        simp only [ht, hu]
        cases hprevious with
        | none => exact ⟨.nil, hlabels⟩
        | some hprevious => exact ⟨.cons ⟨rfl, hprevious, ha⟩ .nil, hlabels⟩

end Labels

/-! ### Statements at a distance -/

/-- A statement that is placed alike everywhere: no alignment, and an instruction only as it was
built. -/
inductive Statement.Movable : Statement → Prop where
  | instruction {i} : i.Unresolved → Movable (.instruction i)
  | label {l} : Movable (.label l)
  | data {x} : Movable (.data x)

theorem Block.Fresh.movable {b : Block} (hb : b.Fresh) (ha : ∀ a, Statement.align a ∉ b.leaves) :
    ∀ s ∈ b.leaves, s.Movable := by
  intro s hs
  cases s with
  | instruction i => exact .instruction (hb i hs).unresolved
  | label l => exact .label
  | align a => exact absurd hs (ha a)
  | data x => exact .data

namespace Statement.Movable
variable {d : Int} {a a' : Nat} {s : Statement}

theorem stopAt (h : s.Movable) (ha : Shifted d a a') : Shifted d (s.stopAt a) (s.stopAt a') := by
  unfold Shifted at ha ⊢
  cases h <;> simp only [Statement.stopAt] <;> omega

theorem le_stopAt (h : s.Movable) (a : Nat) : a ≤ s.stopAt a := by
  cases h <;> simp [Statement.stopAt]

/-- Where a statement can stand somewhere, it can stand wherever it ends in the memory. -/
theorem fault? (h : s.Movable) (hf : s.fault? a = none) (hfits : s.stopAt a' ≤ memorySize) :
    s.fault? a' = none := by
  have hover : s.overflow? a' = none := if_neg (Nat.not_lt.mpr hfits)
  cases h with
  | instruction _ =>
    simp only [Statement.fault?] at hf ⊢
    split at hf
    · cases hf
    · rw [if_neg ‹_›]
      exact hover
  | label => exact hover
  | data => exact hover

end Statement.Movable

section Walk
variable {d : Int} {a a' : Nat} {ss : List Statement}

theorem runningAddress_moved (hs : ∀ s ∈ ss, s.Movable) (ha : Shifted d a a') :
    Shifted d (runningAddress a ss) (runningAddress a' ss) := by
  induction ss generalizing a a' with
  | nil => exact ha
  | cons s ss ih =>
    obtain ⟨hfirst, hrest⟩ := List.forall_mem_cons.mp hs
    exact ih hrest (hfirst.stopAt ha)

theorem le_runningAddress (hs : ∀ s ∈ ss, s.Movable) (a : Nat) : a ≤ runningAddress a ss := by
  induction ss generalizing a with
  | nil => exact Nat.le_refl a
  | cons s ss ih =>
    obtain ⟨hfirst, hrest⟩ := List.forall_mem_cons.mp hs
    exact Nat.le_trans (hfirst.le_stopAt a) (ih hrest _)

/-- A walk that is without fault somewhere is without fault wherever it ends in the memory. -/
theorem firstFault_of_fits (hs : ∀ s ∈ ss, s.Movable) (h : firstFault a ss = none)
    (hfits : runningAddress a' ss ≤ memorySize) : firstFault a' ss = none := by
  induction ss generalizing a a' with
  | nil => rfl
  | cons s ss ih =>
    obtain ⟨hfirst, hrest⟩ := List.forall_mem_cons.mp hs
    rw [firstFault_cons, Option.or_eq_none_iff] at h ⊢
    have hstop : s.stopAt a' ≤ memorySize := Nat.le_trans (le_runningAddress hrest _) hfits
    exact ⟨hfirst.fault? h.1 hstop, ih hrest h.2 hfits⟩

end Walk

/-! ### Blocks at a distance -/

namespace Block
variable {d : Int} {a a' : Nat} {b : Block}

theorem stopAt_moved (hb : ∀ s ∈ b.leaves, s.Movable) (ha : Shifted d a a') :
    Shifted d (b.stopAt a) (b.stopAt a') := runningAddress_moved hb ha

theorem defineAll_moved (hb : ∀ s ∈ b.leaves, s.Movable) (ha : Shifted d a a') {t u : SymbolTable}
    (h : t.Moved d u) :
    (t.defineAll (b.placed a).items).Moved d (u.defineAll (b.placed a').items) := by
  induction b generalizing a a' t u with
  | nil => exact h
  | item s rest ih =>
    obtain ⟨hs, hrest⟩ := List.forall_mem_cons.mp hb
    exact ih hrest (hs.stopAt ha) (s.defineAt_moved h ha).2
  | group _ inner rest _ ihr =>
    obtain ⟨hinner, hrest⟩ := List.forall_mem_append.mp hb
    exact ihr hrest (stopAt_moved hinner ha) h

/-- The labels of a block move with it. -/
theorem labelsAt_moved (hb : ∀ s ∈ b.leaves, s.Movable) (ha : Shifted d a a') :
    (b.labelsAt a).Moved d (b.labelsAt a') := defineAll_moved hb ha .empty

/-- The warnings of a block move with it. -/
theorem redefinitions_moved (hb : ∀ s ∈ b.leaves, s.Movable) (ha : Shifted d a a') {t u : SymbolTable}
    (h : t.Moved d u) :
    List.Forall₂ (Redefinition.Moved d) (b.redefinitions a t) (b.redefinitions a' u) := by
  induction b generalizing a a' t u with
  | nil => exact .nil
  | item s rest ih =>
    obtain ⟨hs, hrest⟩ := List.forall_mem_cons.mp hb
    obtain ⟨hwarnings, hlabels⟩ := s.defineAt_moved h ha
    exact List.rel_append hwarnings (ih hrest (hs.stopAt ha) hlabels)
  | group _ inner rest ihi ihr =>
    obtain ⟨hinner, hrest⟩ := List.forall_mem_append.mp hb
    exact List.rel_append (ihi hinner ha .empty) (ihr hrest (stopAt_moved hinner ha) h)

theorem scope_moved (hb : ∀ s ∈ b.leaves, s.Movable) (ha : Shifted d a a') :
    Scope.Moved d ⟨a, b.stopAt a, b.labelsAt a⟩ ⟨a', b.stopAt a', b.labelsAt a'⟩ :=
  ⟨ha, stopAt_moved hb ha, labelsAt_moved hb ha⟩

end Block

end Asm6502

import Asm6502.Program
import Asm6502.Proofs.Outline

/-! The first pass: where statements are placed and what their labels are.

Nesting plays no part in the addresses. One walk over the leaves decides whether a block can be
laid out, with which error if not, and where every statement stands: `place_eq` says that laying
out a block either fails with the first fault of that walk (`firstFault`) or gives the addresses of
the walk (`Block.placed`), the labels on each level, and the redefinitions. The labels of a level
are known by lookup: the last definition counts (`address?_labelsOf`). -/
namespace Asm6502

/-! ### Definitions of labels -/

namespace SymbolTable

theorem find?_defineIn (name other : String) (a : Nat) (ss : List Symbol) :
    ((defineIn name a ss).2.find? fun s => s.name = other).map Symbol.address =
      if other = name then some a else (ss.find? fun s => s.name = other).map Symbol.address := by
  induction ss with
  | nil =>
    by_cases h : other = name
    · simp [defineIn, h]
    · simp [defineIn, h, Ne.symm h]
  | cons s rest ih =>
    unfold defineIn
    by_cases hs : s.name = name
    · rw [if_pos hs]
      by_cases h : other = name
      · simp [h]
      · simp [h, hs, Ne.symm h]
    · rw [if_neg hs]
      by_cases h : s.name = other
      · have hne : other ≠ name := fun he => hs (h.trans he)
        simp [h, hne]
      · simpa [List.find?_cons, h] using ih

/-- A definition gives its name the address and touches no other name. -/
theorem address?_define (t : SymbolTable) (name other : String) (a : Nat) :
    (t.define name a).2.address? other = if other = name then some a else t.address? other :=
  find?_defineIn name other a t.symbols

@[simp] theorem address?_empty (name : String) : empty.address? name = none := rfl

end SymbolTable

theorem Statement.address?_defineAt (a : Nat) (t : SymbolTable) (s : Statement) (name : String) :
    (s.defineAt a t).2.address? name = if s.defines = some name then some a else t.address? name := by
  cases s with
  | label l =>
    have h : (Statement.defineAt a t (.label l)).2 = (t.define l.name a).2 := by
      simp only [Statement.defineAt, Statement.defines]
      cases t.define l.name a with
      | mk previous labels => cases previous <;> rfl
    rw [h, SymbolTable.address?_define]
    simp only [Statement.defines, Option.some.injEq, eq_comm]
  | _ => rfl

/-- The address of the last of some statements that define a name. -/
def lastDefinition? (name : String) (ps : List (Placed Statement)) : Option Nat :=
  (ps.reverse.find? fun p => p.content.defines = some name).map Placed.address

/-- The labels after some statements, in addition to those before them. -/
def SymbolTable.defineAll (t : SymbolTable) (ps : List (Placed Statement)) : SymbolTable :=
  ps.foldl (fun t p => (p.content.defineAt p.address t).2) t

/-- The labels of a level that holds these statements. -/
def labelsOf (ps : List (Placed Statement)) : SymbolTable := SymbolTable.empty.defineAll ps

theorem lastDefinition?_cons (name : String) (p : Placed Statement) (ps : List (Placed Statement)) :
    lastDefinition? name (p :: ps) = (lastDefinition? name ps).or
      (if p.content.defines = some name then some p.address else none) := by
  unfold lastDefinition?
  rw [List.reverse_cons, List.find?_append, Option.map_or]
  congr 1
  by_cases h : p.content.defines = some name <;> simp [h]

theorem address?_defineAll (t : SymbolTable) (ps : List (Placed Statement)) (name : String) :
    (t.defineAll ps).address? name = (lastDefinition? name ps).or (t.address? name) := by
  induction ps generalizing t with
  | nil => rfl
  | cons p ps ih =>
    show ((p.content.defineAt p.address t).2.defineAll ps).address? name = _
    rw [ih, Statement.address?_defineAt, lastDefinition?_cons, Option.or_assoc]
    congr 1
    split <;> simp

/-- **The last definition counts.** -/
theorem address?_labelsOf (ps : List (Placed Statement)) (name : String) :
    (labelsOf ps).address? name = lastDefinition? name ps := by
  rw [labelsOf, address?_defineAll, SymbolTable.address?_empty, Option.or_none]

/-! ### Statements at an address -/

namespace Statement

/-- The address after a statement. -/
def stopAt (address : Nat) : Statement → Nat
  | instruction i => address + i.size?.getD 0
  | label _ => address
  | align a => a.address.toNat
  | data d => address + d.bytes.length

/-- Does the statement end beyond the memory? -/
def overflow? (address : Nat) (s : Statement) : Option LinkError :=
  if memorySize < s.stopAt address then some (.programOverflow (s.stopAt address)) else none

/-- What keeps a statement from standing at an address: an instruction has no mode, an alignment
would go back, or the memory ends. -/
def fault? (address : Nat) (s : Statement) : Option LinkError :=
  match s with
  | instruction i =>
    if i.mode? = none then some (.incompleteInstruction i.source) else s.overflow? address
  | align a =>
    if a.address.toNat < address then some (.misaligned address a.address) else s.overflow? address
  | label _ | data _ => s.overflow? address

theorem checkStop_stopAt (address : Nat) (s : Statement) :
    Layout.checkStop (s.stopAt address) = match s.overflow? address with
      | some e => .error e
      | none => .ok (s.stopAt address) := by
  unfold Layout.checkStop overflow?
  by_cases h : s.stopAt address ≤ memorySize
  · rw [if_pos h, if_neg (by omega)]
  · rw [if_neg h, if_pos (by omega)]

theorem sizeAt_checkStop (address : Nat) (s : Statement) :
    (s.sizeAt address >>= fun size => Layout.checkStop (address + size)) = match s.fault? address with
      | some e => .error e
      | none => .ok (s.stopAt address) := by
  cases s with
  | instruction i =>
    cases hm : i.mode? with
    | none => simp [sizeAt, fault?, Instruction.size?, hm, bind, Except.bind]
    | some mode =>
      have h := checkStop_stopAt address (.instruction i)
      simpa [sizeAt, fault?, stopAt, Instruction.size?, hm, bind, Except.bind] using h
  | align a =>
    by_cases ha : a.address.toNat < address
    · simp [sizeAt, fault?, ha, bind, Except.bind]
    · have h := checkStop_stopAt address (.align a)
      have hstop : address + (a.address.toNat - address) = a.address.toNat := by omega
      simpa [sizeAt, fault?, stopAt, ha, hstop, bind, Except.bind] using h
  | label l => exact checkStop_stopAt address (.label l)
  | data d => exact checkStop_stopAt address (.data d)

/-- The faults of a statement: its own, or that the memory ends. -/
theorem fault?_cases (address : Nat) (s : Statement) :
    (∃ i, s = instruction i ∧ i.mode? = none ∧
      s.fault? address = some (.incompleteInstruction i.source)) ∨
    (∃ a, s = align a ∧ a.address.toNat < address ∧
      s.fault? address = some (.misaligned address a.address)) ∨
    (address ≤ s.stopAt address ∧ s.fault? address = s.overflow? address) := by
  cases s with
  | instruction i =>
    by_cases hm : i.mode? = none
    · exact .inl ⟨i, rfl, hm, if_pos hm⟩
    · exact .inr (.inr ⟨Nat.le_add_right _ _, if_neg hm⟩)
  | align a =>
    by_cases ha : a.address.toNat < address
    · exact .inr (.inl ⟨a, rfl, ha, if_pos ha⟩)
    · exact .inr (.inr ⟨Nat.le_of_not_lt ha, if_neg ha⟩)
  | label l => exact .inr (.inr ⟨Nat.le_refl _, rfl⟩)
  | data d => exact .inr (.inr ⟨Nat.le_add_right _ _, rfl⟩)

/-- A statement without fault does not go back and ends in the memory. -/
theorem stopAt_of_fault {address : Nat} {s : Statement} (h : s.fault? address = none) :
    address ≤ s.stopAt address ∧ s.stopAt address ≤ memorySize := by
  obtain ⟨_, _, _, hf⟩ | ⟨_, _, _, hf⟩ | ⟨hle, hf⟩ := fault?_cases address s
  · cases hf.symm.trans h
  · cases hf.symm.trans h
  · refine ⟨hle, Nat.le_of_not_lt fun hlt => ?_⟩
    rw [hf, overflow?, if_pos hlt] at h
    cases h

/-- An alignment to the address it stands at has no fault. -/
theorem fault?_align (a : Align) : (align a).fault? a.address.toNat = none := by
  have hfits : ¬ memorySize < a.address.toNat := Nat.not_lt.mpr (Nat.le_of_lt a.address.toNat_lt)
  simp [fault?, overflow?, stopAt, hfits]

end Statement

/-! ### The walk over the leaves -/

/-- Statements one behind another from an address on. -/
def walk (address : Nat) : List Statement → List (Placed Statement)
  | [] => []
  | s :: rest => ⟨address, s⟩ :: walk (s.stopAt address) rest

/-- The address after statements one behind another. -/
def runningAddress (address : Nat) (ss : List Statement) : Nat :=
  ss.foldl (fun a s => s.stopAt a) address

theorem walk_append (address : Nat) (ss ts : List Statement) :
    walk address (ss ++ ts) = walk address ss ++ walk (runningAddress address ss) ts := by
  induction ss generalizing address with
  | nil => rfl
  | cons s ss ih => simp only [List.cons_append, walk, ih]; rfl

theorem runningAddress_append (address : Nat) (ss ts : List Statement) :
    runningAddress address (ss ++ ts) = runningAddress (runningAddress address ss) ts :=
  List.foldl_append

/-- What is wrong with the first statement of a walk that cannot stand where the walk comes by. -/
def firstFault (address : Nat) (ss : List Statement) : Option LinkError :=
  (walk address ss).findSome? fun p => p.content.fault? p.address

theorem firstFault_cons (address : Nat) (s : Statement) (ss : List Statement) :
    firstFault address (s :: ss) = (s.fault? address).or (firstFault (s.stopAt address) ss) := by
  show List.findSome? _ (_ :: walk (s.stopAt address) ss) = _
  rw [List.findSome?_cons]
  cases s.fault? address <;> rfl

theorem firstFault_append (address : Nat) (ss ts : List Statement) :
    firstFault address (ss ++ ts) =
      (firstFault address ss).or (firstFault (runningAddress address ss) ts) := by
  unfold firstFault
  rw [walk_append, List.findSome?_append]

/-- A walk without fault stays in the memory. -/
theorem runningAddress_le {address : Nat} {ss : List Statement} (ha : address ≤ memorySize)
    (h : firstFault address ss = none) : runningAddress address ss ≤ memorySize := by
  induction ss generalizing address with
  | nil => exact ha
  | cons s ss ih =>
    rw [firstFault_cons, Option.or_eq_none_iff] at h
    exact ih (Statement.stopAt_of_fault h.1).2 h.2

/-! ### Blocks at an address -/

namespace Block

/-- The address after a block. -/
def stopAt (address : Nat) (b : Block) : Nat := runningAddress address b.leaves

theorem stopAt_group (address : Nat) (inner rest : Block) :
    stopAt address (.group () inner rest) = rest.stopAt (inner.stopAt address) :=
  runningAddress_append address inner.leaves rest.leaves

/-- The statements of a block at their addresses, and the labels of the blocks inside it. -/
def placed (address : Nat) : Block → Outline Scope (Placed Statement)
  | .nil => .nil
  | .item s rest => .item ⟨address, s⟩ (placed (s.stopAt address) rest)
  | .group _ inner rest =>
    .group ⟨address, stopAt address inner, labelsOf (placed address inner).items⟩
      (placed address inner) (placed (stopAt address inner) rest)

/-- The labels of a block. -/
def labelsAt (address : Nat) (b : Block) : SymbolTable := labelsOf (b.placed address).items

/-- The labels that are defined again, in order, after those that defined `labels`. -/
def redefinitions (address : Nat) (labels : SymbolTable) : Block → List Redefinition
  | .nil => []
  | .item s rest =>
    (s.defineAt address labels).1 ++
      redefinitions (s.stopAt address) (s.defineAt address labels).2 rest
  | .group _ inner rest =>
    redefinitions address .empty inner ++ redefinitions (stopAt address inner) labels rest

/-- The layout of a block without fault. -/
def laidOut (address : Nat) (labels : SymbolTable) (b : Block) : Layout where
  stop := b.stopAt address
  labels := labels.defineAll (b.placed address).items
  body := b.placed address
  warnings := b.redefinitions address labels

/-- The statements of a block stand where the walk over its leaves puts them. -/
theorem leaves_placed (address : Nat) (b : Block) :
    (b.placed address).leaves = walk address b.leaves := by
  induction b generalizing address with
  | nil => rfl
  | item s rest ih => simp only [placed, Outline.leaves, walk, ih]
  | group _ inner rest ihi ihr =>
    simp only [placed, Outline.leaves, walk_append, ihi, ihr, stopAt]

end Block

namespace Layout

theorem place_item (address : Nat) (labels : SymbolTable) (s : Statement) (rest : Block) :
    place address labels (.item s rest) = match s.fault? address with
      | some e => .error e
      | none => (place (s.stopAt address) (s.defineAt address labels).2 rest).map fun after =>
          { after with
            body := .item ⟨address, s⟩ after.body
            warnings := (s.defineAt address labels).1 ++ after.warnings } := by
  rw [place, ← bind_assoc, Statement.sizeAt_checkStop]
  cases s.fault? address with
  | some e => rfl
  | none =>
    show (place (s.stopAt address) (s.defineAt address labels).2 rest >>= _) = _
    cases place (s.stopAt address) (s.defineAt address labels).2 rest <;> rfl

/-- **Laying out a block** fails with the first fault of the walk over its leaves, and otherwise
gives the layout of that walk. -/
theorem place_eq {address : Nat} (ha : address ≤ memorySize) (labels : SymbolTable) (b : Block) :
    place address labels b = match firstFault address b.leaves with
      | some e => .error e
      | none => .ok (b.laidOut address labels) := by
  induction b generalizing address labels with
  | nil => rfl
  | item s rest ih =>
    rw [place_item, Outline.leaves, firstFault_cons]
    cases hf : s.fault? address with
    | some e => rfl
    | none =>
      show (place (s.stopAt address) (s.defineAt address labels).2 rest).map _ = _
      rw [ih (Statement.stopAt_of_fault hf).2, Option.none_or]
      cases firstFault (s.stopAt address) rest.leaves <;> rfl
  | group _ inner rest ihi ihr =>
    rw [Outline.leaves, firstFault_append, place, ihi ha]
    cases hi : firstFault address inner.leaves with
    | some e => rfl
    | none =>
      -- the check behind a nested block finds nothing that its leaves have not shown
      have hstop : runningAddress address inner.leaves ≤ memorySize := runningAddress_le ha hi
      have hcheck : checkStop (Block.laidOut address .empty inner).stop =
          .ok (runningAddress address inner.leaves) := if_pos hstop
      show (checkStop (Block.laidOut address .empty inner).stop >>= _) = _
      rw [hcheck, Option.none_or]
      show (place (runningAddress address inner.leaves) labels rest >>= _) = _
      rw [ihr hstop]
      cases firstFault (runningAddress address inner.leaves) rest.leaves with
      | some e => rfl
      | none =>
        show Except.ok _ = Except.ok _
        simp only [Block.laidOut, Block.stopAt, Block.placed, Block.redefinitions, Outline.leaves,
          Outline.items, runningAddress_append, labelsOf]

/-- Beyond the memory nothing can be laid out, not even an empty block inside another. -/
theorem eq_nil_of_place {address : Nat} (ha : memorySize < address) {labels : SymbolTable} {b : Block}
    {l : Layout} (h : place address labels b = .ok l) : b = .nil := by
  induction b generalizing address labels l with
  | nil => rfl
  | item s rest ih =>
    rw [place_item] at h
    cases hf : s.fault? address with
    | some e =>
      rw [hf] at h
      cases h
    | none =>
      have hstop := Statement.stopAt_of_fault hf
      omega
  | group _ inner rest ihi ihr =>
    rw [place] at h
    cases hi : place address .empty inner with
    | error e =>
      rw [hi] at h
      cases h
    | ok nested =>
      rw [hi] at h
      cases ihi ha hi
      cases hi
      have hcheck : checkStop address = .error (.programOverflow address) := if_neg (by omega)
      change (checkStop address >>= _) = _ at h
      rw [hcheck] at h
      cases h

/-- A layout that succeeds is that of the walk, wherever it starts. -/
theorem place_eq_ok {address : Nat} {labels : SymbolTable} {b : Block} {l : Layout} :
    place address labels b = .ok l ↔ (address ≤ memorySize ∨ b = .nil) ∧
      firstFault address b.leaves = none ∧ l = b.laidOut address labels := by
  by_cases ha : address ≤ memorySize
  · rw [place_eq ha]
    cases firstFault address b.leaves <;> simp [ha, eq_comm]
  · constructor
    · intro h
      have hb := eq_nil_of_place (by omega) h
      subst hb
      cases h
      exact ⟨.inr rfl, rfl, rfl⟩
    · rintro ⟨hb, _, rfl⟩
      cases hb.resolve_left ha
      rfl

end Layout

end Asm6502

/-! Outlines: sequences whose entries are items or, under a heading, sequences of the same kind.

Programs before and after linking are outlines, so that their lengths, their leaves and their
concatenation are defined and proved once. -/
namespace Asm6502

inductive Outline (η α : Type) where
  | nil
  | item (a : α) (rest : Outline η α)
  | group (heading : η) (inner rest : Outline η α)
deriving DecidableEq

namespace Outline
variable {η α : Type}

def append : Outline η α → Outline η α → Outline η α
  | nil, other => other
  | item a rest, other => item a (rest.append other)
  | group h inner rest, other => group h inner (rest.append other)

instance : Append (Outline η α) := ⟨append⟩

/-- The number of entries; a group counts as one. -/
def length : Outline η α → Nat
  | nil => 0
  | item _ rest => rest.length + 1
  | group _ _ rest => rest.length + 1

/-- The items at all depths, in order. -/
def leaves : Outline η α → List α
  | nil => []
  | item a rest => a :: rest.leaves
  | group _ inner rest => inner.leaves ++ rest.leaves

/-- The items that lie in no group. -/
def items : Outline η α → List α
  | nil => []
  | item a rest => a :: rest.items
  | group _ _ rest => rest.items

/-- The entries one by one, each as an outline of its own. -/
def entries : Outline η α → List (α ⊕ Outline η α)
  | nil => []
  | item a rest => .inl a :: rest.entries
  | group _ inner rest => .inr inner :: rest.entries

/-! ### Laws of concatenation -/

@[simp] theorem nil_append (o : Outline η α) : nil ++ o = o := rfl

@[simp] theorem item_append (a : α) (o p : Outline η α) : item a o ++ p = item a (o ++ p) := rfl

@[simp] theorem group_append (h : η) (i o p : Outline η α) :
    group h i o ++ p = group h i (o ++ p) := rfl

@[simp] theorem append_nil (o : Outline η α) : o ++ nil = o := by
  induction o with
  | nil => rfl
  | item a rest ih => rw [item_append, ih]
  | group h inner rest _ ih => rw [group_append, ih]

theorem append_assoc (o p q : Outline η α) : o ++ p ++ q = o ++ (p ++ q) := by
  induction o with
  | nil => rfl
  | item a rest ih => simp only [item_append, ih]
  | group h inner rest _ ih => simp only [group_append, ih]

@[simp] theorem length_append (o p : Outline η α) : (o ++ p).length = o.length + p.length := by
  induction o with
  | nil => simp [length]
  | item a rest ih => simp only [item_append, length, ih]; omega
  | group h inner rest _ ih => simp only [group_append, length, ih]; omega

@[simp] theorem leaves_append (o p : Outline η α) : (o ++ p).leaves = o.leaves ++ p.leaves := by
  induction o with
  | nil => rfl
  | item a rest ih => simp only [item_append, leaves, ih, List.cons_append]
  | group h inner rest _ ih => simp only [group_append, leaves, ih, List.append_assoc]

@[simp] theorem items_append (o p : Outline η α) : (o ++ p).items = o.items ++ p.items := by
  induction o with
  | nil => rfl
  | item a rest ih => simp only [item_append, items, ih, List.cons_append]
  | group h inner rest _ ih => simp only [group_append, items, ih]

end Outline

end Asm6502

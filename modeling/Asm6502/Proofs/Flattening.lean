import Asm6502.Proofs.Emission

/-! Blocks without their nesting.

Nested blocks are there for their labels. Where no name is defined on two levels they can be
spliced in place: `linkFrom_flatten` says that the block without nesting links whenever the nested
one does, to the same statements with the same bytes at the same addresses, and that its one table
of labels holds every label of every nested block. The converse fails, since a reference may then
find a label that lay on another level. -/
namespace Asm6502

/-! ### More labels -/

/-- Every label of one table has the same address in another. -/
def SymbolTable.Within (t u : SymbolTable) : Prop :=
  ∀ name address, t.address? name = some address → u.address? name = some address

section Within
variable {t u : SymbolTable} {address : Nat}

theorem SymbolTable.Within.target {name : String} {target : Nat} (hw : t.Within u)
    (h : t.target address name = .ok target) : u.target address name = .ok target := by
  unfold SymbolTable.target at h ⊢
  split at h
  · rwa [if_pos ‹_›]
  · rw [if_neg ‹_›]
    split at h
    · rename_i found hfound
      rw [hw name found hfound]
      exact h
    · cases h

theorem Instruction.resolveAt_of_within {i j : Instruction} (hw : t.Within u)
    (h : i.resolveAt t address = .ok j) : i.resolveAt u address = .ok j := by
  unfold resolveAt at h ⊢
  cases hl : i.label? with
  | none =>
    rw [hl] at h
    exact h
  | some name =>
    rw [hl] at h
    by_cases hr : i.isReady = true
    · simp only [hr, if_true] at h ⊢
      exact h
    · simp only [hr] at h ⊢
      obtain ⟨target, ht, h⟩ := bind_eq_ok.mp h
      exact bind_eq_ok.mpr ⟨target, hw.target ht, h⟩

/-- A reference that was resolved is resolved alike when there are more labels. -/
theorem Statement.emit_of_within {s : Statement} {e : Emitted} (hw : t.Within u)
    (h : s.emit t address = .ok e) : s.emit u address = .ok e := by
  cases s with
  | instruction i =>
    obtain ⟨j, hj, h⟩ := bind_eq_ok.mp h
    exact bind_eq_ok.mpr ⟨j, Instruction.resolveAt_of_within hw hj, h⟩
  | _ => exact h

end Within

namespace Emits

theorem append {t : SymbolTable} {o o' : Outline Scope (Placed Statement)}
    {out out' : Outline Scope (Placed Emitted)} (h : Emits t o out) (h' : Emits t o' out') :
    Emits t (o ++ o') (out ++ out') := by
  induction h with
  | nil => exact h'
  | item he _ ih => exact .item he (ih h')
  | group hi _ _ ih => exact .group hi (ih h')

/-- Under labels that include those of every level, nesting makes no difference. -/
theorem flatten {t u : SymbolTable} {o : Outline Scope (Placed Statement)}
    {out : Outline Scope (Placed Emitted)} (h : Emits t o out) (ht : t.Within u)
    (hg : ∀ g ∈ o.groups, g.1.labels.Within u) : Emits u o.flatten out.flatten := by
  induction h with
  | nil => exact .nil
  | item he _ ih => exact .item (Statement.emit_of_within ht he) (ih ht hg)
  | group _ _ ihi ihr =>
    obtain ⟨hscope, hg⟩ := List.forall_mem_cons.mp hg
    obtain ⟨hinner, hrest⟩ := List.forall_mem_append.mp hg
    exact (ihi hscope hinner).append (ihr ht hrest)

/-- Emitting changes no scope. -/
theorem scopes {t : SymbolTable} {o : Outline Scope (Placed Statement)}
    {out : Outline Scope (Placed Emitted)} (h : Emits t o out) :
    out.groups.map Prod.fst = o.groups.map Prod.fst := by
  induction h with
  | nil => rfl
  | item _ _ ih => exact ih
  | group _ _ ihi ihr => simp only [Outline.groups, List.map_cons, List.map_append, ihi, ihr]

end Emits

/-! ### Labels of all levels -/

/-- No name is defined on two levels. It may be defined again on its own. -/
def Block.DistinctLabels (b : Block) : Prop :=
  (b.levels.map fun level => level.filterMap Statement.defines).Pairwise
    fun x y => ∀ name ∈ x, name ∉ y

theorem lastDefinition?_eq_filter (name : String) (ps : List (Placed Statement)) :
    lastDefinition? name ps =
      (ps.filter fun p => p.content.defines = some name).getLast?.map Placed.address := by
  rw [List.getLast?_filter]
  rfl

theorem filter_defines_eq_nil {name : String} {ps : List (Placed Statement)} :
    (ps.filter fun p => p.content.defines = some name) = [] ↔
      name ∉ (ps.map Placed.content).filterMap Statement.defines := by
  simp [List.filter_eq_nil_iff]

namespace Block

theorem items_placed (address : Nat) (b : Block) :
    (b.placed address).items.map Placed.content = b.items := by
  induction b generalizing address with
  | nil => rfl
  | item s rest ih => simp only [placed, Outline.items, List.map_cons, ih]
  | group _ inner rest _ ihr => exact ihr _

/-- Placing the statements of a block leaves them on their levels. -/
theorem levels_placed (address : Nat) (b : Block) :
    (b.placed address).levels.map (List.map Placed.content) = b.levels := by
  have hgroups : (b.placed address).groups.map (fun g => g.2.items.map Placed.content) =
      b.groups.map fun g => g.2.items := by
    induction b generalizing address with
    | nil => rfl
    | item s rest ih => exact ih _
    | group _ inner rest ihi ihr =>
      simp only [placed, Outline.groups, List.map_cons, List.map_append, items_placed, ihi, ihr]
  simp only [Outline.levels, List.map_cons, List.map_map, items_placed]
  exact congrArg _ hgroups

/-- The scope of a placed group holds the labels of that group. -/
theorem scope_placed {address : Nat} {b : Block} :
    ∀ g ∈ (b.placed address).groups, g.1.labels = labelsOf g.2.items := by
  induction b generalizing address with
  | nil => nofun
  | item s rest ih => exact ih
  | group _ inner rest ihi ihr =>
    exact List.forall_mem_cons.mpr ⟨rfl, List.forall_mem_append.mpr ⟨ihi, ihr⟩⟩

/-- The statements of all levels together define what each level defines. -/
theorem DistinctLabels.within {b : Block} (hd : b.DistinctLabels) (address : Nat)
    {level : List (Placed Statement)} (hl : level ∈ (b.placed address).levels) :
    (labelsOf level).Within (labelsOf (b.placed address).leaves) := by
  intro name found h
  rw [address?_labelsOf, lastDefinition?_eq_filter] at h ⊢
  have hapart : (b.placed address).levels.Pairwise
      (Outline.Apart fun p => p.content.defines = some name) := by
    rw [DistinctLabels, ← levels_placed address, List.pairwise_map, List.pairwise_map] at hd
    refine hd.imp fun {x y} hxy => ?_
    by_cases hx : name ∈ (x.map Placed.content).filterMap Statement.defines
    · exact .inr (filter_defines_eq_nil.mpr (hxy name hx))
    · exact .inl (filter_defines_eq_nil.mpr hx)
  have hne : (level.filter fun p => p.content.defines = some name) ≠ [] := by
    intro hnil
    rw [hnil] at h
    cases h
  rw [Outline.filter_leaves hapart hl hne]
  exact h

/-! ### Layout without nesting -/

theorem stopAt_flatten (address : Nat) (b : Block) : stopAt address b.flatten = b.stopAt address := by
  rw [stopAt, Outline.leaves_flatten, stopAt]

theorem placed_append (address : Nat) (b c : Block) :
    placed address (b ++ c) = b.placed address ++ placed (b.stopAt address) c := by
  induction b generalizing address with
  | nil => rfl
  | item s rest ih => exact congrArg (Outline.item _) (ih _)
  | group _ inner rest _ ih =>
    rw [stopAt_group]
    exact congrArg (Outline.group _ _) (ih _)

/-- The addresses are the same without nesting. -/
theorem placed_flatten (address : Nat) (b : Block) :
    placed address b.flatten = (b.placed address).flatten := by
  induction b generalizing address with
  | nil => rfl
  | item s rest ih => exact congrArg (Outline.item _) (ih _)
  | group _ inner rest ihi ihr =>
    simp only [placed, Outline.flatten, placed_append, stopAt_flatten, ihi, ihr]

end Block

/-! ### Linking without nesting -/

/-- What is kept of a program when its blocks are spliced in place. -/
structure Program.FlattensTo (p q : Program) : Prop where
  origin : q.origin = p.origin
  stop : q.stop = p.stop
  code : q.code = p.code
  /-- Every statement is where it was, resolved as it was, with the bytes it had. -/
  leaves : q.body.leaves = p.body.leaves
  /-- The labels of all blocks are now labels of the program. -/
  labels : ∀ block ∈ p.blocks, block.1.labels.Within q.labels

/-- **Nesting is transparent.** A block in which no name is defined on two levels links without its
nesting from wherever it links with it, and to the same code. -/
theorem linkFrom_flatten {b : Block} (hd : b.DistinctLabels) {address : Nat} {p : Program}
    (h : b.linkFrom address = .ok p) :
    ∃ q, Block.linkFrom b.flatten address = .ok q ∧ p.FlattensTo q := by
  have hl := linkFrom_eq_ok.mp h
  have hlabels : Block.labelsAt address b.flatten = labelsOf (b.placed address).leaves := by
    rw [Block.labelsAt, Block.placed_flatten, Outline.items_flatten]
  have htop : (b.labelsAt address).Within (labelsOf (b.placed address).leaves) :=
    hd.within address (List.mem_cons_self ..)
  have hgroups : ∀ g ∈ (b.placed address).groups,
      g.1.labels.Within (labelsOf (b.placed address).leaves) := by
    intro g hg
    rw [Block.scope_placed g hg]
    exact hd.within address (List.mem_cons_of_mem _ (List.mem_map_of_mem hg))
  refine ⟨⟨⟨address, Block.stopAt address b.flatten, Block.labelsAt address b.flatten⟩,
    p.body.flatten, Block.redefinitions address .empty b.flatten⟩, linkFrom_eq_ok.mpr ?_, ?_⟩
  · constructor
    case fits => exact hl.fits.imp id fun hb => by rw [hb]; rfl
    case faultless =>
      rw [Outline.leaves_flatten]
      exact hl.faultless
    case scope => rfl
    case warnings => rfl
    case emits =>
      rw [hlabels, Block.placed_flatten]
      exact hl.emits.flatten htop hgroups
  · constructor
    case origin => exact (congrArg Scope.origin hl.scope).symm
    case stop => exact (Block.stopAt_flatten address b).trans (congrArg Scope.stop hl.scope).symm
    case code => exact congrArg (List.flatMap _) (Outline.leaves_flatten p.body)
    case leaves => exact Outline.leaves_flatten p.body
    case labels =>
      rw [Program.labels, hlabels]
      refine List.forall_mem_cons.mpr ⟨by rw [hl.scope]; exact htop, fun g hg => ?_⟩
      -- the scopes of the program are those of the layout
      have hscope : g.1 ∈ (b.placed address).groups.map Prod.fst := by
        rw [← hl.emits.scopes]
        exact List.mem_map_of_mem hg
      obtain ⟨g', hg', he⟩ := List.mem_map.mp hscope
      rw [← he]
      exact hgroups g' hg'

theorem countdown_flatten : Block.countdown.DistinctLabels ∧ ∃ p q,
    Block.countdown.linkFrom 0x1000 = .ok p ∧
    Block.linkFrom Block.countdown.flatten 0x1000 = .ok q ∧
    p.code = [0xa2, 0x03, 0xca, 0xd0, 0xfd, 0xa9, 0x10, 0x4c, 0x00, 0x10, 0, 0, 0, 0, 0, 0, 1, 2, 3] ∧
    p.FlattensTo q := by
  have hd : Block.countdown.DistinctLabels := by
    unfold Block.DistinctLabels
    decide
  obtain ⟨p, hp, hcode⟩ : ∃ p, Block.countdown.linkFrom 0x1000 = .ok p ∧
      p.code = [0xa2, 0x03, 0xca, 0xd0, 0xfd, 0xa9, 0x10, 0x4c, 0x00, 0x10, 0, 0, 0, 0, 0, 0, 1, 2, 3] :=
    ⟨_, rfl, rfl⟩
  obtain ⟨q, hq, hflattens⟩ := linkFrom_flatten hd hp
  exact ⟨hd, p, q, hp, hq, hcode, hflattens⟩

end Asm6502

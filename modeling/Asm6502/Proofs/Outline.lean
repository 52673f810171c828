import Asm6502.Outline

/-! Views of an outline: its groups at all depths, its items together with the level they lie on,
and the outline without its groups.

A label means something on one level only, so statements about labels are statements about
`sites`: an item, and beside it the items that lie directly in the same group, or only those before
it (`preceded`). Without the groups all items lie on one level; `filter_leaves` says that what was
found on one level and on no other is found there as before, in the same order. -/
namespace Asm6502.Outline
variable {η θ α β : Type}

/-- The groups at all depths, each with its heading, a group before those inside it. -/
def groups : Outline η α → List (η × Outline η α)
  | nil => []
  | item _ rest => rest.groups
  | group h inner rest => (h, inner) :: (inner.groups ++ rest.groups)

/-- The items level by level: those that lie in no group, then those of each group. -/
def levels (o : Outline η α) : List (List α) := o.items :: o.groups.map fun g => g.2.items

/-- The items at all depths in order, each beside the items on its level, which are `own` on the
outermost one. -/
def sitesIn (own : List α) : Outline η α → List (List α × α)
  | nil => []
  | item a rest => (own, a) :: rest.sitesIn own
  | group _ inner rest => inner.sitesIn inner.items ++ rest.sitesIn own

@[inherit_doc sitesIn]
def sites (o : Outline η α) : List (List α × α) := o.sitesIn o.items

/-- The items at all depths in order, each beside the items before it on its level. On the outermost
level, `before` come first. -/
def precededIn (before : List α) : Outline η α → List (List α × α)
  | nil => []
  | item a rest => (before, a) :: rest.precededIn (before ++ [a])
  | group _ inner rest => inner.precededIn [] ++ rest.precededIn before

@[inherit_doc precededIn]
def preceded (o : Outline η α) : List (List α × α) := o.precededIn []

/-- The same items in the same order, none of them in a group. -/
def flatten : Outline η α → Outline η α
  | nil => nil
  | item a rest => item a rest.flatten
  | group _ inner rest => inner.flatten ++ rest.flatten

/-- The outline of the same form with other headings and items. -/
def map (f : η → θ) (g : α → β) : Outline η α → Outline θ β
  | nil => nil
  | item a rest => item (g a) (rest.map f g)
  | group h inner rest => group (f h) (inner.map f g) (rest.map f g)

/-! ### Flat outlines -/

@[simp] theorem leaves_flatten (o : Outline η α) : o.flatten.leaves = o.leaves := by
  induction o with
  | nil => rfl
  | item a rest ih => simp only [flatten, leaves, ih]
  | group h inner rest ihi ihr => simp only [flatten, leaves, leaves_append, ihi, ihr]

/-- Without groups, every item lies on the outermost level. -/
@[simp] theorem items_flatten (o : Outline η α) : o.flatten.items = o.leaves := by
  induction o with
  | nil => rfl
  | item a rest ih => simp only [flatten, leaves, items, ih]
  | group h inner rest ihi ihr => simp only [flatten, leaves, items_append, ihi, ihr]

theorem leaves_map (f : η → θ) (g : α → β) (o : Outline η α) : (o.map f g).leaves = o.leaves.map g := by
  induction o with
  | nil => rfl
  | item a rest ih => simp only [map, leaves, ih, List.map_cons]
  | group h inner rest ihi ihr => simp only [map, leaves, ihi, ihr, List.map_append]

theorem items_map (f : η → θ) (g : α → β) (o : Outline η α) : (o.map f g).items = o.items.map g := by
  induction o with
  | nil => rfl
  | item a rest ih => simp only [map, items, ih, List.map_cons]
  | group h inner rest _ ih => simp only [map, items, ih]

/-! ### What lies on one level only -/

section OneLevel
variable {q : α → Bool}

/-- What is in no group lies on the outermost level. -/
theorem filter_leaves_of_groups {o : Outline η α} (h : ∀ g ∈ o.groups, g.2.items.filter q = []) :
    o.leaves.filter q = o.items.filter q := by
  induction o with
  | nil => rfl
  | item a rest ih => simp only [leaves, items, List.filter_cons, ih h]
  | group heading inner rest ihi ihr =>
    have hinner : inner.leaves.filter q = [] := by
      rw [ihi fun g hg => h g (List.mem_cons_of_mem _ (List.mem_append_left _ hg))]
      exact h _ (List.mem_cons_self ..)
    have hrest := ihr fun g hg => h g (List.mem_cons_of_mem _ (List.mem_append_right _ hg))
    rw [leaves, List.filter_append, hinner, hrest]
    rfl

/-- What is in no group and not on the outermost level is nowhere. -/
theorem filter_leaves_eq_nil {o : Outline η α} (h : ∀ level ∈ o.levels, level.filter q = []) :
    o.leaves.filter q = [] := by
  obtain ⟨hitems, hgroups⟩ := List.forall_mem_cons.mp h
  rw [filter_leaves_of_groups fun g hg => hgroups _ (List.mem_map_of_mem hg), hitems]

/-- Of two levels, one has none of what is looked for. -/
def Apart (q : α → Bool) (x y : List α) : Prop := x.filter q = [] ∨ y.filter q = []

theorem levels_group (heading : η) (inner rest : Outline η α) :
    (group heading inner rest).levels.Perm (inner.levels ++ rest.levels) := by
  rw [levels, groups, List.map_cons, List.map_append]
  show (rest.items :: (inner.levels ++ rest.groups.map fun g => g.2.items)).Perm
    (inner.levels ++ rest.items :: rest.groups.map fun g => g.2.items)
  exact List.perm_middle.symm

/-- **What lies on one level only** is found among all leaves as it is found on that level. -/
theorem filter_leaves {o : Outline η α} (h : o.levels.Pairwise (Apart q)) {level : List α}
    (hl : level ∈ o.levels) (hq : level.filter q ≠ []) : o.leaves.filter q = level.filter q := by
  induction o with
  | nil =>
    cases List.mem_singleton.mp hl
    rfl
  | item a rest ih =>
    obtain ⟨htop, hgroups⟩ := List.pairwise_cons.mp h
    rcases List.mem_cons.mp hl with rfl | hl
    · refine filter_leaves_of_groups fun g hg => ?_
      exact (htop _ (List.mem_map_of_mem hg)).resolve_left hq
    · have hnone := (htop _ hl).resolve_right hq
      rw [items, List.filter_eq_nil_iff, List.forall_mem_cons] at hnone
      rw [leaves, List.filter_cons_of_neg hnone.1]
      have hitems : rest.items.filter q = [] := List.filter_eq_nil_iff.mpr hnone.2
      exact ih (List.pairwise_cons.mpr ⟨fun _ _ => .inl hitems, hgroups⟩) (List.mem_cons_of_mem _ hl)
  | group heading inner rest ihi ihr =>
    -- the order of the levels is of no account to `Apart`, so those of `inner` can come first
    have hperm := levels_group heading inner rest
    have hsplit : (inner.levels ++ rest.levels).Pairwise (Apart q) := (hperm.pairwise_iff .symm).mp h
    obtain ⟨hinner, hrest, hcross⟩ := List.pairwise_append.mp hsplit
    rw [leaves, List.filter_append]
    rcases List.mem_append.mp (hperm.mem_iff.mp hl) with hl | hl
    · rw [ihi hinner hl, filter_leaves_eq_nil fun y hy => (hcross _ hl y hy).resolve_left hq,
        List.append_nil]
    · rw [ihr hrest hl, filter_leaves_eq_nil fun x hx => (hcross x hx _ hl).resolve_right hq,
        List.nil_append]

end OneLevel

/-! ### Sites -/

/-- The sites are the leaves in their order. -/
theorem map_snd_sitesIn (own : List α) (o : Outline η α) : (o.sitesIn own).map Prod.snd = o.leaves := by
  induction o generalizing own with
  | nil => rfl
  | item a rest ih => simp only [sitesIn, leaves, List.map_cons, ih]
  | group h inner rest ihi ihr => simp only [sitesIn, leaves, List.map_append, ihi, ihr]

theorem items_subset_leaves (o : Outline η α) : o.items ⊆ o.leaves := by
  induction o with
  | nil => exact List.Subset.refl _
  | item a rest ih => exact List.cons_subset_cons a ih
  | group h inner rest _ ih => exact List.Subset.trans ih (List.subset_append_right _ _)

theorem own_of_sitesIn {outer own : List α} {o : Outline η α} {a : α} (h : (own, a) ∈ o.sitesIn outer) :
    own = outer ∨ own ⊆ o.leaves := by
  induction o generalizing outer with
  | nil => cases h
  | item b rest ih =>
    rcases List.mem_cons.mp h with heq | h
    · exact .inl (congrArg Prod.fst heq)
    · exact (ih h).imp_right (List.subset_cons_of_subset b)
  | group heading inner rest ihi ihr =>
    rcases List.mem_append.mp h with h | h
    · refine .inr (List.Subset.trans ?_ (List.subset_append_left _ _))
      rcases ihi h with rfl | hsub
      · exact items_subset_leaves inner
      · exact hsub
    · exact (ihr h).imp_right fun hsub => List.Subset.trans hsub (List.subset_append_right _ _)

/-- Beside an item lie other items of the outline. -/
theorem subset_leaves_of_sites {o : Outline η α} {own : List α} {a : α} (h : (own, a) ∈ o.sites) :
    own ⊆ o.leaves := by
  rcases own_of_sitesIn h with rfl | hsub
  · exact items_subset_leaves o
  · exact hsub

theorem mem_leaves_of_sites {o : Outline η α} {own : List α} {a : α} (h : (own, a) ∈ o.sites) :
    a ∈ o.leaves := by
  rw [← map_snd_sitesIn o.items o]
  exact List.mem_map_of_mem h

/-! ### Items before others -/

theorem precededIn_map (f : η → θ) (g : α → β) (before : List α) (o : Outline η α) :
    (o.map f g).precededIn (before.map g) =
      (o.precededIn before).map fun site => (site.1.map g, g site.2) := by
  induction o generalizing before with
  | nil => rfl
  | item a rest ih =>
    have hrest := ih (before ++ [a])
    rw [List.map_append] at hrest
    exact congrArg (List.cons _) hrest
  | group h inner rest ihi ihr =>
    rw [map, precededIn, precededIn, List.map_append, ← ihi [], ← ihr before]
    rfl

/-- What stands before an item is the beginning of its level. -/
theorem mem_precededIn {own before : List α} {a : α} {o : Outline η α} :
    (before, a) ∈ o.precededIn own ↔
      (∃ between after, before = own ++ between ∧ o.items = between ++ a :: after) ∨
        ∃ g ∈ o.groups, ∃ after, g.2.items = before ++ a :: after := by
  induction o generalizing own with
  | nil => simp [precededIn, items, groups]
  | item b rest ih =>
    rw [precededIn, List.mem_cons, ih, items, groups, ← or_assoc]
    refine or_congr_left ⟨?_, ?_⟩
    · rintro (heq | ⟨between, after, rfl, hitems⟩)
      · cases heq
        exact ⟨[], rest.items, (List.append_nil _).symm, rfl⟩
      · exact ⟨b :: between, after, List.append_assoc .., congrArg (List.cons b) hitems⟩
    · rintro ⟨between, after, rfl, hitems⟩
      cases between with
      | nil =>
        cases hitems
        exact .inl (by rw [List.append_nil])
      | cons c between =>
        obtain ⟨rfl, hitems'⟩ := List.cons.inj hitems
        exact .inr ⟨between, after, (List.append_assoc own [_] between).symm, hitems'⟩
  | group h inner rest ihi ihr =>
    rw [precededIn, List.mem_append, ihi, ihr, items, groups]
    simp only [List.nil_append, List.mem_cons, List.mem_append]
    grind

end Asm6502.Outline

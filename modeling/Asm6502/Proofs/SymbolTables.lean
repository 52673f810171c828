import Asm6502.Proofs.Placement

/-! Symbol tables under definitions.

A definition returns the address that its name had, puts a new name behind all others, and leaves
the names as they are if it is not new (`names_define`). No name is ever listed twice, so each
entry of a table is the one that its name is looked up by (`Distinct.address?_of_mem`), and the
labels of a level are its names in order of first definition (`names_defineAll`), each with the
address of its last definition (`labelsOf_tabulates`). -/
namespace Asm6502

namespace SymbolTable

/-- The names of a table in its order. -/
def names (t : SymbolTable) : List String := t.symbols.map Symbol.name

/-- No name is listed twice. -/
def Distinct (t : SymbolTable) : Prop := t.names.Nodup

theorem distinct_empty : empty.Distinct := List.nodup_nil

theorem length_names (t : SymbolTable) : t.names.length = t.size := List.length_map _

/-! ### One definition -/

theorem fst_defineIn (name : String) (a : Nat) (ss : List Symbol) :
    (defineIn name a ss).1 = (ss.find? fun s => s.name = name).map Symbol.address := by
  induction ss with
  | nil => rfl
  | cons s rest ih =>
    unfold defineIn
    by_cases hs : s.name = name
    · simp [hs]
    · simp [hs, ih]

/-- A definition returns the address that the name had before it. -/
theorem fst_define (t : SymbolTable) (name : String) (a : Nat) :
    (t.define name a).1 = t.address? name :=
  fst_defineIn name a t.symbols

theorem map_name_defineIn (name : String) (a : Nat) (ss : List Symbol) :
    (defineIn name a ss).2.map Symbol.name =
      if name ∈ ss.map Symbol.name then ss.map Symbol.name else ss.map Symbol.name ++ [name] := by
  induction ss with
  | nil => rfl
  | cons s rest ih =>
    unfold defineIn
    by_cases hs : s.name = name
    · simp [hs]
    · have hne : name ≠ s.name := Ne.symm hs
      simp only [if_neg hs, List.map_cons, ih, List.mem_cons, hne, false_or]
      split <;> rfl

/-- A new name goes behind the others; a name that is listed keeps its place. -/
theorem names_define (t : SymbolTable) (name : String) (a : Nat) :
    (t.define name a).2.names = if name ∈ t.names then t.names else t.names ++ [name] :=
  map_name_defineIn name a t.symbols

theorem mem_names_iff (t : SymbolTable) (name : String) :
    name ∈ t.names ↔ (t.address? name).isSome = true := by
  simp [names, address?, find?]

theorem Distinct.define {t : SymbolTable} (h : t.Distinct) (name : String) (a : Nat) :
    (t.define name a).2.Distinct := by
  unfold Distinct at h ⊢
  rw [names_define]
  split
  · exact h
  · rename_i hnew
    have hone : [name].Nodup := List.pairwise_singleton _ name
    refine List.nodup_append.mpr ⟨h, hone, fun x hx y hy => ?_⟩
    cases List.mem_singleton.mp hy
    exact fun heq => hnew (heq ▸ hx)

/-- A table grows by one entry, or the definition returns an address. -/
theorem size_define (t : SymbolTable) (name : String) (a : Nat) :
    (t.define name a).2.size + (t.define name a).1.toList.length = t.size + 1 := by
  rw [← length_names, names_define, fst_define, ← length_names]
  have hmem := t.mem_names_iff name
  cases hfound : t.address? name with
  | none =>
    rw [if_neg (by simp [hmem, hfound]), List.length_append]
    rfl
  | some previous =>
    rw [if_pos (by simp [hmem, hfound])]
    rfl

/-- In a table without a name twice, every entry is found under its name. -/
theorem Distinct.address?_of_mem {t : SymbolTable} (h : t.Distinct) {s : Symbol} (hs : s ∈ t.symbols) :
    t.address? s.name = some s.address := by
  obtain ⟨before, after, hsplit⟩ := List.append_of_mem hs
  have hfirst : ∀ other ∈ before, other.name ≠ s.name := by
    intro other hother heq
    unfold Distinct names at h
    rw [hsplit, List.map_append, List.nodup_append] at h
    exact h.2.2 _ (List.mem_map_of_mem hother) _ (List.mem_map_of_mem (List.mem_cons_self ..)) heq
  have hfind : (before ++ s :: after).find? (fun other => other.name = s.name) = some s :=
    List.find?_eq_some_iff_append.mpr ⟨by simp, before, after, rfl, by simpa using hfirst⟩
  rw [address?, find?, hsplit, hfind]
  rfl

end SymbolTable

/-! ### The labels of a level -/

/-- The names that some statements define, in their order. -/
def definedNames (ps : List (Placed Statement)) : List String :=
  ps.filterMap fun p => p.content.defines

/-- What a statement does to a table, and whether it is a redefinition. -/
theorem Statement.defineAt_eq (a : Nat) (t : SymbolTable) (s : Statement) :
    s.defineAt a t = match s.defines with
      | some name =>
        ((t.address? name).toList.map fun previous => ⟨name, previous, a⟩, (t.define name a).2)
      | none => ([], t) := by
  unfold defineAt
  cases s.defines with
  | none => rfl
  | some name =>
    simp only [← SymbolTable.fst_define t name a]
    obtain ⟨previous, labels⟩ := t.define name a
    cases previous <;> rfl

theorem SymbolTable.Distinct.defineAll {t : SymbolTable} (h : t.Distinct) (ps : List (Placed Statement)) :
    (t.defineAll ps).Distinct := by
  induction ps generalizing t with
  | nil => exact h
  | cons p ps ih =>
    refine ih (t := (p.content.defineAt p.address t).2) ?_
    rw [Statement.defineAt_eq]
    cases p.content.defines with
    | none => exact h
    | some name => exact h.define name p.address

/-- The names behind those that are listed already come in order of their first definition. -/
theorem SymbolTable.names_defineAll {t : SymbolTable} {before : List String}
    (h : t.names = before.eraseDups) (ps : List (Placed Statement)) :
    (t.defineAll ps).names = (before ++ definedNames ps).eraseDups := by
  induction ps generalizing t before with
  | nil => rw [definedNames, List.filterMap_nil, List.append_nil, ← h]; rfl
  | cons p ps ih =>
    show ((p.content.defineAt p.address t).2.defineAll ps).names = _
    rw [Statement.defineAt_eq, definedNames, List.filterMap_cons]
    cases p.content.defines with
    | none => exact ih h
    | some name =>
      have hstep : (t.define name p.address).2.names = (before ++ [name]).eraseDups := by
        rw [names_define, List.eraseDups_append, h]
        by_cases hmem : name ∈ before <;> simp [List.removeAll, List.eraseDups_cons, hmem]
      simpa [definedNames] using ih hstep

/-- A table lists the labels of a level: each name once, where it is first defined, with the address
at which it is last defined. -/
structure SymbolTable.Tabulates (t : SymbolTable) (ps : List (Placed Statement)) : Prop where
  names : t.names = (definedNames ps).eraseDups
  addresses : ∀ s ∈ t.symbols, lastDefinition? s.name ps = some s.address

/-- **The labels of a level are tabulated.** -/
theorem labelsOf_tabulates (ps : List (Placed Statement)) : (labelsOf ps).Tabulates ps := by
  constructor
  case names => exact @SymbolTable.names_defineAll .empty [] rfl ps
  case addresses =>
    intro s hs
    rw [← address?_labelsOf]
    exact (SymbolTable.distinct_empty.defineAll ps).address?_of_mem hs

end Asm6502

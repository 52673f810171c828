import Mathlib.Data.Finset.Card
import Asm6502.Proofs.SymbolTables

/-! Runs of definitions.

A table is searched from its front, and a definition changes the first entry of its name or adds one
behind all others. That the *last* definition of a name is the one found is therefore a fact about
runs: it holds because no name is ever listed twice. `Records` says what a table knows of the
definitions made so far; the empty table knows of none, and a definition is one more to know of
(`Records.define`). `defineEach_faithful` says it for runs of any length from the empty table, together
with what the definitions return and what they leave alone. -/
namespace Asm6502.SymbolTable

/-! ### Places -/

theorem getElem?_defineIn (name : String) (a : Nat) {ss : List Symbol} {i : Nat} {s : Symbol}
    (h : ss[i]? = some s) : ∃ after : Symbol, (defineIn name a ss).2[i]? = some after ∧
      after.name = s.name ∧ (s.name ≠ name → after = s) := by
  induction ss generalizing i with
  | nil => simp at h
  | cons first rest ih =>
    unfold defineIn
    by_cases hfirst : first.name = name
    · rw [if_pos hfirst]
      cases i with
      | zero =>
        have hs : first = s := by simpa using h
        subst hs
        exact ⟨⟨name, a⟩, rfl, hfirst.symm, fun hne => absurd hfirst hne⟩
      | succ i => exact ⟨s, h, rfl, fun _ => rfl⟩
    · rw [if_neg hfirst]
      cases i with
      | zero => exact ⟨s, h, rfl, fun _ => rfl⟩
      | succ i => exact ih h

/-- A definition leaves every entry at its place, and every entry of another name as it is. -/
theorem getElem?_define {t : SymbolTable} (name : String) (a : Nat) {i : Nat} {s : Symbol}
    (h : t.symbols[i]? = some s) : ∃ after : Symbol, (t.define name a).2.symbols[i]? = some after ∧
      after.name = s.name ∧ (s.name ≠ name → after = s) :=
  getElem?_defineIn name a h

/-! ### What a table knows of the definitions so far -/

/-- The address in the last of some definitions of a name. -/
def lastAddress? (ds : List Symbol) (name : String) : Option Nat :=
  (ds.reverse.find? fun d => d.name = name).map Symbol.address

theorem lastAddress?_concat (ds : List Symbol) (d : Symbol) (name : String) :
    lastAddress? (ds ++ [d]) name = if name = d.name then some d.address else lastAddress? ds name := by
  unfold lastAddress?
  rw [List.reverse_append, List.reverse_singleton, List.singleton_append, List.find?_cons]
  by_cases h : name = d.name
  · simp [h]
  · simp [h, Ne.symm h]

theorem lastAddress?_eq_some {ds : List Symbol} {name : String} {a : Nat} :
    lastAddress? ds name = some a ↔
      ∃ before after, ds = before ++ ⟨name, a⟩ :: after ∧ ∀ d ∈ after, d.name ≠ name := by
  simp only [lastAddress?, Option.map_eq_some_iff, List.find?_eq_some_iff_append, decide_eq_true_eq,
    Bool.not_eq_true', decide_eq_false_iff_not]
  constructor
  · rintro ⟨d, ⟨rfl, after, before, hsplit, hafter⟩, rfl⟩
    refine ⟨before.reverse, after.reverse, ?_, fun e he => hafter e (List.mem_reverse.mp he)⟩
    rw [← List.reverse_reverse ds, hsplit]
    simp
  · rintro ⟨before, after, rfl, hafter⟩
    refine ⟨⟨name, a⟩, ⟨rfl, after.reverse, before.reverse, by simp, fun e he => ?_⟩, rfl⟩
    exact hafter e (List.mem_reverse.mp he)

theorem lastAddress?_eq_none {ds : List Symbol} {name : String} :
    lastAddress? ds name = none ↔ ∀ d ∈ ds, d.name ≠ name := by
  simp [lastAddress?]

/-- A table lists the names that were defined, in the order in which each was defined first, and
finds the last definition of each. -/
structure Records (t : SymbolTable) (ds : List Symbol) : Prop where
  listed : ∀ name, name ∈ t.names ↔ name ∈ ds.map Symbol.name
  ordered : t.names.Pairwise fun a b =>
    (ds.map Symbol.name).idxOf a < (ds.map Symbol.name).idxOf b
  last : ∀ name, t.address? name = lastAddress? ds name

theorem records_empty : empty.Records [] where
  listed := by simp [empty, names]
  ordered := List.Pairwise.nil
  last _ := rfl

/-- **One more definition** is recorded. -/
theorem Records.define {t : SymbolTable} {ds : List Symbol} (h : t.Records ds) (d : Symbol) :
    (t.define d.name d.address).2.Records (ds ++ [d]) := by
  constructor
  case listed =>
    intro name
    rw [names_define, List.map_append, List.mem_append, ← h.listed]
    split
    · rename_i hmem
      constructor
      · exact .inl
      · rintro (hname | hname)
        · exact hname
        · rw [List.mem_singleton.mp hname]
          exact hmem
    · rw [List.mem_append]
      rfl
  case ordered =>
    -- a name that was defined before is first defined where it was
    have hold : t.names.Pairwise fun a b =>
        ((ds ++ [d]).map Symbol.name).idxOf a < ((ds ++ [d]).map Symbol.name).idxOf b := by
      refine h.ordered.imp_of_mem fun ha hb hlt => ?_
      rw [h.listed] at ha hb
      rwa [List.map_append, List.idxOf_append_of_mem ha, List.idxOf_append_of_mem hb]
    rw [names_define]
    split
    · exact hold
    · rename_i hnew
      refine List.pairwise_append.mpr ⟨hold, List.pairwise_singleton _ _, fun a ha b hb => ?_⟩
      cases List.mem_singleton.mp hb
      rw [h.listed] at ha hnew
      rw [List.map_append, List.idxOf_append_of_mem ha, List.idxOf_append_of_notMem hnew]
      exact Nat.lt_of_lt_of_le (List.idxOf_lt_length_of_mem ha) (Nat.le_add_right _ _)
  case last =>
    intro name
    rw [address?_define, lastAddress?_concat, h.last]

theorem Records.distinct {t : SymbolTable} {ds : List Symbol} (h : t.Records ds) : t.Distinct := by
  refine List.Pairwise.imp (fun hlt heq => ?_) h.ordered
  rw [heq] at hlt
  exact Nat.lt_irrefl _ hlt

/-- There are as many entries as names. -/
theorem Records.size_eq {t : SymbolTable} {ds : List Symbol} (h : t.Records ds) :
    t.size = (ds.map Symbol.name).toFinset.card := by
  have hnames : t.names.toFinset = (ds.map Symbol.name).toFinset := by
    ext name
    rw [List.mem_toFinset, List.mem_toFinset, h.listed]
  rw [← hnames, List.toFinset_card_of_nodup h.distinct, length_names]

/-! ### Runs -/

/-- Makes definitions one after another, and collects what they return. -/
def defineEach (t : SymbolTable) : List Symbol → List (Option Nat) × SymbolTable
  | [] => ([], t)
  | d :: ds =>
    let (previous, t) := t.define d.name d.address
    let (returned, t) := t.defineEach ds
    (previous :: returned, t)

theorem defineEach_append (t : SymbolTable) (ds es : List Symbol) : t.defineEach (ds ++ es) =
    ((t.defineEach ds).1 ++ ((t.defineEach ds).2.defineEach es).1,
      ((t.defineEach ds).2.defineEach es).2) := by
  induction ds generalizing t with
  | nil => rfl
  | cons d ds ih => simp only [List.cons_append, defineEach, ih]

theorem length_defineEach (t : SymbolTable) (ds : List Symbol) :
    (t.defineEach ds).1.length = ds.length := by
  induction ds generalizing t with
  | nil => rfl
  | cons d ds ih => simp only [defineEach, List.length_cons, ih]

/-- **A run of definitions** is recorded. -/
theorem Records.defineEach {t : SymbolTable} {ds : List Symbol} (h : t.Records ds) (es : List Symbol) :
    (t.defineEach es).2.Records (ds ++ es) := by
  induction es generalizing t ds with
  | nil =>
    rw [List.append_nil]
    exact h
  | cons e es ih =>
    have hrest := ih (h.define e)
    rwa [List.append_assoc, List.singleton_append] at hrest

/-- Each definition of a run returns the address that its name had just before it. -/
theorem getElem?_defineEach (t : SymbolTable) (before : List Symbol) (d : Symbol)
    (after : List Symbol) : (t.defineEach (before ++ d :: after)).1[before.length]? =
      some ((t.defineEach before).2.address? d.name) := by
  rw [defineEach_append, List.getElem?_append_right (by rw [length_defineEach]), length_defineEach,
    Nat.sub_self, ← fst_define _ d.name d.address]
  rfl

/-- What a run of definitions from the empty table has to return and to leave. -/
structure Faithful (ds : List Symbol) (answers : List (Option Nat)) (t : SymbolTable) : Prop where
  /-- No name is listed twice. -/
  distinct : t.names.Nodup
  /-- The names are those that were defined, in the order of their first definitions. -/
  listed : ∀ name, name ∈ t.names ↔ name ∈ ds.map Symbol.name
  ordered : t.names.Pairwise fun a b =>
    (ds.map Symbol.name).idxOf a < (ds.map Symbol.name).idxOf b
  /-- A name has the address of its last definition, and none if there is no definition of it. -/
  defined : ∀ name a, t.address? name = some a ↔
    ∃ before after, ds = before ++ ⟨name, a⟩ :: after ∧ ∀ d ∈ after, d.name ≠ name
  undefined : ∀ name, t.address? name = none ↔ ∀ d ∈ ds, d.name ≠ name
  /-- The table is as long as there are names. -/
  size : t.size = (ds.map Symbol.name).toFinset.card
  /-- Every definition returned what its name meant just before it. -/
  length : answers.length = ds.length
  returned : ∀ before d after, ds = before ++ d :: after →
    answers[before.length]? = some ((empty.defineEach before).2.address? d.name)
  /-- The next definition touches no other name, -/
  others : ∀ name a other, other ≠ name → (t.define name a).2.address? other = t.address? other
  /-- and moves no entry. -/
  places : ∀ name a (i : Nat) s, t.symbols[i]? = some s → ∃ after : Symbol,
    (t.define name a).2.symbols[i]? = some after ∧ after.name = s.name ∧ (s.name ≠ name → after = s)

/-- **A table is faithful to its definitions**, however many there are. -/
theorem defineEach_faithful (ds : List Symbol) :
    Faithful ds (empty.defineEach ds).1 (empty.defineEach ds).2 := by
  have hrecords : (empty.defineEach ds).2.Records ds := records_empty.defineEach ds
  constructor
  case distinct => exact hrecords.distinct
  case listed => exact hrecords.listed
  case ordered => exact hrecords.ordered
  case defined =>
    intro name a
    rw [hrecords.last, lastAddress?_eq_some]
  case undefined =>
    intro name
    rw [hrecords.last, lastAddress?_eq_none]
  case size => exact hrecords.size_eq
  case length => exact length_defineEach empty ds
  case returned =>
    rintro before d after rfl
    exact getElem?_defineEach empty before d after
  case others =>
    intro name a other hne
    rw [address?_define, if_neg hne]
  case places =>
    intro name a i s hs
    exact getElem?_define name a hs

/-- A name that is defined again keeps its place, takes the new address and returns the old one. -/
example : empty.defineEach [⟨"up", 0x1000⟩, ⟨"down", 0x1010⟩, ⟨"up", 0x1004⟩] =
    ([none, none, some 0x1000], ⟨[⟨"up", 0x1004⟩, ⟨"down", 0x1010⟩]⟩) := by decide

end Asm6502.SymbolTable

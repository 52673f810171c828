import Asm6502.Text.Quoted

/-! Variables of macros: values by name, kept in the order of the names. -/
namespace Asm6502

inductive Value where
  | number (n : Int)
  | text (s : String)
  | bytes (ns : List Int)
deriving DecidableEq, Repr

/-- A value with the name of its kind. -/
def Value.describe : Value → String
  | number n => "Number(" ++ toString n ++ ")"
  | text s => "Text(" ++ Text.quote s ++ ")"
  | bytes ns => "Bytes([" ++ ", ".intercalate (ns.map toString) ++ "])"

/-- Named values; no name occurs twice. -/
structure Variables where
  entries : List (String × Value)
  ordered : entries.Pairwise fun a b => a.1 < b.1
deriving DecidableEq

namespace Variables

def empty : Variables := ⟨[], .nil⟩

/-- Sets a value in an ordered list. -/
def insertEntry (name : String) (value : Value) : List (String × Value) → List (String × Value)
  | [] => [(name, value)]
  | e :: rest =>
    if name < e.1 then (name, value) :: e :: rest
    else if name = e.1 then (name, value) :: rest
    else e :: insertEntry name value rest

theorem mem_insertEntry {name : String} {value : Value} {entries : List (String × Value)}
    {e : String × Value} (h : e ∈ insertEntry name value entries) :
    e = (name, value) ∨ e ∈ entries := by
  induction entries with
  | nil => simpa [insertEntry] using h
  | cons d rest ih =>
    unfold insertEntry at h
    split at h
    · simpa using h
    · split at h
      · rcases List.mem_cons.mp h with h | h
        · exact .inl h
        · exact .inr (List.mem_cons_of_mem _ h)
      · rcases List.mem_cons.mp h with h | h
        · exact .inr (h ▸ List.mem_cons_self ..)
        · exact (ih h).imp_right (List.mem_cons_of_mem _)

theorem insertEntry_ordered (name : String) (value : Value) (entries : List (String × Value))
    (h : entries.Pairwise fun a b => a.1 < b.1) :
    (insertEntry name value entries).Pairwise fun a b => a.1 < b.1 := by
  induction entries with
  | nil => exact List.pairwise_singleton _ _
  | cons d rest ih =>
    have hd := List.pairwise_cons.mp h
    unfold insertEntry
    split
    · next hlt =>
      refine List.pairwise_cons.mpr ⟨fun e he => ?_, h⟩
      rcases List.mem_cons.mp he with rfl | he
      · exact hlt
      · exact String.lt_trans hlt (hd.1 e he)
    · next hlt =>
      split
      · next heq => exact List.pairwise_cons.mpr ⟨fun e he => heq ▸ hd.1 e he, hd.2⟩
      · next hne =>
        refine List.pairwise_cons.mpr ⟨fun e he => ?_, ih hd.2⟩
        rcases mem_insertEntry he with rfl | he
        · exact String.not_le.mp fun hle => hne (String.le_antisymm hle (String.not_lt.mp hlt))
        · exact hd.1 e he

/-- Sets the value of a name. -/
def insert (vs : Variables) (name : String) (value : Value) : Variables :=
  ⟨insertEntry name value vs.entries, insertEntry_ordered name value vs.entries vs.ordered⟩

/-- Of values for the same name, the last one counts. -/
def ofList (entries : List (String × Value)) : Variables :=
  entries.foldl (fun vs e => vs.insert e.1 e.2) empty

def get? (vs : Variables) (name : String) : Option Value := vs.entries.lookup name

def names (vs : Variables) : List String := vs.entries.map Prod.fst

/-- The values of `vs` where `overrides` has none. -/
def merge (vs overrides : Variables) : Variables :=
  overrides.entries.foldl (fun vs e => vs.insert e.1 e.2) vs

/-- The variables as a list between braces. -/
def describe (vs : Variables) : String :=
  "\x7b" ++ ", ".intercalate (vs.entries.map fun e => Text.quote e.1 ++ ": " ++ e.2.describe)
    ++ "\x7d"

end Variables

end Asm6502

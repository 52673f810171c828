import Asm6502.Macro.Script
import Asm6502.Proofs.Outcome

/-! What a run of operations leaves in the context of a macro.

The context holds the labels of its code a second time, as a set that `label` and `insert` keep up,
each in its own way, and `block` leaves alone. All operations come down to one: a context is spliced
with some nodes (`Context.splice`), and `Operation.contribution` says with which, or why the operation
fails, from the variables alone; the answers depend on nothing else either, unless a label is asked
for (`ofBuild_blind`). `ofBuild_run` is that equation for one operation and `runAll_steps` for a run of
them, whatever fails on the way. So `run_operations` can say after any run that the code is what the
successful operations contributed, in order, that a failure changes nothing, and that the set of labels
is the one in the code. -/
namespace Asm6502

/-! ### Splicing -/

namespace Context

/-- The context with nodes put behind its code and their labels noted. -/
def splice (c : Context) (b : Block) : Context :=
  b.labelNames.foldl register { c with code := c.code ++ b }

@[simp] theorem code_foldl_register (names : List String) (c : Context) :
    (names.foldl register c).code = c.code := by
  induction names generalizing c with
  | nil => rfl
  | cons name names ih => exact ih _

@[simp] theorem bindings_foldl_register (names : List String) (c : Context) :
    (names.foldl register c).bindings = c.bindings := by
  induction names generalizing c with
  | nil => rfl
  | cons name names ih => exact ih _

@[simp] theorem code_splice (c : Context) (b : Block) : (c.splice b).code = c.code ++ b := by
  simp [splice]

@[simp] theorem bindings_splice (c : Context) (b : Block) : (c.splice b).bindings = c.bindings := by
  simp [splice]

@[simp] theorem splice_nil (c : Context) : c.splice .nil = c := by
  obtain ⟨code, labels, bindings⟩ := c
  simp [splice, Block.labelNames, Outline.items]

/-- Noting a label and putting code behind come to the same in either order. -/
theorem foldl_register_append (names : List String) (c : Context) (b : Block) :
    { names.foldl register c with code := c.code ++ b } =
      names.foldl register { c with code := c.code ++ b } := by
  induction names generalizing c with
  | nil => rfl
  | cons name names ih => exact ih (c.register name)

/-- **Splicing goes by parts.** -/
theorem splice_append (c : Context) (a b : Block) : c.splice (a ++ b) = (c.splice a).splice b := by
  have hcode : ({ c.splice a with code := (c.splice a).code ++ b } : Context) =
      a.labelNames.foldl register { c with code := c.code ++ a ++ b } := by
    rw [code_splice]
    exact foldl_register_append a.labelNames { c with code := c.code ++ a } b
  have hnames : Block.labelNames (a ++ b) = a.labelNames ++ b.labelNames := by
    simp [Block.labelNames]
  rw [splice, hnames, List.foldl_append, splice, hcode, Outline.append_assoc]

theorem hasLabel_register (c : Context) (noted name : String) :
    (c.register noted).hasLabel name = true ↔ c.hasLabel name = true ∨ name = noted := by
  unfold register hasLabel
  split
  · rename_i hmem
    simp only [List.contains_iff_mem]
    constructor
    · exact .inl
    · rintro (h | rfl)
      · exact h
      · exact hmem
  · simp

theorem hasLabel_foldl_register (names : List String) (c : Context) (name : String) :
    (names.foldl register c).hasLabel name = true ↔ c.hasLabel name = true ∨ name ∈ names := by
  induction names generalizing c with
  | nil => simp
  | cons noted names ih => rw [List.foldl_cons, ih, hasLabel_register, or_assoc, List.mem_cons]

/-- The labels of what is spliced in are noted, but not those of blocks inside it. -/
theorem hasLabel_splice (c : Context) (b : Block) (name : String) :
    (c.splice b).hasLabel name = true ↔ c.hasLabel name = true ∨ name ∈ b.labelNames :=
  hasLabel_foldl_register b.labelNames _ name

end Context

/-- The names that a block defines are those of the labels that lie directly in it. -/
theorem Block.mem_labelNames {b : Block} {name : String} :
    name ∈ b.labelNames ↔ ∃ l, Statement.label l ∈ b.items ∧ l.name = name := by
  unfold Block.labelNames
  rw [List.mem_filterMap]
  constructor
  · rintro ⟨s, hs, hname⟩
    cases s with
    | label l => exact ⟨l, hs, Option.some.inj hname⟩
    | _ => cases hname
  · rintro ⟨l, hl, rfl⟩
    exact ⟨_, hl, rfl⟩

/-! ### One operation -/

def Value.kind : Value → ValueKind
  | number _ => .number
  | text _ => .text
  | bytes _ => .bytes

theorem Value.isSome_read? (kind : ValueKind) (value : Value) :
    (value.read? kind).isSome = true ↔ value.kind = kind := by
  cases kind <;> cases value <;> simp [read?, Value.kind]

/-- A lookup contributes nothing, and fails unless there is a variable of this name, and of this kind
if one is expected. -/
def Variables.lookup (vs : Variables) (name : String) (expected : Option ValueKind) :
    Except MacroError Block :=
  match vs.get? name, expected with
  | none, _ => .error (.notFound name)
  | some _, none => .ok .empty
  | some value, some kind =>
    if value.kind = kind then .ok .empty else .error (.variableKind name kind)

namespace Operation

/-- Does the operation ask for a label? -/
def asksLabel : Operation → Bool
  | hasLabel _ => true
  | _ => false

/-- An instruction is one node. -/
def ofInstruction : Except InstructionError Instruction → Except MacroError Block
  | .ok i => .ok (.single (.instruction i))
  | .error e => .error (.instruction e)

/-- A directive is one node. -/
def ofDirective : Except DirectiveError Statement → Except MacroError Block
  | .ok s => .ok (.single s)
  | .error e => .error (.directive e)

/-- The nodes that an operation puts behind the code, or why it fails. -/
def contribution (vs : Variables) : Operation → Except MacroError Block
  | ins m argument => ofInstruction (Instruction.infer m argument none)
  | insMod m argument modifier => ofInstruction (Instruction.infer m argument (some modifier))
  | insMode m mode argument modifier =>
    ofInstruction (Instruction.inMode m mode argument modifier)
  | imm m argument => ofInstruction (Instruction.inMode m .immediate argument none)
  | dispatch name argument modifier =>
    match Mnemonic.ofName? name with
    | some m => ofInstruction (Instruction.infer m argument modifier)
    | none => vs.lookup name none
  | label name => ofDirective (.label <$> Label.ofName name)
  | align address => ofDirective (.align <$> Align.ofInt address)
  | data content mode => ofDirective (.data <$> Data.ofContent content mode)
  | block b => .ok (.group () b .nil)
  | insert b => .ok b
  | hasLabel _ => .ok .empty
  | var name => vs.lookup name none
  | number name => vs.lookup name (some .number)
  | text name => vs.lookup name (some .text)
  | bytes name => vs.lookup name (some .bytes)

end Operation

/-- The run of one operation, from its answer if it succeeds and its contribution. -/
def Run.spliced (answer : Answer) (nodes : Except MacroError Block) (c : Context) : Run :=
  match nodes with
  | .ok nodes => ⟨[.ok answer], c.splice nodes, none⟩
  | .error e => ⟨[.error e], c, some e⟩

theorem Label.name_of_ofName {name : String} {l : Label} (h : Label.ofName name = .ok l) :
    l.name = name := by
  unfold Label.ofName at h
  split at h
  · cases h
    rfl
  · cases h

theorem Build.var_eq (name : String) (c : Context) :
    Build.var name c = match c.bindings.get? name with
      | some value => .ok value c
      | none => .error (.notFound name) c := by
  rw [Build.var, get_bind]
  cases c.bindings.get? name <;> rfl

theorem Build.fetch_eq (kind : ValueKind) (name : String) (c : Context) :
    Build.fetch kind name c = match c.bindings.get? name with
      | some value => match value.read? kind with
        | some a => .ok a c
        | none => .error (.variableKind name kind) c
      | none => .error (.notFound name) c := by
  have hvar := Build.var_eq name c
  cases h : c.bindings.get? name with
  | none =>
    rw [h] at hvar
    exact bind_of_error _ hvar
  | some value =>
    rw [h] at hvar
    refine (bind_of_ok _ hvar).trans ?_
    simp only
    cases value.read? kind <;> rfl

namespace Run

theorem ofBuild_emit (answer : Answer) (i : Except InstructionError Instruction) (c : Context) :
    ofBuild ((fun _ => answer) <$> Build.emit i) c = spliced answer (Operation.ofInstruction i) c := by
  cases i <;> rfl

theorem ofBuild_directive (answer : Answer) {s : Except DirectiveError Statement} (c : Context)
    (hs : ∀ l, s ≠ .ok (.label l)) :
    ofBuild ((fun _ => answer) <$> Build.emitDirective s) c =
      spliced answer (Operation.ofDirective s) c := by
  cases s with
  | error e => rfl
  | ok s =>
    cases s with
    | label l => exact absurd rfl (hs l)
    | _ => rfl

theorem ofBuild_label (answer : Answer) (name : String) (c : Context) :
    ofBuild ((fun _ => answer) <$> Build.label name) c =
      spliced answer (Operation.ofDirective (.label <$> Label.ofName name)) c := by
  unfold Build.label
  cases h : Label.ofName name with
  | error e => rfl
  | ok l =>
    rw [← Label.name_of_ofName h]
    rfl

/-- Looking up a variable leaves the context as it is, and its answer depends on the variables alone. -/
theorem ofBuild_var (answer : Value → Answer) (name : String) (vs : Variables) : ∃ found,
    ∀ c : Context, c.bindings = vs →
      ofBuild (answer <$> Build.var name) c = spliced found (vs.lookup name none) c := by
  unfold Variables.lookup
  cases h : vs.get? name with
  | none =>
    refine ⟨.done, ?_⟩
    rintro c rfl
    simp only [ofBuild, Functor.map, EStateM.map, Build.var_eq, h, spliced]
  | some value =>
    refine ⟨answer value, ?_⟩
    rintro c rfl
    simp only [ofBuild, Functor.map, EStateM.map, Build.var_eq, h, spliced, Block.empty,
      Context.splice_nil]

/-- So does asking for a variable of some kind. -/
theorem ofBuild_fetch (kind : ValueKind) (answer : kind.Carrier → Answer) (name : String)
    (vs : Variables) : ∃ found, ∀ c : Context, c.bindings = vs →
      ofBuild (answer <$> Build.fetch kind name) c = spliced found (vs.lookup name (some kind)) c := by
  unfold Variables.lookup
  cases h : vs.get? name with
  | none =>
    refine ⟨.done, ?_⟩
    rintro c rfl
    simp only [ofBuild, Functor.map, EStateM.map, Build.fetch_eq, h, spliced]
  | some value =>
    have hkind := Value.isSome_read? kind value
    cases hread : value.read? kind with
    | none =>
      have hne : value.kind ≠ kind := fun heq => by simpa [hread] using hkind.mpr heq
      refine ⟨.done, ?_⟩
      rintro c rfl
      simp only [ofBuild, Functor.map, EStateM.map, Build.fetch_eq, h, hread, if_neg hne, spliced]
    | some a =>
      have heq : value.kind = kind := hkind.mp (by rw [hread]; rfl)
      refine ⟨answer a, ?_⟩
      rintro c rfl
      simp only [ofBuild, Functor.map, EStateM.map, Build.fetch_eq, h, hread, if_pos heq, spliced,
        Block.empty, Context.splice_nil]

/-- An operation that asks for no label looks at nothing but the variables. -/
theorem ofBuild_blind {op : Operation} (hop : op.asksLabel = false) (vs : Variables) : ∃ answer,
    ∀ c : Context, c.bindings = vs → ofBuild op.run c = spliced answer (op.contribution vs) c := by
  cases op with
  | ins | insMod | insMode | imm => exact ⟨_, fun c _ => ofBuild_emit .done _ c⟩
  | dispatch name argument modifier =>
    simp only [Operation.run, Operation.contribution, Build.dispatch]
    cases Mnemonic.ofName? name with
    | some m =>
      refine ⟨.emitted, fun c _ => Eq.trans ?_
        (ofBuild_emit .emitted (Instruction.infer m argument modifier) c)⟩
      simp only [bind_pure_comp, Functor.map_map]
    | none =>
      obtain ⟨found, h⟩ := ofBuild_var .found name vs
      refine ⟨found, fun c hc => Eq.trans ?_ (h c hc)⟩
      simp only [Functor.map_map]
  | label name => exact ⟨_, fun c _ => ofBuild_label .done name c⟩
  | align address =>
    refine ⟨_, fun c _ => ofBuild_directive .done c fun l h => ?_⟩
    cases ha : Align.ofInt address <;> rw [ha] at h <;> cases h
  | data content mode =>
    refine ⟨_, fun c _ => ofBuild_directive .done c fun l h => ?_⟩
    cases hd : Data.ofContent content mode <;> rw [hd] at h <;> cases h
  | block | insert => exact ⟨.done, fun _ _ => rfl⟩
  | hasLabel name => cases hop
  | var name => exact ofBuild_var .found name vs
  | number name => exact ofBuild_fetch .number .number name vs
  | text name => exact ofBuild_fetch .text .text name vs
  | bytes name => exact ofBuild_fetch .bytes .bytes name vs

/-- **One operation** splices the context with its contribution, or fails and leaves it alone. -/
theorem ofBuild_run (op : Operation) (c : Context) : ∃ answer,
    ofBuild op.run c = spliced answer (op.contribution c.bindings) c := by
  cases hop : op.asksLabel with
  | false =>
    obtain ⟨answer, h⟩ := ofBuild_blind hop c.bindings
    exact ⟨answer, h c rfl⟩
  | true =>
    cases op with
    | hasLabel name =>
      refine ⟨.flag (c.hasLabel name), ?_⟩
      simp only [Operation.contribution, spliced, Block.empty, Context.splice_nil]
      rfl
    | _ => cases hop

end Run

/-- An operation that fails leaves the code, the labels and the variables as they were. -/
theorem Operation.context_of_run_error {op : Operation} {c after : Context} {e : MacroError}
    (h : op.run c = .error e after) : after = c := by
  obtain ⟨answer, hrun⟩ := Run.ofBuild_run op c
  rw [Run.ofBuild, h] at hrun
  cases hnodes : op.contribution c.bindings with
  | ok nodes =>
    rw [hnodes] at hrun
    cases congrArg Run.failure hrun
  | error cause =>
    rw [hnodes] at hrun
    exact congrArg Run.context hrun

/-! ### Whole runs -/

namespace Operation

/-- Steps that perform one operation each and go on whatever fails. -/
def steps (ops : List Operation) : List Step := ops.map fun op => ⟨.perform op, true⟩

/-- The nodes of the operations that succeed, in order. -/
def contributions (vs : Variables) (ops : List Operation) : Block :=
  (ops.filterMap fun op => (op.contribution vs).toOption).foldr (· ++ ·) .empty

end Operation

/-- **A run of operations** splices the context with all that they contribute. -/
theorem Step.runAll_steps (call : String → Variables → Called) (ops : List Operation) (c : Context) :
    (runAll call (Operation.steps ops) c).context = c.splice (Operation.contributions c.bindings ops) ∧
    (runAll call (Operation.steps ops) c).log.map failure? =
      ops.map fun op => failure? (op.contribution c.bindings) := by
  induction ops generalizing c with
  | nil => exact ⟨(c.splice_nil).symm, rfl⟩
  | cons op ops ih =>
    obtain ⟨answer, hop⟩ := Run.ofBuild_run op c
    have hsteps : runAll call (Operation.steps (op :: ops)) c =
        { runAll call (Operation.steps ops) (Run.ofBuild op.run c).context with
          log := (Run.ofBuild op.run c).log ++
            (runAll call (Operation.steps ops) (Run.ofBuild op.run c).context).log } := by
      simp [Operation.steps, runAll, Action.run]
    rw [hsteps, hop, Operation.contributions]
    cases h : op.contribution c.bindings with
    | error e =>
      obtain ⟨hcontext, hlog⟩ := ih c
      simp [Run.spliced, hcontext, hlog, h, Except.toOption, failure?, Operation.contributions]
    | ok nodes =>
      obtain ⟨hcontext, hlog⟩ := ih (c.splice nodes)
      simp [Run.spliced, hcontext, hlog, h, Except.toOption, failure?, Operation.contributions,
        Context.splice_append]

/-- What a run of operations leaves, told from what each of them contributes. -/
structure Run.Tracks (vs : Variables) (ops : List Operation) (r : Run) : Prop where
  /-- An operation fails where there is no contribution of it, for the same reason. -/
  log : r.log.map failure? = ops.map fun op => failure? (op.contribution vs)
  code : r.context.code = Operation.contributions vs ops
  bindings : r.context.bindings = vs
  /-- Whatever fails next changes nothing. -/
  failed : ∀ (op : Operation) (e : MacroError) (after : Context),
    op.run r.context = .error e after → after = r.context
  /-- A label is seen exactly if it lies in the code, but not inside a nested block. -/
  labels : ∀ name, ∃ seen, (Operation.hasLabel name).run r.context = .ok (.flag seen) r.context ∧
    (seen = true ↔ ∃ l, Statement.label l ∈ r.context.code.items ∧ l.name = name)

/-- **The context keeps track**: after operations in any order, whichever of them fail, the code is
what the others contributed, the variables are those of the start, and the labels are those of the
code. -/
theorem run_operations (call : String → Variables → Called) (vs : Variables) (ops : List Operation) :
    (Step.runAll call (Operation.steps ops) (.fresh vs)).Tracks vs ops := by
  have hbindings : (Context.fresh vs).bindings = vs := rfl
  obtain ⟨hcontext, hlog⟩ := Step.runAll_steps call ops (.fresh vs)
  rw [hbindings] at hcontext hlog
  have hcode : (Step.runAll call (Operation.steps ops) (.fresh vs)).context.code =
      Operation.contributions vs ops := by
    rw [hcontext, Context.code_splice]
    rfl
  constructor
  case log => exact hlog
  case code => exact hcode
  case bindings => rw [hcontext, Context.bindings_splice, hbindings]
  case failed =>
    intro op e after h
    exact Operation.context_of_run_error h
  case labels =>
    intro name
    refine ⟨_, rfl, ?_⟩
    have hfresh : (Context.fresh vs).hasLabel name = false := rfl
    rw [hcode, ← Block.mem_labelNames, hcontext, Context.hasLabel_splice, hfresh]
    simp only [Bool.false_eq_true, false_or]

/-- A failed label is not seen and neither is a nested one, but an inserted one is. -/
example : ((Step.runAll (fun name _ => ⟨[], .error (.notFound name)⟩) (Operation.steps
    [.block (.single (.label ⟨"inner", by decide⟩)), .insert (.single (.label ⟨"outer", by decide⟩)),
      .label "", .hasLabel "inner", .hasLabel "outer", .hasLabel ""]) (.fresh .empty)).log.drop 3) =
    [.ok (.flag false), .ok (.flag true), .ok (.flag false)] := rfl

end Asm6502

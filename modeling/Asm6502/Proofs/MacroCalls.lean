import Asm6502.Proofs.Inlining

/-! Calls of macros.

A call checks the names it is given, sets the variables and runs the procedures. Variables are kept in
the order of their names, so that inserting a value changes what is found under one name
(`Variables.get?_insert`), and a merge finds what was given before what was declared
(`Variables.get?_merge`) and adds no name to those that were declared (`Variables.names_merge`).
`Macro.Runs` says what it means that procedures run in order on one context until the first failure,
and which contexts they find. No operation sets a variable, so procedures that are put together from
operations leave all of them as they are (`Build.Keeps`).

A procedure may call a macro itself and pass on the error of that call. So a call can fail for
extraneous variables though it was given none (`relay_passes_on`). `call_exact` says what a call does
for any variables that are declared and given, this case included. -/
namespace Asm6502

/-! ### Variables by name -/

namespace Variables

theorem lookup_cons_eq (name : String) (e : String × Value) (rest : List (String × Value)) :
    (e :: rest).lookup name = if name = e.1 then some e.2 else rest.lookup name := by
  obtain ⟨key, value⟩ := e
  rw [List.lookup_cons]
  by_cases h : name = key
  · rw [if_pos h, beq_iff_eq.mpr h]
  · rw [if_neg h, beq_eq_false_iff_ne.mpr h]

theorem lookup_insertEntry (name other : String) (value : Value) (entries : List (String × Value)) :
    (insertEntry name value entries).lookup other =
      if other = name then some value else entries.lookup other := by
  induction entries with
  | nil => exact lookup_cons_eq other (name, value) []
  | cons e rest ih =>
    unfold insertEntry
    split
    · exact lookup_cons_eq other (name, value) (e :: rest)
    · split
      · rename_i heq
        rw [lookup_cons_eq, lookup_cons_eq, ← heq]
        split <;> rfl
      · rename_i hne
        rw [lookup_cons_eq, lookup_cons_eq, ih]
        -- the entry in front has another name than the one that is inserted
        by_cases he : other = e.1
        · have hother : other ≠ name := fun h => hne (h.symm.trans he)
          rw [if_pos he, if_neg hother, if_pos he]
        · rw [if_neg he, if_neg he]

/-- A value is found under its name, and nothing changes under the others. -/
theorem get?_insert (vs : Variables) (name other : String) (value : Value) :
    (vs.insert name value).get? other = if other = name then some value else vs.get? other :=
  lookup_insertEntry name other value vs.entries

theorem names_pairwise (vs : Variables) : vs.names.Pairwise (· < ·) :=
  List.pairwise_map.mpr vs.ordered

theorem isSome_get? (vs : Variables) (name : String) :
    (vs.get? name).isSome = true ↔ name ∈ vs.names := by
  unfold get? names
  induction vs.entries with
  | nil => simp
  | cons e rest ih =>
    rw [lookup_cons_eq, List.map_cons, List.mem_cons, ← ih]
    by_cases h : name = e.1 <;> simp [h]

theorem get?_eq_none (vs : Variables) (name : String) : vs.get? name = none ↔ name ∉ vs.names := by
  rw [← isSome_get?, Option.not_isSome_iff_eq_none]

/-- A value for a name that has one changes no name. -/
theorem names_insert {vs : Variables} {name : String} (h : name ∈ vs.names) (value : Value) :
    (vs.insert name value).names = vs.names := by
  obtain ⟨entries, hordered⟩ := vs
  show (insertEntry name value entries).map Prod.fst = entries.map Prod.fst
  change name ∈ entries.map Prod.fst at h
  induction entries with
  | nil => cases h
  | cons e rest ih =>
    obtain ⟨hfirst, hrest⟩ := List.pairwise_cons.mp hordered
    rcases List.mem_cons.mp h with rfl | h
    · rw [insertEntry, if_neg (String.lt_irrefl _), if_pos rfl]
      rfl
    · obtain ⟨d, hd, rfl⟩ := List.mem_map.mp h
      have hlt : e.1 < d.1 := hfirst d hd
      have hne : d.1 ≠ e.1 := fun heq => String.lt_irrefl _ (heq ▸ hlt)
      rw [insertEntry, if_neg (String.lt_asymm hlt), if_neg hne, List.map_cons, List.map_cons,
        ih hrest h]

/-- **What is given comes before what is declared.** -/
theorem get?_merge (declared given : Variables) (name : String) :
    (declared.merge given).get? name = (given.get? name).or (declared.get? name) := by
  obtain ⟨entries, hordered⟩ := given
  show (entries.foldl _ declared).get? name = (entries.lookup name).or _
  induction entries generalizing declared with
  | nil => rfl
  | cons e rest ih =>
    obtain ⟨hfirst, hrest⟩ := List.pairwise_cons.mp hordered
    rw [List.foldl_cons, ih _ hrest, get?_insert, lookup_cons_eq]
    by_cases h : name = e.1
    · -- later values have other names
      have hlater : rest.lookup name = none := by
        refine (get?_eq_none ⟨rest, hrest⟩ name).mpr fun hmem => ?_
        obtain ⟨d, hd, rfl⟩ := List.mem_map.mp hmem
        exact String.lt_irrefl _ (h ▸ hfirst d hd)
      rw [if_pos h, if_pos h, hlater]
      rfl
    · rw [if_neg h, if_neg h]

/-- **No name is added** by values for names that are declared. -/
theorem names_merge {declared given : Variables} (h : ∀ name ∈ given.names, name ∈ declared.names) :
    (declared.merge given).names = declared.names := by
  obtain ⟨entries, hordered⟩ := given
  change ∀ name ∈ entries.map Prod.fst, _ at h
  show (entries.foldl _ declared).names = declared.names
  clear hordered
  induction entries generalizing declared with
  | nil => rfl
  | cons e rest ih =>
    rw [List.map_cons, List.forall_mem_cons] at h
    have hnames : (declared.insert e.1 e.2).names = declared.names := names_insert h.1 e.2
    rw [List.foldl_cons, ih fun name hname => hnames ▸ h.2 name hname, hnames]

/-! ### The check -/

/-- The names that are given and not declared. -/
def undeclared (declared given : Variables) : List String :=
  given.names.filter fun name => (declared.get? name).isNone

theorem mem_undeclared {declared given : Variables} {name : String} :
    name ∈ undeclared declared given ↔ name ∈ given.names ∧ name ∉ declared.names := by
  rw [undeclared, List.mem_filter, Option.isNone_iff_eq_none, get?_eq_none]

theorem undeclared_eq_nil {declared given : Variables} :
    undeclared declared given = [] ↔ ∀ name ∈ given.names, name ∈ declared.names := by
  simp [List.eq_nil_iff_forall_not_mem, mem_undeclared]

theorem undeclared_pairwise (declared given : Variables) :
    (undeclared declared given).Pairwise (· < ·) :=
  given.names_pairwise.filter _

theorem override_eq (declared given : Variables) : declared.override given =
    if undeclared declared given = [] then .ok (declared.merge given)
    else .error (.extraneousVariables (undeclared declared given)) := by
  unfold override
  split
  · rename_i hnone
    exact (if_pos hnone).symm
  · rename_i hsome
    exact (if_neg hsome).symm

end Variables

/-! ### Procedures one after another -/

namespace Macro

/-- Procedures run in order, each in the context that the one before it left, up to the first that
fails: the contexts that are found, and the code or the error in the end. -/
inductive Runs : List (Build Unit) → Context → List Context → Except MacroError Block → Prop where
  | done {c} : Runs [] c [] (.ok c.code)
  | failed {p rest c e after} : p c = .error e after → Runs (p :: rest) c [c] (.error e)
  | passed {p rest c after found result} : p c = .ok () after → Runs rest after found result →
      Runs (p :: rest) c (c :: found) result

/-- The code that a run of procedures leaves, or the error that ends it. -/
def result : EStateM.Result MacroError Context Unit → Except MacroError Block
  | .ok _ c => .ok c.code
  | .error e _ => .error e

theorem runAll_runs (ps : List (Build Unit)) (c : Context) :
    ∃ found, Runs ps c found (result (runAll ps c)) := by
  induction ps generalizing c with
  | nil => exact ⟨[], .done⟩
  | cons p rest ih =>
    rw [runAll]
    cases hp : p c with
    | error e after =>
      rw [bind_of_error _ hp]
      exact ⟨[c], .failed hp⟩
    | ok _ after =>
      rw [bind_of_ok _ hp]
      obtain ⟨found, hrest⟩ := ih after
      exact ⟨c :: found, .passed hp hrest⟩

theorem call_eq_result {m : Macro} {given vs : Variables} (hvs : m.defaults.override given = .ok vs) :
    m.call given = result (runAll m.procedures (.fresh vs)) := by
  rw [call_eq hvs]
  cases runAll m.procedures (.fresh vs) <;> rfl

theorem runAll_append (ps qs : List (Build Unit)) :
    runAll (ps ++ qs) = (runAll ps >>= fun _ => runAll qs) := by
  induction ps with
  | nil => simp [runAll]
  | cons p rest ih => simp only [List.cons_append, runAll, ih, bind_assoc]

/-- **Procedures fail** as the first of them does that fails in the context it finds. -/
theorem runAll_eq_error {ps : List (Build Unit)} {c : Context} {e : MacroError} :
    (∃ after, runAll ps c = .error e after) ↔ ∃ before p rest d after, ps = before ++ p :: rest ∧
      runAll before c = .ok () d ∧ p d = .error e after := by
  constructor
  · rintro ⟨after, h⟩
    induction ps generalizing c with
    | nil => cases h
    | cons p rest ih =>
      rw [runAll] at h
      cases hp : p c with
      | error e' d =>
        rw [bind_of_error _ hp] at h
        cases h
        exact ⟨[], p, rest, c, after, rfl, rfl, hp⟩
      | ok _ d =>
        rw [bind_of_ok _ hp] at h
        obtain ⟨before, q, others, found, left, rfl, hbefore, hq⟩ := ih h
        refine ⟨p :: before, q, others, found, left, rfl, ?_, hq⟩
        rw [runAll, bind_of_ok _ hp]
        exact hbefore
  · rintro ⟨before, p, rest, d, after, rfl, hbefore, hp⟩
    refine ⟨after, ?_⟩
    rw [runAll_append, bind_of_ok _ hbefore]
    exact bind_of_error _ hp

/-- Procedures one after another are one procedure. -/
theorem runAll_eq_forM (ps : List (Build Unit)) : runAll ps = ps.forM id := by
  induction ps with
  | nil => rfl
  | cons p rest ih =>
    rw [runAll, ih]
    rfl

theorem runAll_singleton (p : Build Unit) : runAll [p] = p := by
  simp [runAll]

end Macro

/-! ### Procedures leave the variables alone -/

namespace Build

/-- The context that a procedure leaves, whether it fails or not. -/
def left {α : Type} : EStateM.Result MacroError Context α → Context
  | .ok _ c => c
  | .error _ c => c

/-- The procedure leaves the variables as they are. -/
def Keeps {α : Type} (p : Build α) : Prop := ∀ c, (left (p c)).bindings = c.bindings

namespace Keeps
variable {α β : Type}

theorem pure (a : α) : (pure a : Build α).Keeps := fun _ => rfl

theorem throw (e : MacroError) : (throw e : Build α).Keeps := fun _ => rfl

theorem bind {p : Build α} {next : α → Build β} (hp : p.Keeps) (hnext : ∀ a, (next a).Keeps) :
    (p >>= next).Keeps := by
  intro c
  have hc := hp c
  cases hrun : p c with
  | error e after =>
    rw [hrun] at hc
    rw [bind_of_error next hrun]
    exact hc
  | ok a after =>
    rw [hrun] at hc
    rw [bind_of_ok next hrun]
    exact (hnext a after).trans hc

theorem tryCatch {p : Build α} {handler : MacroError → Build α} (hp : p.Keeps)
    (hhandler : ∀ e, (handler e).Keeps) : (tryCatch p handler).Keeps := by
  intro c
  have hc := hp c
  cases hrun : p c with
  | ok a after =>
    rw [hrun] at hc
    rw [tryCatch_of_ok handler hrun]
    exact hc
  | error e after =>
    rw [hrun] at hc
    rw [tryCatch_of_error handler hrun]
    exact (hhandler e after).trans hc

theorem map {p : Build α} (hp : p.Keeps) (f : α → β) : (f <$> p).Keeps := by
  rw [map_eq_pure_bind]
  exact hp.bind fun a => .pure (f a)

theorem ofExcept (x : Except MacroError α) : (ofExcept x : Build α).Keeps := by
  cases x with
  | ok a => exact .pure a
  | error e => exact .throw e

/-- **No operation sets a variable.** -/
theorem operation (op : Operation) : op.run.Keeps := by
  intro c
  obtain ⟨answer, hrun⟩ := Run.ofBuild_run op c
  have hleft : (Run.ofBuild op.run c).context = left (op.run c) := by
    unfold Run.ofBuild
    cases op.run c <;> rfl
  rw [← hleft, hrun]
  cases op.contribution c.bindings with
  | ok nodes => exact Context.bindings_splice c nodes
  | error e => rfl

/-- Asking for a variable of some kind sets none, whatever the kind. -/
theorem fetch (kind : ValueKind) (name : String) : (Build.fetch kind name).Keeps := by
  intro c
  rw [Build.fetch_eq]
  cases c.bindings.get? name with
  | none => rfl
  | some value =>
    simp only
    cases value.read? kind <;> rfl

theorem runAll {ps : List (Build Unit)} (h : ∀ p ∈ ps, p.Keeps) : (Macro.runAll ps).Keeps := by
  induction ps with
  | nil => exact .pure ()
  | cons p ps ih =>
    obtain ⟨hp, hps⟩ := List.forall_mem_cons.mp h
    exact hp.bind fun _ => ih hps

end Keeps

end Build

/-- Whatever its steps are, a script sets no variable. -/
theorem Script.keeps_toMacro (call : String → Variables → Called) (s : Script) :
    ∀ p ∈ (s.toMacro call).procedures, p.Keeps := by
  have haction : ∀ action : Action, (action.build call).Keeps := by
    intro action
    cases action with
    | perform op => exact .operation op
    | withNumber name op => exact .bind (.fetch .number name) fun n => .operation (op n)
    | withText name op => exact .bind (.fetch .text name) fun t => .operation (op t)
    | withBytes name op => exact .bind (.fetch .bytes name) fun ns => .operation (op ns)
    | withCall callee given op => exact .bind (.ofExcept _) fun b => .operation (op b)
  have hstep : ∀ step : Step, (step.build call).Keeps := by
    intro step
    unfold Step.build
    split
    · exact .tryCatch ((haction step.action).map _) fun _ => .pure ()
    · exact (haction step.action).map _
  intro p hp
  obtain ⟨steps, -, rfl⟩ := List.mem_map.mp hp
  refine .runAll fun q hq => ?_
  obtain ⟨step, -, rfl⟩ := List.mem_map.mp hq
  exact hstep step

/-- All contexts that are found have the variables of the first. -/
theorem Macro.Runs.bindings_eq {ps : List (Build Unit)} {c : Context} {found : List Context}
    {result : Except MacroError Block} (h : Runs ps c found result) (hps : ∀ p ∈ ps, p.Keeps) :
    ∀ d ∈ found, d.bindings = c.bindings := by
  induction h with
  | done => simp
  | failed => simp
  | @passed p rest c after found result hp _ ih =>
    obtain ⟨hkeeps, hrest⟩ := List.forall_mem_cons.mp hps
    have hafter := hkeeps c
    rw [hp] at hafter
    refine List.forall_mem_cons.mpr ⟨rfl, fun d hd => ?_⟩
    exact (ih hrest d hd).trans hafter

/-! ### Calls -/

/-- What procedures find in a context: variables of these names, with these values, which they get if
they ask for the kind that a value has. -/
structure Context.Shows (c : Context) (names : List String) (value? : String → Option Value) : Prop where
  names : c.bindings.names = names
  var : ∀ name, Build.var name c = match value? name with
    | some value => .ok value c
    | none => .error (.notFound name) c
  fetch : ∀ kind name, Build.fetch kind name c = match value? name with
    | some value => match value.read? kind with
      | some a => .ok a c
      | none => .error (.variableKind name kind) c
    | none => .error (.notFound name) c

/-- A context shows its variables. -/
theorem Context.shows (c : Context) : c.Shows c.bindings.names c.bindings.get? where
  names := rfl
  var name := Build.var_eq name c
  fetch kind name := Build.fetch_eq kind name c

namespace Macro

/-- A procedure fails with this error, after those in front of it were run with these variables. -/
def FailsWith (m : Macro) (vs : Variables) (e : MacroError) : Prop :=
  ∃ before p rest c after, m.procedures = before ++ p :: rest ∧
    runAll before (.fresh vs) = .ok () c ∧ p c = .error e after

/-- What a call with the given variables has to do. -/
structure CallsExactly (m : Macro) (given : Variables) : Prop where
  /-- The call fails for extraneous variables if some name is given that is not declared, or if a
  procedure fails so, as one does that passes on the error of another call. -/
  extraneous : (∃ names, m.call given = .error (.extraneousVariables names)) ↔
    (∃ name ∈ given.names, name ∉ m.defaults.names) ∨
      ∃ names, m.FailsWith (m.defaults.merge given) (.extraneousVariables names)
  /-- Names that are not declared are listed, all of them, each once and in their order. No procedure
  is run: it makes no difference which there are. -/
  refused : (∃ name ∈ given.names, name ∉ m.defaults.names) → ∃ names, names.Pairwise (· < ·) ∧
    (∀ name, name ∈ names ↔ name ∈ given.names ∧ name ∉ m.defaults.names) ∧
    ∀ procedures, (⟨m.defaults, procedures⟩ : Macro).call given = .error (.extraneousVariables names)
  /-- A call without such names runs its procedures, and all of them see the declared names with the
  given values, and with the declared ones where none are given. -/
  ran : (∀ name ∈ given.names, name ∈ m.defaults.names) → ∃ vs found,
    Runs m.procedures (.fresh vs) found (m.call given) ∧ ∀ c ∈ found,
      c.Shows m.defaults.names fun name => (given.get? name).or (m.defaults.get? name)
  /-- The procedures could as well be one. -/
  joined : (⟨m.defaults, [m.procedures.forM id]⟩ : Macro).call given = m.call given

theorem call_undeclared {m : Macro} {given : Variables} (h : m.defaults.undeclared given ≠ []) :
    m.call given = .error (.extraneousVariables (m.defaults.undeclared given)) := by
  have hoverride := m.defaults.override_eq given
  rw [if_neg h] at hoverride
  unfold call
  rw [hoverride]
  rfl

theorem override_of_declared {m : Macro} {given : Variables} (h : m.defaults.undeclared given = []) :
    m.defaults.override given = .ok (m.defaults.merge given) := by
  rw [Variables.override_eq, if_pos h]

/-- A call for declared names fails as its procedures do. -/
theorem call_eq_error {m : Macro} {given : Variables} (h : m.defaults.undeclared given = [])
    (e : MacroError) : m.call given = .error e ↔ m.FailsWith (m.defaults.merge given) e := by
  rw [call_eq_result (override_of_declared h), FailsWith, ← runAll_eq_error]
  cases runAll m.procedures (.fresh (m.defaults.merge given)) with
  | ok _ c => simp [result]
  | error e' c => simp [result]

end Macro

/-- **A call merges the variables and runs the procedures**, unless it is refused. -/
theorem call_exact {m : Macro} (hm : ∀ p ∈ m.procedures, p.Keeps) (given : Variables) :
    m.CallsExactly given := by
  have hundeclared : m.defaults.undeclared given ≠ [] ↔
      ∃ name ∈ given.names, name ∉ m.defaults.names := by
    simp [Variables.undeclared_eq_nil]
  constructor
  case extraneous =>
    by_cases hnone : m.defaults.undeclared given = []
    · have hnames : ¬ ∃ name ∈ given.names, name ∉ m.defaults.names := by
        rw [← hundeclared]
        exact not_not_intro hnone
      simp only [Macro.call_eq_error hnone, hnames, false_or]
    · exact ⟨fun _ => .inl (hundeclared.mp hnone), fun _ => ⟨_, Macro.call_undeclared hnone⟩⟩
  case refused =>
    intro hnames
    refine ⟨m.defaults.undeclared given, m.defaults.undeclared_pairwise given,
      fun _ => Variables.mem_undeclared, fun procedures => ?_⟩
    exact Macro.call_undeclared (m := ⟨m.defaults, procedures⟩) (hundeclared.mpr hnames)
  case ran =>
    intro hdeclared
    have hoverride := Macro.override_of_declared (Variables.undeclared_eq_nil.mpr hdeclared)
    obtain ⟨found, hruns⟩ := Macro.runAll_runs m.procedures (.fresh (m.defaults.merge given))
    rw [← Macro.call_eq_result hoverride] at hruns
    refine ⟨_, found, hruns, fun c hc => ?_⟩
    have hbindings : c.bindings = m.defaults.merge given := hruns.bindings_eq hm c hc
    have hshows := c.shows
    have hvalues : (m.defaults.merge given).get? = fun name =>
        (given.get? name).or (m.defaults.get? name) := funext (m.defaults.get?_merge given)
    rwa [hbindings, Variables.names_merge hdeclared, hvalues] at hshows
  case joined =>
    rw [← Macro.runAll_eq_forM]
    unfold Macro.call
    simp only [Macro.runAll_singleton]

/-- Values for `color` and for two names that are not declared, not in their order. -/
def Variables.misspelt : Variables :=
  .ofList [("zebra", .number 1), ("color", .number 2), ("colour", .number 7)]

/-- A call is refused for the names that are not declared, and not for the kind of a value: it is the
procedure that asks for a number. -/
theorem blink_calls : (∀ p ∈ (Script.blink.toMacro (Script.callNamed [])).procedures, p.Keeps) ∧
    (∀ procedures, (⟨Script.blink.defaults, procedures⟩ : Macro).call .misspelt =
      .error (.extraneousVariables ["colour", "zebra"])) ∧
    ∃ vs found, Macro.Runs (Script.blink.toMacro (Script.callNamed [])).procedures (.fresh vs) found
        (.error (.variableKind "color" .number)) ∧
      ∀ c ∈ found, c.bindings.names = ["color"] ∧ Build.var "color" c = .ok (.text "red") c := by
  have hkeeps := Script.keeps_toMacro (Script.callNamed []) Script.blink
  refine ⟨hkeeps, ?_, ?_⟩
  · obtain ⟨names, -, -, hcall⟩ := (call_exact hkeeps .misspelt).refused ⟨"zebra", by decide, by decide⟩
    have hnames : (⟨Script.blink.defaults, []⟩ : Macro).call .misspelt =
        .error (.extraneousVariables ["colour", "zebra"]) := rfl
    cases (hcall []).symm.trans hnames
    exact hcall
  · have hcall : (Script.blink.toMacro (Script.callNamed [])).call (.ofList [("color", .text "red")]) =
        .error (.variableKind "color" .number) := rfl
    obtain ⟨vs, found, hruns, hshows⟩ :=
      (call_exact hkeeps (.ofList [("color", .text "red")])).ran (by decide)
    rw [hcall] at hruns
    refine ⟨vs, found, hruns, fun c hc => ?_⟩
    exact ⟨(hshows c hc).names, (hshows c hc).var "color"⟩

/-- Inserts what a call of another macro builds, with a variable that the other does not declare. -/
def Script.relay : Script where
  defaults := .empty
  procedures := [[⟨.withCall "mute" (.ofList [("volume", .number 1)]) .insert, false⟩]]

/-- The relay to a macro that declares no variable and has no code. -/
def Macro.relay : Macro := Script.relay.toMacro (Script.callNamed [("mute", ⟨.empty, []⟩)])

/-- A call can fail for extraneous variables though it is given no name at all. -/
theorem relay_passes_on :
    ¬ ((∃ names, Macro.relay.call .empty = .error (.extraneousVariables names)) ↔
      ∃ name ∈ Variables.empty.names, name ∉ Macro.relay.defaults.names) := by
  intro h
  have hcall : Macro.relay.call .empty = .error (.extraneousVariables ["volume"]) := rfl
  obtain ⟨name, hname, -⟩ := h.mp ⟨_, hcall⟩
  cases hname

end Asm6502

import Asm6502.Proofs.MacroRuns

/-! A call of a macro in the place of its code.

The block that a macro builds can be inserted into a context, or the procedures of the macro can be
run in that context. A procedure is `Blind` if it is put together from operations that ask for no
label. Such a procedure cannot tell what was in the context before it: it splices in some nodes and
ends with a value or an error, and the variables alone decide about both (`Build.Blind.contributes`).
A fresh context and any other with the same variables are two instances of this, so inserting the
block and running the procedures leave one and the same context (`insert_of_call`). Scripts are macros
of that kind if none of their steps asks for a label (`Script.blind_toMacro`). -/
namespace Asm6502

/-! ### Blind procedures -/

/-- Procedures that are put together from operations and ask for no label. What comes next may depend
on the answers so far, and a failure may end the procedure or not. -/
inductive Build.Blind : {α : Type} → Build α → Prop where
  | pure {α : Type} (a : α) : Blind (pure a)
  | throw {α : Type} (e : MacroError) : Blind (throw e : Build α)
  | operation {op : Operation} : op.asksLabel = false → Blind op.run
  | bind {α β : Type} {p : Build α} {next : α → Build β} :
      Blind p → (∀ a, Blind (next a)) → Blind (p >>= next)
  | tryCatch {α : Type} {p : Build α} {handler : MacroError → Build α} :
      Blind p → (∀ e, Blind (handler e)) → Blind (tryCatch p handler)

/-- The value of a variable that was answered, and zero if none was. -/
def Answer.toValue : Answer → Value
  | found value => value
  | _ => .number 0

namespace Build

/-- The end of a procedure that leaves a context. -/
def ending {α : Type} (outcome : Except MacroError α) (c : Context) :
    EStateM.Result MacroError Context α :=
  match outcome with
  | .ok a => .ok a c
  | .error e => .error e c

/-- In every context with these variables, the procedure splices in these nodes and ends so. -/
def Contributes {α : Type} (p : Build α) (vs : Variables) (nodes : Block)
    (outcome : Except MacroError α) : Prop :=
  ∀ c : Context, c.bindings = vs → p c = ending outcome (c.splice nodes)

/-- A procedure that runs as one operation does contributes its nodes, or nothing if it fails. -/
theorem contributes_of_run {p : Build Answer} {answer : Answer} {vs : Variables}
    {nodes : Except MacroError Block}
    (h : ∀ c : Context, c.bindings = vs → Run.ofBuild p c = Run.spliced answer nodes c) :
    ∃ nodes outcome, p.Contributes vs nodes outcome := by
  unfold Run.ofBuild at h
  cases nodes with
  | ok nodes =>
    refine ⟨nodes, .ok answer, fun c hc => ?_⟩
    have hc := h c hc
    cases hp : p c <;> rw [hp] at hc <;> cases hc
    rfl
  | error e =>
    refine ⟨.nil, .error e, fun c hc => ?_⟩
    have hc := h c hc
    cases hp : p c <;> rw [hp] at hc <;> cases hc
    rw [Context.splice_nil]
    rfl

theorem tryCatch_of_ok {α : Type} {p : Build α} (handler : MacroError → Build α) {c after : Context}
    {a : α} (h : p c = .ok a after) : tryCatch p handler c = .ok a after := by
  show EStateM.tryCatch p handler c = _
  delta EStateM.tryCatch
  rw [h]

theorem tryCatch_of_error {α : Type} {p : Build α} (handler : MacroError → Build α)
    {c after : Context} {e : MacroError} (h : p c = .error e after) :
    tryCatch p handler c = handler e after := by
  show EStateM.tryCatch p handler c = _
  delta EStateM.tryCatch
  rw [h]
  rfl

namespace Contributes
variable {α β : Type} {vs : Variables} {nodes after : Block}

/-- After a first part that succeeds, the second finds the same variables. -/
theorem bind {p : Build α} {next : α → Build β} {a : α} {outcome : Except MacroError β}
    (hp : p.Contributes vs nodes (.ok a)) (hnext : (next a).Contributes vs after outcome) :
    (p >>= next).Contributes vs (nodes ++ after) outcome := by
  intro c hc
  have hbindings : (c.splice nodes).bindings = vs := by rw [Context.bindings_splice, hc]
  rw [bind_of_ok next (hp c hc), Context.splice_append]
  exact hnext _ hbindings

theorem bind_error {p : Build α} {next : α → Build β} {e : MacroError}
    (hp : p.Contributes vs nodes (.error e)) : (p >>= next).Contributes vs nodes (.error e) := by
  intro c hc
  exact bind_of_error next (hp c hc)

/-- What was spliced in before a failure stays when the procedure goes on. -/
theorem caught {p : Build α} {handler : MacroError → Build α} {e : MacroError}
    {outcome : Except MacroError α} (hp : p.Contributes vs nodes (.error e))
    (hhandler : (handler e).Contributes vs after outcome) :
    (tryCatch p handler).Contributes vs (nodes ++ after) outcome := by
  intro c hc
  have hbindings : (c.splice nodes).bindings = vs := by rw [Context.bindings_splice, hc]
  rw [tryCatch_of_error handler (hp c hc), Context.splice_append]
  exact hhandler _ hbindings

theorem uncaught {p : Build α} {handler : MacroError → Build α} {a : α}
    (hp : p.Contributes vs nodes (.ok a)) : (tryCatch p handler).Contributes vs nodes (.ok a) := by
  intro c hc
  exact tryCatch_of_ok handler (hp c hc)

end Contributes

namespace Blind
variable {α β : Type}

/-- **The variables decide** what a blind procedure splices in and how it ends. -/
theorem contributes {p : Build α} (h : p.Blind) (vs : Variables) :
    ∃ nodes outcome, p.Contributes vs nodes outcome := by
  induction h with
  | pure a => exact ⟨.nil, .ok a, fun c _ => by rw [Context.splice_nil]; rfl⟩
  | throw e => exact ⟨.nil, .error e, fun c _ => by rw [Context.splice_nil]; rfl⟩
  | @operation op hop =>
    obtain ⟨answer, hrun⟩ := Run.ofBuild_blind hop vs
    exact contributes_of_run hrun
  | bind _ _ ihp ihnext =>
    obtain ⟨nodes, outcome, hp⟩ := ihp
    cases outcome with
    | error e => exact ⟨nodes, .error e, hp.bind_error⟩
    | ok a =>
      obtain ⟨after, outcome, hnext⟩ := ihnext a
      exact ⟨nodes ++ after, outcome, hp.bind hnext⟩
  | tryCatch _ _ ihp ihhandler =>
    obtain ⟨nodes, outcome, hp⟩ := ihp
    cases outcome with
    | ok a => exact ⟨nodes, .ok a, hp.uncaught⟩
    | error e =>
      obtain ⟨after, outcome, hhandler⟩ := ihhandler e
      exact ⟨nodes ++ after, outcome, hp.caught hhandler⟩

theorem map {p : Build α} (h : p.Blind) (f : α → β) : (f <$> p).Blind := by
  rw [map_eq_pure_bind]
  exact .bind h fun a => .pure (f a)

/-- A procedure is blind if it is so after its value was wrapped. -/
theorem of_map {p : Build α} {f : α → β} (h : (f <$> p).Blind) (g : β → α)
    (hg : ∀ a, g (f a) = a) : p.Blind := by
  have hp : g <$> f <$> p = p := by simp only [Functor.map_map, hg, id_map']
  rw [← hp]
  exact h.map g

theorem ofExcept (x : Except MacroError α) : (ofExcept x : Build α).Blind := by
  cases x with
  | ok a => exact .pure a
  | error e => exact .throw e

theorem var (name : String) : (Build.var name).Blind := by
  have hvar : (Operation.var name).run.Blind := .operation rfl
  exact hvar.of_map Answer.toValue fun _ => rfl

/-- Asking for a variable of some kind is blind, whatever the kind. -/
theorem fetch (kind : ValueKind) (name : String) : (Build.fetch kind name).Blind := by
  refine .bind (.var name) fun value => ?_
  cases value.read? kind with
  | none => exact .throw _
  | some a => exact .pure a

theorem runAll {ps : List (Build Unit)} (h : ∀ p ∈ ps, p.Blind) : (Macro.runAll ps).Blind := by
  induction ps with
  | nil => exact .pure ()
  | cons p ps ih =>
    obtain ⟨hp, hps⟩ := List.forall_mem_cons.mp h
    exact .bind hp fun _ => ih hps

end Blind

end Build

/-! ### Scripts -/

/-- A call runs the procedures on a context that holds nothing but the variables. -/
theorem Macro.call_eq {m : Macro} {given vs : Variables} (hvs : m.defaults.override given = .ok vs) :
    m.call given = match runAll m.procedures (.fresh vs) with
      | .ok _ c => .ok c.code
      | .error e _ => .error e := by
  unfold Macro.call
  rw [hvs]
  rfl

/-- How a run ends, its log apart. -/
def Run.ending (r : Run) : EStateM.Result MacroError Context Unit :=
  match r.failure with
  | none => .ok () r.context
  | some e => .error e r.context

namespace Action

/-- An action as a procedure. -/
def build (call : String → Variables → Called) : Action → Build Answer
  | perform op => op.run
  | withNumber name op => do (op (← Build.number name)).run
  | withText name op => do (op (← Build.text name)).run
  | withBytes name op => do (op (← Build.bytes name)).run
  | withCall callee given op => do (op (← ofExcept (call callee given).result)).run

theorem ending_run (call : String → Variables → Called) (action : Action) (c : Context) :
    (action.run call c).ending = ((fun _ => ()) <$> action.build call) c := by
  have key : ∀ (b : Build Answer) (log : List Outcome),
      ({ Run.ofBuild b c with log := log ++ (Run.ofBuild b c).log } : Run).ending =
        ((fun _ => ()) <$> b) c := by
    intro b log
    show _ = EStateM.map _ b c
    unfold Run.ofBuild EStateM.map
    cases b c <;> rfl
  cases action with
  | withCall callee given op => exact key _ (call callee given).log
  | _ => exact key _ []

/-- No operation of the action asks for a label, whatever it is made from. -/
def Blind : Action → Prop
  | perform op => op.asksLabel = false
  | withNumber _ op => ∀ n, (op n).asksLabel = false
  | withText _ op => ∀ s, (op s).asksLabel = false
  | withBytes _ op => ∀ ns, (op ns).asksLabel = false
  | withCall _ _ op => ∀ b, (op b).asksLabel = false

theorem blind_build (call : String → Variables → Called) {action : Action} (h : action.Blind) :
    (action.build call).Blind := by
  cases action with
  | perform op => exact .operation h
  | withNumber name op => exact .bind (.fetch .number name) fun n => .operation (h n)
  | withText name op => exact .bind (.fetch .text name) fun s => .operation (h s)
  | withBytes name op => exact .bind (.fetch .bytes name) fun ns => .operation (h ns)
  | withCall callee given op => exact .bind (.ofExcept _) fun b => .operation (h b)

end Action

namespace Step

/-- A step as a procedure, which goes on after a failure that is tolerated. -/
def build (call : String → Variables → Called) (step : Step) : Build Unit :=
  let p : Build Unit := (fun _ => ()) <$> step.action.build call
  if step.tolerated then tryCatch p fun _ => pure () else p

theorem build_eq (call : String → Variables → Called) (step : Step) (c : Context) :
    step.build call c =
      if (step.action.run call c).failure.isSome && !step.tolerated then
        (step.action.run call c).ending
      else .ok () (step.action.run call c).context := by
  have hending := step.action.ending_run call c
  unfold build
  cases step.tolerated with
  | false =>
    show ((fun _ => ()) <$> step.action.build call) c = _
    rw [← hending]
    unfold Run.ending
    cases (step.action.run call c).failure <;> rfl
  | true =>
    show tryCatch ((fun _ => ()) <$> step.action.build call) (fun _ => pure ()) c = _
    unfold Run.ending at hending
    cases hf : (step.action.run call c).failure with
    | none =>
      rw [hf] at hending
      exact Build.tryCatch_of_ok _ hending.symm
    | some e =>
      rw [hf] at hending
      exact Build.tryCatch_of_error _ hending.symm

/-- Steps run as procedures one after another do. -/
theorem ending_runAll (call : String → Variables → Called) (steps : List Step) (c : Context) :
    (runAll call steps c).ending = Macro.runAll (steps.map (build call)) c := by
  induction steps generalizing c with
  | nil => rfl
  | cons step rest ih =>
    show _ = EStateM.bind (step.build call) (fun _ => Macro.runAll (rest.map (build call))) c
    rw [EStateM.bind, build_eq, runAll]
    split
    · rename_i hend
      rw [Bool.and_eq_true, Option.isSome_iff_exists] at hend
      obtain ⟨⟨e, he⟩, _⟩ := hend
      simp only [Run.ending, he]
    · exact ih _

theorem blind_build (call : String → Variables → Called) {step : Step} (h : step.action.Blind) :
    (step.build call).Blind := by
  have haction := (Action.blind_build call h).map fun _ => ()
  unfold build
  split
  · exact .tryCatch haction fun _ => .pure ()
  · exact haction

end Step

namespace Script

/-- A script as a macro whose procedures run its steps. -/
def toMacro (call : String → Variables → Called) (s : Script) : Macro where
  defaults := s.defaults
  procedures := s.procedures.map fun steps => Macro.runAll (steps.map (Step.build call))

theorem ending_runProcedures (call : String → Variables → Called) (procedures : List (List Step))
    (c : Context) : (runProcedures call procedures c).ending =
      Macro.runAll (procedures.map fun steps => Macro.runAll (steps.map (Step.build call))) c := by
  induction procedures generalizing c with
  | nil => rfl
  | cons steps rest ih =>
    show _ = EStateM.bind (Macro.runAll (steps.map (Step.build call))) (fun _ => Macro.runAll _) c
    rw [EStateM.bind, ← Step.ending_runAll, runProcedures]
    cases hf : (Step.runAll call steps c).failure with
    | some e => simp [Run.ending, hf]
    | none =>
      simp only [Run.ending, hf, Option.isSome_none, Bool.false_eq_true, if_false]
      exact ih _

/-- **A script is a macro**: calls of both give the same block or the same error. -/
theorem result_call (call : String → Variables → Called) (s : Script) (given : Variables) :
    (s.call call given).result = (s.toMacro call).call given := by
  unfold Script.call
  cases hvs : s.defaults.override given with
  | error e =>
    unfold Macro.call
    rw [show (s.toMacro call).defaults = s.defaults from rfl, hvs]
    rfl
  | ok vs =>
    have hrun : Macro.runAll (s.toMacro call).procedures (.fresh vs) = _ :=
      (ending_runProcedures call s.procedures (.fresh vs)).symm
    rw [Macro.call_eq (m := s.toMacro call) hvs, hrun]
    unfold Run.ending
    dsimp only
    cases (runProcedures call s.procedures (Context.fresh vs)).failure <;> rfl

theorem blind_toMacro (call : String → Variables → Called) {s : Script}
    (h : ∀ steps ∈ s.procedures, ∀ step ∈ steps, step.action.Blind) :
    ∀ p ∈ (s.toMacro call).procedures, p.Blind := by
  intro p hp
  obtain ⟨steps, hsteps, rfl⟩ := List.mem_map.mp hp
  refine .runAll fun q hq => ?_
  obtain ⟨step, hstep, rfl⟩ := List.mem_map.mp hq
  exact Step.blind_build call (h steps hsteps step hstep)

end Script

/-! ### Calls -/

/-- **A call can be inlined.** Where the procedures of a macro ask for no label, inserting the block
that a call builds into a context with the same variables leaves the context that running the
procedures in it leaves, and a call fails as that run does. -/
theorem insert_of_call {m : Macro} (hm : ∀ p ∈ m.procedures, p.Blind) {given vs : Variables}
    (hvs : m.defaults.override given = .ok vs) {c : Context} (hc : c.bindings = vs) :
    (∀ b, m.call given = .ok b → ∃ after, Build.insert b c = .ok () after ∧
      Macro.runAll m.procedures c = .ok () after) ∧
    ∀ e, m.call given = .error e → ∃ after, Macro.runAll m.procedures c = .error e after := by
  obtain ⟨nodes, outcome, hrun⟩ := (Build.Blind.runAll hm).contributes vs
  have hcall := Macro.call_eq hvs
  rw [hrun (.fresh vs) rfl] at hcall
  cases outcome with
  | ok a =>
    have hcode : ((Context.fresh vs).splice nodes).code = nodes := Context.code_splice _ _
    have hblock : m.call given = .ok nodes := hcall.trans (congrArg Except.ok hcode)
    constructor
    · intro b hb
      cases hb.symm.trans hblock
      exact ⟨c.splice nodes, rfl, hrun c hc⟩
    · intro e he
      cases he.symm.trans hblock
  | error cause =>
    constructor
    · intro b hb
      cases hb.symm.trans hcall
    · intro e he
      cases he.symm.trans hcall
      exact ⟨c.splice nodes, hrun c hc⟩

/-- Loads a colour, tries a label whose name is not valid, and jumps to one whose name is. -/
def Script.blink : Script where
  defaults := .ofList [("color", .number 6)]
  procedures := [
    [⟨.withNumber "color" fun n => .imm .lda (.literal n), false⟩, ⟨.perform (.label "2nd"), true⟩],
    [⟨.perform (.label "beat"), false⟩, ⟨.perform (.block (.single (.label ⟨"beat", by decide⟩))), false⟩,
      ⟨.perform (.ins .jmp (.label "beat")), false⟩]]

theorem Script.blink_blind (call : String → Variables → Called) :
    ∀ p ∈ (Script.blink.toMacro call).procedures, p.Blind := by
  apply Script.blind_toMacro
  simp [Script.blink, Action.Blind, Operation.asksLabel]

/-- A context in which there is such a label already. -/
def Context.beating (color : Value) : Context :=
  ⟨.single (.label ⟨"beat", by decide⟩), ["beat"], .ofList [("color", color)]⟩

/-- The failed label plays no part, and a variable of the wrong kind ends both runs. -/
theorem blink_inlined :
    (∃ b after, (Script.blink.call (Script.callNamed []) (.ofList [("color", .number 2)])).result = .ok b ∧
      Build.insert b (.beating (.number 2)) = .ok () after ∧
      (Script.runProcedures (Script.callNamed []) Script.blink.procedures
        (.beating (.number 2))).ending = .ok () after ∧
      after.code.length = 5 ∧ after.labels = ["beat"]) ∧
    ∃ after, (Script.blink.call (Script.callNamed []) (.ofList [("color", .text "red")])).result =
        .error (.variableKind "color" .number) ∧
      (Script.runProcedures (Script.callNamed []) Script.blink.procedures
        (.beating (.text "red"))).ending = .error (.variableKind "color" .number) after := by
  simp only [Script.result_call, Script.ending_runProcedures]
  constructor
  · have hvs : Script.blink.defaults.override (.ofList [("color", .number 2)]) =
        .ok (Context.beating (.number 2)).bindings := rfl
    obtain ⟨b, hb⟩ : ∃ b, (Script.blink.toMacro (Script.callNamed [])).call
        (.ofList [("color", .number 2)]) = .ok b := ⟨_, rfl⟩
    obtain ⟨after, hinsert, hrun⟩ := (insert_of_call (Script.blink_blind _) hvs rfl).1 b hb
    refine ⟨b, after, hb, hinsert, hrun, ?_⟩
    cases hrun
    exact ⟨rfl, rfl⟩
  · have hvs : Script.blink.defaults.override (.ofList [("color", .text "red")]) =
        .ok (Context.beating (.text "red")).bindings := rfl
    have he : (Script.blink.toMacro (Script.callNamed [])).call (.ofList [("color", .text "red")]) =
        .error (.variableKind "color" .number) := rfl
    obtain ⟨after, hrun⟩ := (insert_of_call (Script.blink_blind _) hvs rfl).2 _ he
    exact ⟨after, he, hrun⟩

/-- A procedure that asks for a label can tell a fresh context from another. -/
example : Build.hasLabel "beat" (.fresh .empty) = .ok false (.fresh .empty) ∧
    Build.hasLabel "beat" (.beating (.number 2)) = .ok true (.beating (.number 2)) := ⟨rfl, rfl⟩

end Asm6502

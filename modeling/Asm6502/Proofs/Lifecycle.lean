import Asm6502.Proofs.Emission

/-! The life of an instruction.

An instruction is built once, and then calls choose its mode anew or resolve its label. A call works
on the instruction in place, and one that fails leaves it as it was, because it checks before it
writes (`Call.run_eq`). A `Life` is an instruction together with the one thing that its fields do not
show: whether its label has been resolved since it was given that label. One call keeps the two in
step (`Life.Sound.after`), so `life_invariant` can say what holds after any sequence of calls, some of
which may fail: which modes, values and modifiers occur together, and that nothing but a resolution
makes a label ready. -/
namespace Asm6502

namespace Instruction

/-! ### Calls -/

/-- A call on an instruction that was built before. -/
inductive Call where
  | withMode (mode : Mode) (argument : Argument) (modifier : Option Modifier)
  | resolve (value : Int)

/-- What a call returns. -/
def call (i : Instruction) : Call → Except InstructionError Instruction
  | .withMode mode argument modifier => i.withMode mode argument modifier
  | .resolve value => i.resolve value

/-- What a call does to the instruction that it is made on. -/
def Call.run : Call → EStateM InstructionError Instruction Unit
  | .withMode mode argument modifier => do
    let i ← get
    let j ← ofExcept (i.withMode mode argument modifier)
    set j
  | .resolve value => settle value

/-- A call leaves the instruction that it returns, and if it fails, the one that it found. -/
theorem Call.run_eq (c : Call) (i : Instruction) : c.run i = match i.call c with
    | .ok j => .ok () j
    | .error e => .error e i := by
  cases c with
  | withMode mode argument modifier =>
    rw [run, get_bind, ofExcept_bind, call]
    cases i.withMode mode argument modifier <;> rfl
  | resolve value =>
    have hrun : (Call.resolve value).run i = settle value i := rfl
    rw [hrun, call, Instruction.resolve]
    cases hsettle : settle value i with
    | ok u j => rfl
    | error e j => rw [settle_error hsettle]

def Call.isResolution : Call → Bool
  | .resolve _ => true
  | .withMode _ _ _ => false

/-- An instruction, and whether its label has been resolved since it was given that label. -/
structure Life where
  current : Instruction
  resolved : Bool

namespace Life

/-- An instruction that was just built. -/
def born (i : Instruction) : Life := ⟨i, false⟩

/-- The life after a call, with the instruction as the call leaves it. -/
def after (l : Life) (c : Call) : Life :=
  match c.run l.current with
  | .ok _ i => ⟨i, c.isResolution && i.label?.isSome⟩
  | .error _ i => ⟨i, l.resolved⟩

def run (l : Life) : List Call → Life
  | [] => l
  | c :: rest => run (l.after c) rest

theorem after_ok {l : Life} {c : Call} {i : Instruction} (h : l.current.call c = .ok i) :
    l.after c = ⟨i, c.isResolution && i.label?.isSome⟩ := by
  unfold after
  rw [Call.run_eq, h]

theorem after_error {l : Life} {c : Call} {e : InstructionError} (h : l.current.call c = .error e) :
    l.after c = l := by
  unfold after
  rw [Call.run_eq, h]

end Life

/-! ### What a call keeps -/

/-- As it is built, an instruction on a label is not ready. -/
theorem Unresolved.isReady_of_label {i : Instruction} (h : i.Unresolved) :
    (i.label?.isSome && i.isReady) = false := by
  cases h with
  | bare => rfl
  | plain _ hl _ =>
    rw [label?, hl]
    rfl
  | waiting _ _ => rfl

/-- An instruction in one of its four states, and a history that agrees with it: a label is ready
exactly when it has been resolved. -/
structure Life.Sound (l : Life) : Prop where
  state : l.current.Sound
  history : l.resolved = (l.current.label?.isSome && l.current.isReady)

theorem Life.Sound.born {i : Instruction} (h : i.Unresolved) : (Life.born i).Sound :=
  ⟨.unresolved h, h.isReady_of_label.symm⟩

theorem unresolved_of_withMode {i j : Instruction} {mode : Mode} {a : Argument} {x : Option Modifier}
    (h : i.withMode mode a x = .ok j) : j.Unresolved := by
  unfold withMode at h
  split at h
  · cases h
  · exact unresolved_of_inMode h

/-- Where resolving succeeds, a label is ready afterwards. -/
theorem isReady_of_resolve {i j : Instruction} {value : Int} (h : i.resolve value = .ok j) :
    (j.label?.isSome && j.isReady) = j.label?.isSome := by
  obtain ⟨rfl, hl | hr⟩ | ⟨_, _, _, _, _, _, _, rfl⟩ := resolve_cases h
  · rw [hl]
    rfl
  · rw [hr, Bool.and_true]
  · exact Bool.and_true _

/-- **One call** keeps state and history sound. -/
theorem Life.Sound.after {l : Life} (h : l.Sound) (c : Call) : (l.after c).Sound := by
  cases hc : l.current.call c with
  | error e =>
    rw [Life.after_error hc]
    exact h
  | ok j =>
    rw [Life.after_ok hc]
    cases c with
    | withMode mode a x =>
      have hj : j.Unresolved := unresolved_of_withMode hc
      exact ⟨.unresolved hj, hj.isReady_of_label.symm⟩
    | resolve value => exact ⟨h.state.of_resolve hc, (isReady_of_resolve hc).symm⟩

theorem Life.Sound.run {l : Life} (h : l.Sound) (calls : List Call) : (l.run calls).Sound := by
  induction calls generalizing l with
  | nil => exact h
  | cons c rest ih => exact ih (h.after c)

/-! ### What holds throughout -/

/-- The argument is a number or none, and was found to fit the mode. -/
def Validated (i : Instruction) : Prop :=
  i.label? = none ∧ ∃ mode, i.mode? = some mode ∧
    validate i.mnemonic mode i.argument.literal? = .ok i.value?

/-- What holds of an instruction at any time of its life. -/
structure Life.Invariant (l : Life) : Prop where
  /-- A mode that is chosen is one of the mnemonic's. -/
  supported : ∀ mode, l.current.mode? = some mode → l.current.mnemonic.supports mode = true
  /-- Ready are checked numbers, checked absences of a number, and resolved labels. -/
  ready_iff : l.current.isReady = true ↔
    l.current.Validated ∨ (l.current.label?.isSome = true ∧ l.resolved = true)
  /-- A ready instruction has a mode, and a value of the mode's domain, or none exactly if the mode
  has no operand. -/
  ready : l.current.isReady = true → ∃ mode, l.current.mode? = some mode ∧
    (l.current.value? = none ↔ mode.operandSize = 0) ∧
    ∀ v, l.current.value? = some v → ∃ lo hi, mode.domain = some (lo, hi) ∧ lo ≤ v ∧ v ≤ hi
  /-- Before that it has no value, and either a label and a mode or neither argument nor mode. -/
  unready : l.current.isReady = false → l.current.value? = none ∧
    ((l.current.label?.isSome = true ∧ l.current.mode?.isSome = true) ∨
      (l.current.argument = .none ∧ l.current.mode? = none))
  modifier : l.current.modifier.isSome = true → l.current.label?.isSome = true
  /-- A byte of an address is an immediate operand. -/
  byte : ∀ x, l.current.modifier = some x → x.takesByte = true → l.current.mode? = some .immediate
  /-- A label in the immediate mode has a modifier. -/
  immediate : l.current.mode? = some .immediate → l.current.label?.isSome = true →
    l.current.modifier.isSome = true

theorem operandSize_eq_zero_iff {mode : Mode} {value : Option Int} (h : mode.accepts value = true) :
    value = none ↔ mode.operandSize = 0 := by
  cases value with
  | none => simp [operandSize_of_accepts_none h]
  | some v =>
    cases mode with
    | implied => cases h
    | accumulator => cases h
    | _ => simp [Mode.operandSize]

/-- The invariant, state by state. -/
theorem Life.Sound.invariant {l : Life} (h : l.Sound) : l.Invariant := by
  obtain ⟨i, resolved⟩ := l
  obtain ⟨hstate, hhistory⟩ := h
  change resolved = (i.label?.isSome && i.isReady) at hhistory
  subst hhistory
  cases hstate with
  | unresolved hi =>
    cases hi with
    | @bare m =>
      constructor
      case supported =>
        intro mode hm
        cases hm
      case ready_iff =>
        constructor
        · intro hr
          cases hr
        · rintro (⟨_, _, hm, _⟩ | ⟨hl, _⟩)
          · cases hm
          · cases hl
      case ready =>
        intro hr
        cases hr
      case unready => exact fun _ => ⟨rfl, .inr ⟨rfl, rfl⟩⟩
      case modifier =>
        intro hx
        cases hx
      case byte =>
        intro x hx
        cases hx
      case immediate =>
        intro hm
        cases hm
    | @plain m a mode hs hl ha =>
      constructor
      case supported =>
        intro mode' hm
        cases hm
        exact hs
      case ready_iff =>
        exact ⟨fun _ => .inl ⟨hl, mode, rfl, validate_eq_ok.mpr ⟨rfl, ha⟩⟩, fun _ => rfl⟩
      case ready =>
        refine fun _ => ⟨mode, rfl, operandSize_eq_zero_iff ha, fun v hv => ?_⟩
        change a.literal? = some v at hv
        rw [hv] at ha
        exact Mode.domain_of_accepts ha
      case unready =>
        intro hr
        cases hr
      case modifier =>
        intro hx
        cases hx
      case byte =>
        intro x hx
        cases hx
      case immediate =>
        intro _ hlabel
        rw [label?, hl] at hlabel
        cases hlabel
    | @waiting m name mode x hs ht =>
      constructor
      case supported =>
        intro mode' hm
        cases hm
        exact hs
      case ready_iff =>
        constructor
        · intro hr
          cases hr
        · rintro (⟨hl, _⟩ | ⟨_, hr⟩)
          · cases hl
          · cases hr
      case ready =>
        intro hr
        cases hr
      case unready => exact fun _ => ⟨rfl, .inl ⟨rfl, rfl⟩⟩
      case modifier => exact fun _ => rfl
      case byte => exact fun y hy hb => congrArg some (ht.byte y hy hb)
      case immediate => exact fun hm _ => ht.isSome_of_immediate (Option.some.inj hm)
  | @resolved m name mode x v hs ht hv =>
    constructor
    case supported =>
      intro mode' hm
      cases hm
      exact hs
    case ready_iff => exact ⟨fun _ => .inr ⟨rfl, rfl⟩, fun _ => rfl⟩
    case ready =>
      refine fun _ => ⟨mode, rfl, operandSize_eq_zero_iff hv, fun w hw => ?_⟩
      cases hw
      exact Mode.domain_of_accepts hv
    case unready =>
      intro hr
      cases hr
    case modifier => exact fun _ => rfl
    case byte => exact fun y hy hb => congrArg some (ht.byte y hy hb)
    case immediate => exact fun hm _ => ht.isSome_of_immediate (Option.some.inj hm)

/-! ### What resolving changes -/

/-- All that one instruction shows and another shows too, value and readiness apart. -/
structure Retains (i j : Instruction) : Prop where
  mnemonic : j.mnemonic = i.mnemonic
  mode : j.mode? = i.mode?
  argument : j.argument = i.argument
  modifier : j.modifier = i.modifier
  size : j.size? = i.size?
  timing : j.timing? = i.timing?
  source : j.source = i.source

/-- What is not read off the value follows from the four fields that resolving keeps. -/
theorem Retains.of_fields {i j : Instruction} (hmnemonic : j.mnemonic = i.mnemonic)
    (hmode : j.mode? = i.mode?) (hargument : j.argument = i.argument)
    (hmodifier : j.modifier = i.modifier) : i.Retains j where
  mnemonic := hmnemonic
  mode := hmode
  argument := hargument
  modifier := hmodifier
  size := by rw [size?, hmode, size?]
  timing := by rw [timing?, hmode, hmnemonic, timing?]
  source := by
    have hrender : ∀ mode, j.renderArgument mode = i.renderArgument mode := by
      intro mode
      unfold renderArgument
      rw [hargument, hmodifier]
    simp only [Instruction.source, hmode, hmnemonic, hrender]

theorem retains_of_resolve {i j : Instruction} {value : Int} (h : i.resolve value = .ok j) :
    i.Retains j := by
  obtain ⟨rfl, _⟩ | ⟨name, mode, v, _, ho, _, _, rfl⟩ := resolve_cases h
  · exact .of_fields rfl rfl rfl rfl
  · refine .of_fields rfl ?_ rfl rfl
    rw [mode?, mode?, ho]
    rfl

theorem resolve_of_isReady {i : Instruction} (h : i.isReady = true) (value : Int) :
    i.resolve value = .ok i := by
  unfold isReady at h
  rw [resolve_eq]
  cases hl : i.label? with
  | none => rfl
  | some name =>
    cases ho : i.operand with
    | settled mode v => rfl
    | _ =>
      rw [ho] at h
      cases h

end Instruction

/-! ### The whole life -/

open Instruction

/-- **The life of an instruction.** Whatever calls follow its construction, and whichever of them
fail, the invariant holds; a call that fails changes nothing, nor does resolving what is ready; and
where resolving succeeds, only value and readiness change. -/
theorem life_invariant {i : Instruction} (hi : i.Fresh) (calls : List Call) :
    ((Life.born i).run calls).Invariant ∧
    (∀ c e, ((Life.born i).run calls).current.call c = .error e →
      ((Life.born i).run calls).after c = (Life.born i).run calls) ∧
    (((Life.born i).run calls).current.isReady = true → ∀ value,
      ((Life.born i).run calls).current.resolve value = .ok ((Life.born i).run calls).current) ∧
    ∀ value j, ((Life.born i).run calls).current.resolve value = .ok j →
      ((Life.born i).run calls).current.Retains j := by
  have hsound := (Life.Sound.born hi.unresolved).run calls
  exact ⟨hsound.invariant, fun _ _ => Life.after_error, resolve_of_isReady,
    fun _ _ => retains_of_resolve⟩

/-- A branch that is too far from its label is given another one, is refused a byte of its address,
and is resolved once. -/
theorem branch_life : ∃ i, Instruction.infer .bne (.label "loop") none = .ok i ∧
    ((Life.born i).run [.resolve 300, .withMode .relative (.label "next") (some (.offset 2)),
      .withMode .relative (.label "next") (some .lowByte), .resolve 5, .resolve 6]).current =
      ⟨.bne, .label "next", some (.offset 2), .settled .relative (some 7)⟩ ∧
    ((Life.born i).run [.resolve 300, .withMode .relative (.label "next") (some (.offset 2)),
      .withMode .relative (.label "next") (some .lowByte), .resolve 5, .resolve 6]).Invariant := by
  refine ⟨⟨.bne, .label "loop", none, .pending .relative⟩, rfl, rfl, ?_⟩
  exact (life_invariant (.inferred (m := .bne) (a := .label "loop") (x := none) rfl) _).1

end Asm6502

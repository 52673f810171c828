import Asm6502.Proofs.References

/-! When linking fails, and with which error.

Two recursive passes, each of which stops at its first error on whatever level it meets it, come to
one order: first the faults of the layout, found by one walk over all leaves (`firstFault`), then
those of the references, leaf by leaf (`Block.firstReferenceFault`). `link_outcome` says that an
origin outside the words, the first fault of the layout and the first fault of a reference decide
the error in this order, and that linking succeeds where none of them is found. -/
namespace Asm6502

/-! ### Failures -/

/-- The error of a computation that failed. -/
def failure? {ε α : Type} : Except ε α → Option ε
  | .error e => some e
  | .ok _ => none

section Failures
variable {ε α β : Type} {x : Except ε α}

theorem failure?_eq_some {e : ε} : failure? x = some e ↔ x = .error e := by
  cases x <;> simp [failure?]

theorem failure?_eq_none : failure? x = none ↔ ∃ a, x = .ok a := by
  cases x <;> simp [failure?]

/-- Of two steps, the second can only fail where the first has not. -/
theorem failure?_bind {f : α → Except ε β} {later : Option ε}
    (h : ∀ a, x = .ok a → failure? (f a) = later) :
    failure? (x >>= f) = (failure? x).or later := by
  cases x with
  | error e => rfl
  | ok a => exact h a rfl

theorem failure?_pair {γ : Type} {y : Except ε β} {f : α → β → γ} :
    failure? (do return f (← x) (← y)) = (failure? x).or (failure? y) := by
  cases x <;> cases y <;> rfl

theorem failure?_map {f : α → β} : failure? (x.map f) = failure? x := by
  cases x <;> rfl

end Failures

/-! ### Faults of references -/

/-- What is wrong with a value as an operand: the modifier is undefined on it, or the result lies
outside the domain of the mode. -/
def Instruction.valueFault? (i : Instruction) (mode : Mode) (value : Int) : Option InstructionError :=
  match i.modifiedValue? value with
  | some v => if mode.accepts (some v) then none else some (.argumentOutOfRange i.mnemonic v)
  | none => i.modifier.map fun x => .invalidModifier x value

/-- What is wrong with an instruction that waits for its label: the label means nothing at this
address beside these statements, or its value cannot be the operand. -/
def Statement.referenceFault? (own : List (Placed Statement)) (address : Nat) :
    Statement → Option LinkError
  | instruction i =>
    match i.label?, i.operand with
    | some name, .pending mode =>
      match target? own address name with
      | some target =>
        (i.valueFault? mode (Mode.reference (some mode) address target)).map (.operand i.source)
      | none => some (.unresolvedLabel name)
    | _, _ => none
  | _ => none

/-- What is wrong with the first of some references, each beside the statements on its level, that
cannot be resolved. -/
def referenceFault (sites : List (List (Placed Statement) × Placed Statement)) : Option LinkError :=
  sites.findSome? fun site => site.2.content.referenceFault? site.1 site.2.address

@[inherit_doc referenceFault]
def Block.firstReferenceFault (address : Nat) (b : Block) : Option LinkError :=
  referenceFault (b.placed address).sites

namespace Instruction

theorem modified_eq (i : Instruction) (value : Int) :
    i.modified value = match i.modifiedValue? value with
      | some v => .ok v
      | none => match i.modifier with
        | some x => .error (.invalidModifier x value)
        | none => .ok value := by
  unfold modified modifiedValue?
  cases hx : i.modifier with
  | none => rfl
  | some x =>
    cases x.apply value <;> rfl

/-- A waiting instruction fails to resolve to the values that are at fault, and to no others. -/
theorem failure_resolve {m : Mnemonic} {name : String} {mode : Mode} {x : Option Modifier}
    (ht : mode.TakesLabel x) (value : Int) :
    failure? (resolve ⟨m, .label name, x, .pending mode⟩ value) =
      valueFault? ⟨m, .label name, x, .pending mode⟩ mode value := by
  rw [resolve_waiting ht, modified_eq]
  unfold valueFault?
  cases hm : modifiedValue? ⟨m, .label name, x, .pending mode⟩ value with
  | none =>
    cases x with
    | none => cases hm
    | some y => rfl
  | some v =>
    simp only
    by_cases hv : mode.accepts (some v) = true
    · rw [if_pos hv, if_pos hv]
      rfl
    · rw [if_neg hv, if_neg hv]
      rfl

theorem failure_resolveAt {own : List (Placed Statement)} {address : Nat} {i : Instruction}
    (hi : i.Sound) : failure? (i.resolveAt (labelsOf own) address) =
      (Statement.instruction i).referenceFault? own address := by
  cases hi with
  | resolved _ _ _ => rfl
  | unresolved hi =>
    cases hi with
    | bare => rfl
    | @plain m a mode _ ha _ =>
      cases a with
      | label name => cases ha
      | _ => rfl
    | @waiting m name mode x _ ht =>
      have htarget := target_labelsOf own address name
      show failure? ((labelsOf own).target address name >>= _) =
        match target? own address name with
        | some target => Option.map _ (valueFault? _ mode (Mode.reference (some mode) address target))
        | none => some (.unresolvedLabel name)
      rw [htarget]
      cases target? own address name with
      | none => rfl
      | some target =>
        simp only [← failure_resolve ht, bind, Except.bind, mode?, Operand.mode?]
        cases resolve _ (Mode.reference (some mode) address target) <;> rfl

end Instruction

/-! ### Faults of blocks -/

/-- A statement that stands at its address emits bytes unless its reference is at fault. -/
theorem Statement.failure_emit {own : List (Placed Statement)} {address : Nat} {s : Statement}
    (hs : s.Sound) (hf : s.fault? address = none) :
    failure? (s.emit (labelsOf own) address) = s.referenceFault? own address := by
  cases s with
  | instruction i =>
    have hi := hs i rfl
    have hm : i.mode? ≠ none := by
      intro hm
      simp only [fault?, hm, if_true] at hf
      cases hf
    calc failure? (Statement.emit (labelsOf own) address (.instruction i))
      _ = (failure? (i.resolveAt (labelsOf own) address)).or none := by
        -- resolving leaves a settled operand, and then nothing is in the way of the encoding
        refine failure?_bind fun j hj => ?_
        obtain ⟨bytes, hbytes, _⟩ :=
          (hi.of_resolveAt hj).encode_of_ready (hi.isReady_of_resolveAt hm hj)
        simp only [hbytes]
        rfl
      _ = Statement.referenceFault? own address (.instruction i) := by
        rw [Option.or_none, Instruction.failure_resolveAt hi]
  | _ => rfl

theorem referenceFault_cons (own : List (Placed Statement)) (p : Placed Statement)
    (sites : List (List (Placed Statement) × Placed Statement)) :
    referenceFault ((own, p) :: sites) =
      (p.content.referenceFault? own p.address).or (referenceFault sites) := by
  simp only [referenceFault, List.findSome?_cons]
  cases p.content.referenceFault? own p.address <;> rfl

/-- Emitting the statements of a block that can be laid out fails with the first faulty reference,
on whatever levels the references lie. -/
theorem failure_emit_placed {b : Block} {address : Nat} (own : List (Placed Statement))
    (hb : ∀ s ∈ b.leaves, s.Sound) (hf : firstFault address b.leaves = none) :
    failure? (Layout.emit (labelsOf own) (b.placed address)) =
      referenceFault ((b.placed address).sitesIn own) := by
  induction b generalizing address own with
  | nil => rfl
  | item s rest ih =>
    rw [Outline.leaves, firstFault_cons, Option.or_eq_none_iff] at hf
    rw [Block.placed, Layout.emit, failure?_pair, Outline.sitesIn, referenceFault_cons,
      Statement.failure_emit (hb s (List.mem_cons_self ..)) hf.1,
      ih own (fun t ht => hb t (List.mem_cons_of_mem _ ht)) hf.2]
  | group _ inner rest ihi ihr =>
    rw [Outline.leaves, firstFault_append, Option.or_eq_none_iff] at hf
    have hi := ihi (Block.placed address inner).items
      (fun t ht => hb t (List.mem_append_left _ ht)) hf.1
    have hr := ihr own (fun t ht => hb t (List.mem_append_right _ ht)) hf.2
    rw [Block.placed, Layout.emit, failure?_pair, hi, Outline.sitesIn]
    unfold referenceFault
    rw [List.findSome?_append]
    exact congrArg _ hr

theorem failure_place {b : Block} {address : Nat} (ha : address ≤ memorySize) (labels : SymbolTable) :
    failure? (Layout.place address labels b) = firstFault address b.leaves := by
  rw [Layout.place_eq ha]
  cases firstFault address b.leaves <;> rfl

/-- Linking from an address fails with the first fault of the layout, or else of a reference. -/
theorem failure_linkFrom {b : Block} (hb : b.Reachable) {address : Nat} (ha : address ≤ memorySize) :
    failure? (b.linkFrom address) =
      (firstFault address b.leaves).or (b.firstReferenceFault address) := by
  rw [← failure_place ha .empty]
  refine failure?_bind fun l hl => ?_
  obtain ⟨_, hf, rfl⟩ := Layout.place_eq_ok.mp hl
  have hemit := failure_emit_placed (b.placed address).items (Statement.sound_of_reachable hb) hf
  calc failure? (do
        let body ← Layout.emit (b.laidOut address .empty).labels (b.laidOut address .empty).body
        return (⟨⟨address, b.stopAt address, b.labelsAt address⟩, body,
          b.redefinitions address .empty⟩ : Program))
    _ = (failure? (Layout.emit (labelsOf (b.placed address).items) (b.placed address))).or none :=
        failure?_bind fun _ _ => rfl
    _ = b.firstReferenceFault address := by rw [Option.or_none, hemit]; rfl

/-! ### Where errors come from -/

/-- The part of linking that an error comes from. -/
inductive LinkStage where
  | origin
  | layout
  | reference
  | encoding
deriving DecidableEq

def LinkError.stage : LinkError → LinkStage
  | invalidOrigin _ => .origin
  | misaligned _ _ | incompleteInstruction _ | programOverflow _ => .layout
  | unresolvedLabel _ | operand _ _ => .reference
  | encoding _ => .encoding

theorem Statement.stage_of_fault {address : Nat} {s : Statement} {e : LinkError}
    (h : s.fault? address = some e) : e.stage = .layout := by
  obtain ⟨_, _, _, hf⟩ | ⟨_, _, _, hf⟩ | ⟨_, hf⟩ := fault?_cases address s
  · cases hf.symm.trans h
    rfl
  · cases hf.symm.trans h
    rfl
  · rw [hf, Statement.overflow?] at h
    split at h
    · cases h
      rfl
    · cases h

theorem stage_of_firstFault {address : Nat} {ss : List Statement} {e : LinkError}
    (h : firstFault address ss = some e) : e.stage = .layout := by
  obtain ⟨p, _, hp⟩ := List.exists_of_findSome?_eq_some h
  exact Statement.stage_of_fault hp

theorem Statement.stage_of_referenceFault {own : List (Placed Statement)} {address : Nat}
    {s : Statement} {e : LinkError} (h : s.referenceFault? own address = some e) :
    e.stage = .reference := by
  cases s with
  | instruction i =>
    simp only [referenceFault?] at h
    split at h
    · split at h
      · obtain ⟨c, _, rfl⟩ := Option.map_eq_some_iff.mp h
        rfl
      · cases h
        rfl
    · cases h
  | _ => cases h

theorem stage_of_firstReferenceFault {address : Nat} {b : Block} {e : LinkError}
    (h : b.firstReferenceFault address = some e) : e.stage = .reference := by
  obtain ⟨site, _, hsite⟩ := List.exists_of_findSome?_eq_some h
  exact Statement.stage_of_referenceFault hsite

/-! ### The outcome of linking -/

/-- What linking a block at an origin comes to. -/
structure Block.Outcome (b : Block) (origin : Int) : Prop where
  /-- The origin has to be a word even if an alignment overrides it. -/
  invalid : b.link origin = .error (.invalidOrigin origin) ↔ ¬ (0 ≤ origin ∧ origin ≤ 0xffff)
  /-- The first leaf that cannot stand where it comes to lie decides the error. -/
  layout : 0 ≤ origin ∧ origin ≤ 0xffff → ∀ e,
    firstFault (b.startFor origin.toNat) b.leaves = some e → b.link origin = .error e
  /-- If there is none, the first reference that cannot be resolved does. -/
  reference : 0 ≤ origin ∧ origin ≤ 0xffff → firstFault (b.startFor origin.toNat) b.leaves = none →
    ∀ e, b.firstReferenceFault (b.startFor origin.toNat) = some e → b.link origin = .error e
  /-- If there is none either, the block links. -/
  success : 0 ≤ origin ∧ origin ≤ 0xffff → firstFault (b.startFor origin.toNat) b.leaves = none →
    b.firstReferenceFault (b.startFor origin.toNat) = none → ∃ p, b.link origin = .ok p
  /-- References are at fault only in blocks that can be laid out as a whole. -/
  late : ∀ e, b.link origin = .error e → e.stage = .reference →
    ∃ l, Layout.place (b.startFor origin.toNat) .empty b = .ok l

/-- The error of a link from a proper origin. -/
theorem failure_link {b : Block} (hb : b.Reachable) {origin : Int} (ho : 0 ≤ origin ∧ origin ≤ 0xffff) :
    failure? (b.link origin) = (firstFault (b.startFor origin.toNat) b.leaves).or
      (b.firstReferenceFault (b.startFor origin.toNat)) := by
  have hlt : origin.toNat < memorySize := by unfold memorySize; omega
  rw [link_of_origin ho, failure_linkFrom hb (Nat.le_of_lt (Block.startFor_lt hlt))]

/-- **The outcome of linking** is decided by the origin, then by the layout of all leaves, then by
the references, and of the faults of each kind by the first. -/
theorem link_outcome {b : Block} (hb : b.Reachable) (origin : Int) : b.Outcome origin := by
  by_cases ho : 0 ≤ origin ∧ origin ≤ 0xffff
  · have hfailure := failure_link hb ho
    constructor
    case invalid =>
      refine ⟨fun h => ?_, fun h => absurd ho h⟩
      rw [h] at hfailure
      -- neither a fault of the layout nor one of a reference is about the origin
      rcases Option.or_eq_some_iff.mp hfailure.symm with hf | ⟨_, hr⟩
      · cases stage_of_firstFault hf
      · cases stage_of_firstReferenceFault hr
    case layout =>
      intro _ e hf
      rw [hf] at hfailure
      exact failure?_eq_some.mp hfailure
    case reference =>
      intro _ hf e hr
      rw [hf, hr] at hfailure
      exact failure?_eq_some.mp hfailure
    case success =>
      intro _ hf hr
      rw [hf, hr] at hfailure
      exact failure?_eq_none.mp hfailure
    case late =>
      intro e he hstage
      rw [he] at hfailure
      have hlt : origin.toNat < memorySize := by unfold memorySize; omega
      rcases Option.or_eq_some_iff.mp hfailure.symm with hf | ⟨hf, _⟩
      · rw [stage_of_firstFault hf] at hstage
        cases hstage
      · apply failure?_eq_none.mp
        rw [failure_place (Nat.le_of_lt (Block.startFor_lt hlt)), hf]
  · have herror := link_of_no_origin (b := b) ho
    refine ⟨⟨fun _ => ho, fun _ => herror⟩, fun h => absurd h ho, fun h => absurd h ho,
      fun h => absurd h ho, fun e he hstage => ?_⟩
    rw [herror] at he
    cases he
    cases hstage

theorem countdown_outcome : Block.countdown.Outcome 0x1000 ∧
    Block.countdown.link 0x1008 = .error (.misaligned 0x1012 0x1010) ∧
    Block.countdown.link 0x10000 = .error (.invalidOrigin 0x10000) := by
  have h := link_outcome Block.countdown_fresh.reachable
  exact ⟨h 0x1000, (h 0x1008).layout (by decide) _ rfl, (h 0x10000).invalid.mpr (by decide)⟩

end Asm6502

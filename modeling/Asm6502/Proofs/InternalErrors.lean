import Asm6502.Proofs.Outcome

/-! Errors that never come up.

Some errors guard against states that no sequence of calls leads to: a byte for which a mnemonic has
no mode, a label without a mode, a mode without an opcode, and an operand that is still open when the
program is encoded. Each is kept out by something else: the table of encodings, the states that
instructions can be in, and the layout, which refuses instructions without a mode before the second
pass comes to them. `FailsOnly` says of a computation which errors it can end in, and goes from its
parts to the whole. `internal_errors_excluded` puts the chains together: constructors, resolution,
encoding and linking end in none of these errors, and where linking blames an operand, it names an
instruction of the block and one of the two reasons for which a resolution can fail. -/
namespace Asm6502

/-! ### The errors of a computation -/

/-- Every error that a computation can end in has the property. -/
def FailsOnly {ε α : Type} (P : ε → Prop) (x : Except ε α) : Prop := ∀ e, x = .error e → P e

namespace FailsOnly
variable {ε α β : Type} {P : ε → Prop} {x : Except ε α}

theorem ok (a : α) : FailsOnly P (.ok a : Except ε α) := by simp [FailsOnly]

theorem error {e : ε} (h : P e) : FailsOnly P (.error e : Except ε α) := by simpa [FailsOnly] using h

theorem bind {f : α → Except ε β} (hx : FailsOnly P x) (hf : ∀ a, x = .ok a → FailsOnly P (f a)) :
    FailsOnly P (x >>= f) := by
  cases x with
  | error e => exact .error (hx e rfl)
  | ok a => exact hf a rfl

theorem map {f : α → β} (hx : FailsOnly P x) : FailsOnly P (f <$> x) := by
  cases x with
  | error e => exact .error (hx e rfl)
  | ok a => exact .ok (f a)

end FailsOnly

/-! ### Constructors -/

/-- The errors that guard against states of instructions that there are not. -/
def InstructionError.isInternal : InstructionError → Bool
  | noByteMode _ _ | missingMode _ => true
  | _ => false

/-- A mnemonic that leaves its mode to the number has a mode for addresses. -/
theorem Mnemonic.supports_address {m : Mnemonic} (himplied : m.supports .implied = false)
    (hseveral : m.onlyMode? = none) : m.supports .zeroPage = true ∨ m.supports .absolute = true := by
  revert himplied hseveral
  cases m <;> decide

namespace Instruction

/-- A computation that fails for no internal reason. -/
abbrev FailsOpenly {α : Type} (x : Except InstructionError α) : Prop :=
  FailsOnly (fun e => e.isInternal = false) x

theorem validate_failsOpenly (m : Mnemonic) (mode : Mode) (value : Option Int) :
    FailsOpenly (validate m mode value) := by
  unfold validate
  split
  · exact .ok _
  · exact .error rfl
  · exact .error rfl
  · split
    · exact .ok _
    · exact .error rfl

/-- A byte always selects a mode of a mnemonic that leaves its mode to the number. -/
theorem inferLiteral_failsOpenly {m : Mnemonic} (himplied : m.supports .implied = false)
    (hseveral : m.onlyMode? = none) (value : Int) : FailsOpenly (inferLiteral m value) := by
  unfold inferLiteral
  split
  · exact .ok _
  · rename_i hnone
    split
    · rename_i hbyte
      rw [literalModes, if_pos hbyte] at hnone
      have haddress := Mnemonic.supports_address himplied hseveral
      simp_all
    · exact .error rfl

theorem inferMode_failsOpenly (m : Mnemonic) (value : Option Int) : FailsOpenly (inferMode m value) := by
  unfold inferMode
  split
  · exact .ok _
  · rename_i himplied
    split
    · exact .ok _
    · split
      · exact .ok _
      · exact .map (inferLiteral_failsOpenly (Bool.eq_false_iff.mpr himplied) ‹_› _)
      · exact .ok _

theorem labelMode_failsOpenly (m : Mnemonic) (label : String) : FailsOpenly (labelMode m label) := by
  unfold labelMode
  split
  · exact .ok _
  · split
    · exact .ok _
    · exact .error rfl

theorem modifiedMode_failsOpenly (m : Mnemonic) (mode : Mode) (x : Option Modifier) :
    FailsOpenly (modifiedMode m mode x) := by
  unfold modifiedMode
  split
  · split
    · split
      · exact .ok _
      · exact .error rfl
    · exact .ok _
  · exact .ok _

theorem infer_failsOpenly (m : Mnemonic) (a : Argument) (x : Option Modifier) :
    FailsOpenly (infer m a x) := by
  unfold infer
  split
  · refine .bind (labelMode_failsOpenly m _) fun mode _ => ?_
    exact .bind (modifiedMode_failsOpenly m mode x) fun _ _ => .ok _
  · refine .bind (inferMode_failsOpenly m _) fun mode _ => ?_
    have hmodifier : ∀ operand : Operand, FailsOpenly (do
        if x.isSome then throw (InstructionError.modifierWithoutLabel m)
        return (⟨m, a, none, operand⟩ : Instruction)) := by
      intro operand
      split
      · exact .error rfl
      · exact .ok _
    cases mode with
    | none => exact hmodifier _
    | some mode => exact .bind (.map (validate_failsOpenly m mode _)) fun operand _ => hmodifier operand

theorem named_failsOpenly (name : String) (a : Argument) (x : Option Modifier) :
    FailsOpenly (Instruction.named name a x) := by
  unfold Instruction.named
  split
  · exact infer_failsOpenly _ a x
  · exact .error rfl

theorem inMode_failsOpenly (m : Mnemonic) (mode : Mode) (a : Argument) (x : Option Modifier) :
    FailsOpenly (inMode m mode a x) := by
  unfold inMode
  split
  · exact .error rfl
  · split
    · split
      · exact .error rfl
      · split
        · exact .error rfl
        · exact .ok _
    · refine .bind (validate_failsOpenly m mode _) fun value _ => ?_
      split
      · exact .error rfl
      · exact .ok _

theorem withMode_failsOpenly (i : Instruction) (mode : Mode) (a : Argument) (x : Option Modifier) :
    FailsOpenly (i.withMode mode a x) := by
  unfold withMode
  split
  · exact .error rfl
  · exact inMode_failsOpenly i.mnemonic mode a x

/-! ### Resolution and encoding -/

/-- The two reasons for which the label of an instruction cannot be resolved: the value is out of
range, or the modifier is not defined on it. -/
def ResolutionError (i : Instruction) (e : InstructionError) : Prop :=
  (∃ v, e = .argumentOutOfRange i.mnemonic v) ∨
    ∃ x v, i.modifier = some x ∧ e = .invalidModifier x v

theorem resolutionError_of_valueFault {i : Instruction} {mode : Mode} {value : Int}
    {e : InstructionError} (h : i.valueFault? mode value = some e) : i.ResolutionError e := by
  unfold valueFault? at h
  split at h
  · rename_i v _
    split at h
    · cases h
    · exact .inl ⟨v, (Option.some.inj h).symm⟩
  · obtain ⟨x, hx, rfl⟩ := Option.map_eq_some_iff.mp h
    exact .inr ⟨x, value, hx, rfl⟩

theorem Sound.resolve_failsOnly {i : Instruction} (hi : i.Sound) (value : Int) :
    FailsOnly i.ResolutionError (i.resolve value) := by
  cases hi with
  | resolved _ _ _ => exact .ok _
  | unresolved hi =>
    cases hi with
    | bare => exact .ok _
    | @plain m a mode _ hl _ =>
      rw [resolve_eq, label?]
      simp only [hl]
      exact .ok _
    | waiting _ ht =>
      intro e he
      apply resolutionError_of_valueFault
      rw [← failure_resolve ht value, he]
      rfl

/-- An instruction that can be reached encodes, or waits to be settled. -/
theorem Sound.encode_failsOnly {i : Instruction} (hi : i.Sound) :
    FailsOnly (fun e => e = .notReady i.source) i.encode := by
  by_cases hr : i.isReady = true
  · obtain ⟨bytes, hbytes, _⟩ := hi.encode_of_ready hr
    rw [hbytes]
    exact .ok bytes
  · unfold encode
    split
    · rename_i ho
      simp [isReady, Operand.isSettled, ho] at hr
    · exact .error rfl

end Instruction

/-! ### Linking -/

theorem map_content_walk (address : Nat) (ss : List Statement) :
    (walk address ss).map Placed.content = ss := by
  induction ss generalizing address with
  | nil => rfl
  | cons s ss ih => simp [walk, ih]

/-- What linking says of an operand, it says of an instruction of the block. -/
def Block.Blames (b : Block) (source : String) (e : InstructionError) : Prop :=
  ∃ i, Statement.instruction i ∈ b.leaves ∧ i.source = source ∧ i.ResolutionError e

theorem Statement.operand_of_referenceFault {own : List (Placed Statement)} {address : Nat}
    {s : Statement} {source : String} {e : InstructionError}
    (h : s.referenceFault? own address = some (.operand source e)) :
    ∃ i, s = .instruction i ∧ i.source = source ∧ i.ResolutionError e := by
  cases s with
  | instruction i =>
    simp only [referenceFault?] at h
    split at h
    · split at h
      · obtain ⟨fault, hfault, herror⟩ := Option.map_eq_some_iff.mp h
        cases herror
        exact ⟨i, rfl, rfl, Instruction.resolutionError_of_valueFault hfault⟩
      · cases h
    · cases h
  | _ => cases h

theorem Block.blames_of_firstReferenceFault {b : Block} {address : Nat} {source : String}
    {e : InstructionError} (h : b.firstReferenceFault address = some (.operand source e)) :
    b.Blames source e := by
  obtain ⟨site, hsite, hfault⟩ := List.exists_of_findSome?_eq_some h
  obtain ⟨i, hi, hsource, herror⟩ := Statement.operand_of_referenceFault hfault
  refine ⟨i, ?_, hsource, herror⟩
  have hleaf : site.2 ∈ walk address b.leaves := by
    rw [← b.leaves_placed, ← Outline.map_snd_sitesIn (b.placed address).items]
    exact List.mem_map_of_mem hsite
  rw [← map_content_walk address b.leaves, ← hi]
  exact List.mem_map_of_mem hleaf

theorem Block.link_failsOnly {b : Block} (hb : b.Reachable) (origin : Int) :
    FailsOnly (fun e => e.stage ≠ .encoding ∧ ∀ source c, e = .operand source c → b.Blames source c)
      (b.link origin) := by
  intro e he
  by_cases ho : 0 ≤ origin ∧ origin ≤ 0xffff
  · have hfailure := failure_link hb ho
    rw [he] at hfailure
    rcases Option.or_eq_some_iff.mp hfailure.symm with hlayout | ⟨_, hreference⟩
    · have hstage := stage_of_firstFault hlayout
      refine ⟨by simp [hstage], fun source c hc => ?_⟩
      rw [hc] at hstage
      cases hstage
    · refine ⟨by simp [stage_of_firstReferenceFault hreference], fun source c hc => ?_⟩
      rw [hc] at hreference
      exact Block.blames_of_firstReferenceFault hreference
  · rw [link_of_no_origin ho] at he
    cases he
    exact ⟨by simp [LinkError.stage], fun source c hc => by cases hc⟩

/-! ### All together -/

open Instruction in
/-- **Internal errors are excluded.** No constructor finds a byte without a mode; no instruction that
can be reached is resolved without a mode or encoded without an opcode; and linking a block of such
instructions never ends in the encoding, and blames operands for the two reasons of a failed
resolution only. -/
theorem internal_errors_excluded :
    (∀ m a x n v, infer m a x ≠ .error (.noByteMode n v)) ∧
    (∀ name a x n v, Instruction.named name a x ≠ .error (.noByteMode n v)) ∧
    (∀ m mode a x n v, inMode m mode a x ≠ .error (.noByteMode n v)) ∧
    (∀ (i : Instruction) mode a x n v, i.withMode mode a x ≠ .error (.noByteMode n v)) ∧
    (∀ i : Instruction, i.Reachable → (∀ value m, i.resolve value ≠ .error (.missingMode m)) ∧
      ∀ source, i.encode ≠ .error (.invalidOpcode source)) ∧
    ∀ b : Block, b.Reachable → ∀ origin, (∀ e, b.link origin ≠ .error (.encoding e)) ∧
      ∀ source e, b.link origin = .error (.operand source e) →
        ((∃ m v, e = .argumentOutOfRange m v) ∨ ∃ x v, e = .invalidModifier x v) ∧
          b.Blames source e := by
  have hguard : ∀ {x : Except InstructionError Instruction} {n v}, FailsOpenly x →
      x ≠ .error (.noByteMode n v) := by
    intro x n v hx herror
    cases hx _ herror
  refine ⟨fun m a x _ _ => hguard (infer_failsOpenly m a x),
    fun name a x _ _ => hguard (named_failsOpenly name a x),
    fun m mode a x _ _ => hguard (inMode_failsOpenly m mode a x),
    fun i mode a x _ _ => hguard (withMode_failsOpenly i mode a x), fun i hi => ⟨?_, ?_⟩,
    fun b hb origin => ⟨?_, ?_⟩⟩
  · intro value m herror
    rcases hi.sound.resolve_failsOnly value _ herror with ⟨v, hv⟩ | ⟨x, v, _, hv⟩
    · cases hv
    · cases hv
  · intro source herror
    cases hi.sound.encode_failsOnly _ herror
  · intro e herror
    exact (Block.link_failsOnly hb origin _ herror).1 rfl
  · intro source e herror
    have hblames := (Block.link_failsOnly hb origin _ herror).2 source e rfl
    have ⟨i, _, _, hreason⟩ := hblames
    exact ⟨hreason.imp (fun ⟨v, hv⟩ => ⟨i.mnemonic, v, hv⟩) fun ⟨x, v, _, hv⟩ => ⟨x, v, hv⟩, hblames⟩

namespace Block

/-- Loads from an address that is divided by a number. -/
def quotient (divisor : Int) : Block :=
  .item (.label ⟨"whole", by decide⟩) <|
  single (.instruction ⟨.lda, .label "whole", some (.arithmetic .div divisor), .pending .absolute⟩)

theorem quotient_reachable (divisor : Int) : (quotient divisor).Reachable := by
  have hlda : Instruction.infer .lda (.label "whole") (some (.arithmetic .div divisor)) =
      .ok ⟨.lda, .label "whole", some (.arithmetic .div divisor), .pending .absolute⟩ := rfl
  intro i hi
  simp only [quotient, single, Outline.leaves, List.mem_cons, Statement.instruction.injEq,
    reduceCtorEq, false_or, or_false, List.not_mem_nil] at hi
  rw [hi]
  exact .fresh (.inferred hlda)

end Block

/-- A division by zero and a quotient below zero, each with its own reason. -/
theorem quotient_blamed :
    (∃ e, (Block.quotient 0).link 0x1000 = .error (.operand "lda whole/0" e) ∧
      e = .invalidModifier (.arithmetic .div 0) 0x1000 ∧ (Block.quotient 0).Blames "lda whole/0" e) ∧
    ∃ e, (Block.quotient (-1)).link 0x1000 = .error (.operand "lda whole/-1" e) ∧
      e = .argumentOutOfRange .lda (-0x1000) ∧ (Block.quotient (-1)).Blames "lda whole/-1" e := by
  have hlink : ∀ divisor, ∀ source e,
      (Block.quotient divisor).link 0x1000 = .error (.operand source e) →
        (Block.quotient divisor).Blames source e := by
    intro divisor source e h
    exact ((internal_errors_excluded.2.2.2.2.2 _ (Block.quotient_reachable divisor) 0x1000).2 _ _ h).2
  have hzero : (Block.quotient 0).link 0x1000 =
      .error (.operand "lda whole/0" (.invalidModifier (.arithmetic .div 0) 0x1000)) := rfl
  have hnegative : (Block.quotient (-1)).link 0x1000 =
      .error (.operand "lda whole/-1" (.argumentOutOfRange .lda (-0x1000))) := rfl
  exact ⟨⟨_, hzero, rfl, hlink 0 _ _ hzero⟩, _, hnegative, rfl, hlink (-1) _ _ hnegative⟩

end Asm6502

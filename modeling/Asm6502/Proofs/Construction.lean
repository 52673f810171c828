import Asm6502.Block

/-! The instructions that can be built.

An instruction is `Fresh` as a constructor leaves it, and `Reachable` after any changes of its mode
and any resolutions. Only four states are ever reached (`Reachable.sound`): bare, with neither
argument nor mode; plain, with a checked number or none; waiting for a label; and resolved. The
mode is always one that the mnemonic has, and a settled value always lies in the domain of its
mode. So a settled instruction encodes, to as many bytes as its mode says
(`Sound.encode_of_ready`), and resolving fails for two reasons only (`resolve_waiting`). -/
namespace Asm6502

/-- Two steps succeed together when the first does and the second does on its result. -/
theorem bind_eq_ok {ε α β : Type} {x : Except ε α} {f : α → Except ε β} {r : β} :
    x >>= f = .ok r ↔ ∃ a, x = .ok a ∧ f a = .ok r := by
  cases x with
  | error e => simp [bind, Except.bind]
  | ok a => simp [bind, Except.bind]

theorem map_eq_ok {ε α β : Type} {x : Except ε α} {f : α → β} {r : β} :
    f <$> x = .ok r ↔ ∃ a, x = .ok a ∧ f a = r := by
  cases x with
  | error e => simp [Functor.map, Except.map]
  | ok a => simp [Functor.map, Except.map]

section Procedures
variable {ε σ α β : Type} {p : EStateM ε σ α} {s after : σ}

theorem get_bind (next : σ → EStateM ε σ α) (s : σ) : (get >>= next) s = next s s := rfl

/-- A check in front of a procedure reads and writes nothing. -/
theorem ofExcept_bind (x : Except ε α) (next : α → EStateM ε σ β) (s : σ) :
    (ofExcept x >>= next) s = match x with
      | .ok a => next a s
      | .error e => .error e s := by
  cases x <;> rfl

theorem bind_of_ok (next : α → EStateM ε σ β) {a : α} (h : p s = .ok a after) :
    (p >>= next) s = next a after := by
  show EStateM.bind p next s = _
  rw [EStateM.bind, h]

theorem bind_of_error (next : α → EStateM ε σ β) {e : ε} (h : p s = .error e after) :
    (p >>= next) s = .error e after := by
  show EStateM.bind p next s = _
  rw [EStateM.bind, h]

end Procedures

/-! ### Values of operands -/

/-- Can an operand in this mode have the value? A mode without operand has none. -/
def Mode.accepts (mode : Mode) (value : Option Int) : Bool :=
  match mode.domain, value with
  | none, none => true
  | some (lo, hi), some v => lo ≤ v && v ≤ hi
  | _, _ => false

theorem Mode.accepts_iff {mode : Mode} {lo hi : Int} (h : mode.domain = some (lo, hi)) (v : Int) :
    mode.accepts (some v) = true ↔ lo ≤ v ∧ v ≤ hi := by
  unfold Mode.accepts
  rw [h]
  simp

theorem Mode.domain_of_accepts {mode : Mode} {v : Int} (h : mode.accepts (some v) = true) :
    ∃ lo hi, mode.domain = some (lo, hi) ∧ lo ≤ v ∧ v ≤ hi := by
  cases hd : mode.domain with
  | none =>
    unfold Mode.accepts at h
    rw [hd] at h
    cases h
  | some d => exact ⟨d.1, d.2, rfl, (Mode.accepts_iff hd v).mp h⟩

/-- The modes and modifiers that go with a label: a byte of an address is an immediate operand,
and a label in the immediate mode has a modifier. -/
structure Mode.TakesLabel (mode : Mode) (modifier : Option Modifier) : Prop where
  admits : mode.admitsLabel = true ∨ (mode = .immediate ∧ modifier.isSome = true)
  byte : ∀ x, modifier = some x → x.takesByte = true → mode = .immediate

/-- A mode that goes with a label has an operand. -/
theorem Mode.TakesLabel.domain_isSome {mode : Mode} {modifier : Option Modifier}
    (h : mode.TakesLabel modifier) : ∃ lo hi, mode.domain = some (lo, hi) := by
  cases hd : mode.domain with
  | some d => exact ⟨d.1, d.2, rfl⟩
  | none =>
    rcases h.admits with ha | ⟨rfl, _⟩
    · cases mode with
      | implied => cases ha
      | accumulator => cases ha
      | _ => cases hd
    · cases hd

theorem Mode.TakesLabel.isSome_of_immediate {mode : Mode} {modifier : Option Modifier}
    (h : mode.TakesLabel modifier) (hm : mode = .immediate) : modifier.isSome = true := by
  subst hm
  exact h.admits.elim (fun ha => nomatch ha) And.right

namespace Instruction

theorem validate_eq_ok {m : Mnemonic} {mode : Mode} {value w : Option Int} :
    validate m mode value = .ok w ↔ w = value ∧ mode.accepts value = true := by
  unfold validate Mode.accepts
  cases mode.domain with
  | none => cases value <;> simp [eq_comm]
  | some d =>
    obtain ⟨lo, hi⟩ := d
    cases value with
    | none => simp
    | some v =>
      by_cases h : lo ≤ v ∧ v ≤ hi
      · simp [h, eq_comm]
      · simp [h]

/-- A number outside the domain is named in the failure. -/
theorem validate_outside {m : Mnemonic} {mode : Mode} {lo hi v : Int}
    (hd : mode.domain = some (lo, hi)) (hv : ¬ mode.accepts (some v) = true) :
    validate m mode (some v) = .error (.argumentOutOfRange m v) := by
  rw [Mode.accepts_iff hd] at hv
  unfold validate
  rw [hd]
  exact if_neg hv

/-! ### States -/

/-- An instruction as a constructor leaves it. -/
inductive Fresh : Instruction → Prop where
  | inferred {m a x i} : infer m a x = .ok i → Fresh i
  | named {s a x i} : Instruction.named s a x = .ok i → Fresh i
  | inMode {m mode a x i} : Instruction.inMode m mode a x = .ok i → Fresh i

/-- An instruction after any number of changes of mode and resolutions. -/
inductive Reachable : Instruction → Prop where
  | fresh {i} : Fresh i → Reachable i
  | withMode {i mode a x j} : Reachable i → i.withMode mode a x = .ok j → Reachable j
  | resolve {i value j} : Reachable i → i.resolve value = .ok j → Reachable j

/-- The three states that a constructor can leave. -/
inductive Unresolved : Instruction → Prop where
  | bare {m} : Unresolved ⟨m, .none, none, .undecided⟩
  | plain {m a mode} : m.supports mode = true → a.label? = none → mode.accepts a.literal? = true →
      Unresolved ⟨m, a, none, .settled mode a.literal?⟩
  | waiting {m name mode x} : m.supports mode = true → mode.TakesLabel x →
      Unresolved ⟨m, .label name, x, .pending mode⟩

/-- The states of an instruction: as constructed, or resolved to a value of the domain. -/
inductive Sound : Instruction → Prop where
  | unresolved {i} : Unresolved i → Sound i
  | resolved {m name mode x v} : m.supports mode = true → mode.TakesLabel x →
      mode.accepts (some v) = true → Sound ⟨m, .label name, x, .settled mode (some v)⟩

/-! ### Constructors -/

theorem labelMode_spec {m : Mnemonic} {name : String} {mode : Mode} (h : labelMode m name = .ok mode) :
    m.supports mode = true ∧ mode.admitsLabel = true := by
  unfold labelMode at h
  split at h
  · cases h
    exact ⟨‹_›, rfl⟩
  · split at h
    · cases h
      exact ⟨‹_›, rfl⟩
    · cases h

theorem modifiedMode_spec {m : Mnemonic} {mode mode' : Mode} {x : Option Modifier}
    (hs : m.supports mode = true) (ha : mode.admitsLabel = true)
    (h : modifiedMode m mode x = .ok mode') : m.supports mode' = true ∧ mode'.TakesLabel x := by
  unfold modifiedMode at h
  split at h
  · split at h
    · split at h
      · cases h
        exact ⟨‹_›, .inr ⟨rfl, rfl⟩, fun _ _ _ => rfl⟩
      · cases h
    · rename_i y hy
      cases h
      refine ⟨hs, .inl ha, fun z hz hb => ?_⟩
      cases hz
      exact absurd hb hy
  · cases h
    exact ⟨hs, .inl ha, fun z hz _ => nomatch hz⟩

theorem supports_of_onlyMode {m : Mnemonic} {mode : Mode} (h : m.onlyMode? = some mode) :
    m.supports mode = true := by
  unfold Mnemonic.onlyMode? at h
  split at h
  · rename_i e he
    cases h
    simp [Mnemonic.supports, Mnemonic.encoding?, he]
  · cases h

theorem supports_of_inferLiteral {m : Mnemonic} {v : Int} {mode : Mode}
    (h : inferLiteral m v = .ok mode) : m.supports mode = true := by
  unfold inferLiteral at h
  split at h
  · rename_i found hfind
    cases h
    exact List.find?_some hfind
  · split at h <;> cases h

/-- Every mode that is chosen for a number, or for none, is one of the mnemonic's. -/
theorem supports_of_inferMode {m : Mnemonic} {value : Option Int} {mode : Mode}
    (h : inferMode m value = .ok (some mode)) : m.supports mode = true := by
  unfold inferMode at h
  split at h
  · cases h
    assumption
  · split at h
    · cases h
      exact And.right ‹_›
    · split at h
      · cases h
        exact supports_of_onlyMode ‹_›
      · obtain ⟨found, hfound, hmode⟩ := map_eq_ok.mp h
        cases hmode
        exact supports_of_inferLiteral hfound
      · cases h

/-- Only a missing number can leave the mode open. -/
theorem inferMode_none {m : Mnemonic} {value : Option Int} (h : inferMode m value = .ok none) :
    value = none := by
  unfold inferMode at h
  split at h
  · cases h
  · split at h
    · cases h
    · split at h
      · cases h
      · obtain ⟨mode, _, hm⟩ := map_eq_ok.mp h
        cases hm
      · rfl

theorem unresolved_of_infer {m : Mnemonic} {a : Argument} {x : Option Modifier} {i : Instruction}
    (h : infer m a x = .ok i) : Unresolved i := by
  unfold infer at h
  split at h
  · obtain ⟨mode, hmode, h⟩ := bind_eq_ok.mp h
    obtain ⟨mode', hmode', h⟩ := bind_eq_ok.mp h
    obtain ⟨hs, ha⟩ := labelMode_spec hmode
    obtain ⟨hs', ht⟩ := modifiedMode_spec hs ha hmode'
    cases h
    exact .waiting hs' ht
  · rename_i hlabel
    have hl : a.label? = none := by
      cases a with
      | label name => exact absurd rfl (hlabel name)
      | _ => rfl
    obtain ⟨mode, hmode, h⟩ := bind_eq_ok.mp h
    -- The modifier is refused only after the operand has been checked.
    by_cases hx : x.isSome = true
    · simp only [hx, if_true] at h
      cases mode <;> (obtain ⟨_, _, h⟩ := bind_eq_ok.mp h; cases h)
    · simp only [hx] at h
      cases mode with
      | none =>
        cases h
        cases a with
        | none => exact .bare
        | literal v => cases inferMode_none hmode
        | label name => cases hl
      | some mode =>
        obtain ⟨operand, hoperand, h⟩ := bind_eq_ok.mp h
        obtain ⟨value, hvalue, rfl⟩ := map_eq_ok.mp hoperand
        obtain ⟨rfl, haccept⟩ := validate_eq_ok.mp hvalue
        cases h
        exact .plain (supports_of_inferMode hmode) hl haccept

theorem unresolved_of_inMode {m : Mnemonic} {mode : Mode} {a : Argument} {x : Option Modifier}
    {i : Instruction} (h : inMode m mode a x = .ok i) : Unresolved i := by
  unfold inMode at h
  split at h
  · cases h
  · rename_i hs
    have hs : m.supports mode = true := by simpa using hs
    split at h
    · split at h
      · cases h
      · split at h
        · cases h
        · rename_i name hadmit hbyte
          cases h
          refine .waiting hs ⟨?_, fun y hy hb => ?_⟩
          · have hadmit : (mode.admitsLabel || (x.isSome && decide (mode = .immediate))) = true := by
              rw [← Bool.not_eq_false']
              exact Bool.eq_false_iff.mpr hadmit
            rw [Bool.or_eq_true, Bool.and_eq_true, decide_eq_true_eq] at hadmit
            exact hadmit.imp_right And.symm
          · subst hy
            simpa [hb] using hbyte
    · rename_i hlabel
      have hl : a.label? = none := by
        cases a with
        | label name => exact absurd rfl (hlabel name)
        | _ => rfl
      obtain ⟨value, hvalue, h⟩ := bind_eq_ok.mp h
      obtain ⟨rfl, haccept⟩ := validate_eq_ok.mp hvalue
      by_cases hx : x.isSome = true
      · simp only [hx, if_true] at h
        cases h
      · simp only [hx] at h
        cases h
        exact .plain hs hl haccept

theorem Fresh.unresolved {i : Instruction} (h : Fresh i) : Unresolved i := by
  cases h with
  | inferred h => exact unresolved_of_infer h
  | named h =>
    unfold Instruction.named at h
    split at h
    · exact unresolved_of_infer h
    · cases h
  | inMode h => exact unresolved_of_inMode h

/-! ### Resolution -/

/-- What settling leaves, step by step. -/
theorem settle_eq (value : Int) (i : Instruction) : settle value i = match i.label?, i.operand with
    | none, _ => .ok () i
    | some _, .settled _ _ => .ok () i
    | some _, .undecided => .error (.missingMode i.mnemonic) i
    | some _, .pending mode => match i.modified value with
      | .error e => .error e i
      | .ok v => match validate i.mnemonic mode (some v) with
        | .error e => .error e i
        | .ok value => .ok () { i with operand := .settled mode value } := by
  rw [settle, get_bind]
  cases i.label? with
  | none => rfl
  | some name =>
    cases i.operand with
    | settled mode v => rfl
    | undecided => rfl
    | pending mode =>
      simp only [ofExcept_bind]
      cases i.modified value with
      | error e => rfl
      | ok v =>
        simp only
        cases validate i.mnemonic mode (some v) <;> rfl

/-- **Nothing is written before the last check**: where settling fails, the instruction is as it was. -/
theorem settle_error {i j : Instruction} {value : Int} {e : InstructionError}
    (h : settle value i = .error e j) : j = i := by
  rw [settle_eq] at h
  split at h
  · cases h
  · cases h
  · cases h
    rfl
  · split at h
    · cases h
      rfl
    · split at h
      · cases h
        rfl
      · cases h

theorem resolve_eq (i : Instruction) (value : Int) : i.resolve value = match i.label?, i.operand with
    | none, _ => .ok i
    | some _, .settled _ _ => .ok i
    | some _, .undecided => .error (.missingMode i.mnemonic)
    | some _, .pending mode => do
      let v ← i.modified value
      let value ← validate i.mnemonic mode (some v)
      return { i with operand := .settled mode value } := by
  rw [resolve, settle_eq]
  cases i.label? with
  | none => rfl
  | some name =>
    cases i.operand with
    | settled mode v => rfl
    | undecided => rfl
    | pending mode =>
      cases i.modified value with
      | error e => rfl
      | ok v =>
        simp only [bind, Except.bind]
        cases validate i.mnemonic mode (some v) <;> rfl

/-- A waiting instruction resolves when its modifier is defined on the value and the result lies
in the domain; the failure says which of the two was missing. -/
theorem resolve_waiting {m : Mnemonic} {name : String} {mode : Mode} {x : Option Modifier}
    (ht : mode.TakesLabel x) (value : Int) :
    resolve ⟨m, .label name, x, .pending mode⟩ value =
      match modified ⟨m, .label name, x, .pending mode⟩ value with
      | .error e => .error e
      | .ok v =>
        if mode.accepts (some v) then .ok ⟨m, .label name, x, .settled mode (some v)⟩
        else .error (.argumentOutOfRange m v) := by
  obtain ⟨lo, hi, hd⟩ := ht.domain_isSome
  rw [resolve_eq]
  show (modified _ value >>= _) = _
  cases modified ⟨m, .label name, x, .pending mode⟩ value with
  | error e => rfl
  | ok v =>
    show (validate m mode (some v) >>= _) = _
    by_cases hv : mode.accepts (some v) = true
    · rw [validate_eq_ok.mpr ⟨rfl, hv⟩]
      simp only [if_pos hv]
      rfl
    · rw [validate_outside hd hv]
      simp only [if_neg hv]
      rfl

theorem Sound.of_resolve {i j : Instruction} {value : Int} (hi : Sound i)
    (h : i.resolve value = .ok j) : Sound j := by
  cases hi with
  | resolved hs ht hv =>
    cases h
    exact .resolved hs ht hv
  | unresolved hi =>
    cases hi with
    | bare =>
      cases h
      exact .unresolved .bare
    | @plain m a mode hs hl hv =>
      have hj : (⟨m, a, none, .settled mode a.literal?⟩ : Instruction) = j := by
        cases a with
        | label name => cases hl
        | _ => cases h; rfl
      rw [← hj]
      exact .unresolved (.plain hs hl hv)
    | waiting hs ht =>
      rw [resolve_waiting ht] at h
      split at h
      · cases h
      · split at h
        · cases h
          exact .resolved hs ht ‹_›
        · cases h

/-- **Every instruction that can be reached is in one of the four states.** -/
theorem Reachable.sound {i : Instruction} (h : Reachable i) : Sound i := by
  induction h with
  | fresh h => exact .unresolved h.unresolved
  | withMode _ h _ =>
    unfold Instruction.withMode at h
    split at h
    · cases h
    · exact .unresolved (unresolved_of_inMode h)
  | resolve _ h ih => exact ih.of_resolve h

/-! ### Encoding -/

theorem operandBytes_length (mode : Mode) (v : Int) :
    (operandBytes mode.operandSize v).length = mode.operandSize := by
  cases mode <;> rfl

theorem operandSize_of_accepts_none {mode : Mode} (h : mode.accepts none = true) :
    mode.operandSize = 0 := by
  cases mode with
  | implied => rfl
  | accumulator => rfl
  | _ => cases h

/-- The encoding of a settled instruction: the opcode of its mnemonic and mode, then the operand. -/
theorem encode_settled {m : Mnemonic} {mode : Mode} (hs : m.supports mode = true) :
    ∃ e, m.encoding? mode = some e ∧ ∀ a x value, encode ⟨m, a, x, .settled mode value⟩ =
      .ok (e.opcode :: value.elim [] (operandBytes mode.operandSize)) := by
  obtain ⟨e, he⟩ := Option.isSome_iff_exists.mp hs
  refine ⟨e, he, fun a x value => ?_⟩
  unfold encode
  simp only [he]
  cases value <;> rfl

/-- A settled instruction encodes to as many bytes as its mode says. -/
theorem Sound.encode_of_ready {i : Instruction} (hi : Sound i) (hr : i.isReady = true) :
    ∃ bytes, i.encode = .ok bytes ∧ i.size? = some bytes.length := by
  have key : ∀ {m : Mnemonic} {a x mode value}, m.supports mode = true → mode.accepts value = true →
      ∃ bytes, encode ⟨m, a, x, .settled mode value⟩ = .ok bytes ∧
        size? ⟨m, a, x, .settled mode value⟩ = some bytes.length := by
    intro m a x mode value hs hv
    obtain ⟨e, _, he⟩ := encode_settled hs
    refine ⟨_, he a x value, ?_⟩
    show some (1 + mode.operandSize) = _
    cases value with
    | none => rw [operandSize_of_accepts_none hv]; rfl
    | some v =>
      rw [Option.elim_some, List.length_cons, operandBytes_length, Nat.add_comm]
  cases hi with
  | resolved hs _ hv => exact key hs hv
  | unresolved hi =>
    cases hi with
    | bare => cases hr
    | plain hs _ hv => exact key hs hv
    | waiting _ _ => cases hr

end Instruction

/-- The two bytes of a word give the word back. -/
theorem Word.littleEndian_value {n : Nat} (h : n ≤ 0xffff) :
    ∃ low high : UInt8, Word.littleEndian n = [low, high] ∧ low.toNat + 256 * high.toNat = n := by
  refine ⟨_, _, rfl, ?_⟩
  rw [UInt8.toNat_ofNat', UInt8.toNat_ofNat']
  omega

/-! ### Blocks -/

namespace Block

/-- All instructions are as a constructor leaves them. -/
def Fresh (b : Block) : Prop := ∀ i, Statement.instruction i ∈ b.leaves → i.Fresh

/-- All instructions are as constructors, changes of mode and resolutions leave them. -/
def Reachable (b : Block) : Prop := ∀ i, Statement.instruction i ∈ b.leaves → i.Reachable

theorem Fresh.reachable {b : Block} (h : b.Fresh) : b.Reachable := fun i hi => .fresh (h i hi)

/-- A program with a loop in a block of its own, references back and ahead, a gap and data. -/
def countdown : Block :=
  .item (.label ⟨"start", by decide⟩) <|
  .item (.instruction ⟨.ldx, .literal 3, none, .settled .immediate (some 3)⟩) <|
  .group () (
    .item (.label ⟨"loop", by decide⟩) <|
    .item (.instruction ⟨.dex, .none, none, .settled .implied none⟩) <|
    .item (.instruction ⟨.bne, .label "loop", none, .pending .relative⟩) .nil) <|
  .item (.instruction ⟨.lda, .label "table", some .lowByte, .pending .immediate⟩) <|
  .item (.instruction ⟨.jmp, .label "start", none, .pending .absolute⟩) <|
  .item (.align ⟨0x1010⟩) <|
  .item (.label ⟨"table", by decide⟩) <|
  .item (.data (Data.ofBytes [1, 2, 3])) .nil

theorem countdown_fresh : countdown.Fresh := by
  have hldx : Instruction.inMode .ldx .immediate (.literal 3) none =
      .ok ⟨.ldx, .literal 3, none, .settled .immediate (some 3)⟩ := rfl
  have hdex : Instruction.infer .dex .none none =
      .ok ⟨.dex, .none, none, .settled .implied none⟩ := rfl
  have hbne : Instruction.infer .bne (.label "loop") none =
      .ok ⟨.bne, .label "loop", none, .pending .relative⟩ := rfl
  have hlda : Instruction.infer .lda (.label "table") (some .lowByte) =
      .ok ⟨.lda, .label "table", some .lowByte, .pending .immediate⟩ := rfl
  have hjmp : Instruction.infer .jmp (.label "start") none =
      .ok ⟨.jmp, .label "start", none, .pending .absolute⟩ := rfl
  intro i hi
  simp only [countdown, Outline.leaves, List.cons_append, List.nil_append, List.mem_cons,
    Statement.instruction.injEq, reduceCtorEq, false_or, or_false, List.not_mem_nil] at hi
  rcases hi with rfl | rfl | rfl | rfl | rfl
  · exact .inMode hldx
  · exact .inferred hdex
  · exact .inferred hbne
  · exact .inferred hlda
  · exact .inferred hjmp

end Block

end Asm6502

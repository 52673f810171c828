import Asm6502.Proofs.Construction

/-! Inferred and explicit modes.

An instruction can be built with a mode or without one, and then its mode is inferred. Both ways
check the same things in another order. What was inferred is what naming the inferred mode builds
(`inMode_of_infer`), since an instruction as built holds all that its construction depends on. For a
bare number, the cases of the inference come down to one search (`infer_literal`): the first of four
modes, the shorter encodings before the longer, that the mnemonic has and in which the number fits.
That this is so hangs on the table of encodings; `infer_agrees` says what follows from it. -/
namespace Asm6502

namespace Instruction

/-! ### The mode that was inferred, named -/

theorem infer_keeps {m : Mnemonic} {a : Argument} {x : Option Modifier} {i : Instruction}
    (h : infer m a x = .ok i) : i.mnemonic = m ∧ i.argument = a ∧ i.modifier = x := by
  unfold infer at h
  split at h
  · obtain ⟨mode, _, h⟩ := bind_eq_ok.mp h
    obtain ⟨mode', _, h⟩ := bind_eq_ok.mp h
    cases h
    exact ⟨rfl, rfl, rfl⟩
  · obtain ⟨mode, _, h⟩ := bind_eq_ok.mp h
    cases x with
    | some x => cases mode <;> (obtain ⟨_, _, h⟩ := bind_eq_ok.mp h; cases h)
    | none => cases mode <;> (obtain ⟨_, _, h⟩ := bind_eq_ok.mp h; cases h; exact ⟨rfl, rfl, rfl⟩)

theorem inMode_label {m : Mnemonic} {mode : Mode} {x : Option Modifier} (hs : m.supports mode = true)
    (ht : mode.TakesLabel x) (name : String) :
    inMode m mode (.label name) x = .ok ⟨m, .label name, x, .pending mode⟩ := by
  have hadmits : (mode.admitsLabel || (x.isSome && decide (mode = .immediate))) = true := by
    rw [Bool.or_eq_true, Bool.and_eq_true, decide_eq_true_eq]
    exact ht.admits.imp_right And.symm
  have hbyte : (x.any Modifier.takesByte && decide (mode ≠ .immediate)) = false := by
    cases x with
    | none => rfl
    | some y => cases hy : y.takesByte <;> simp [hy, ht.byte y rfl]
  simp only [inMode, hs, hadmits, hbyte]
  rfl

theorem inMode_plain {m : Mnemonic} {mode : Mode} {a : Argument} (hs : m.supports mode = true)
    (hl : a.label? = none) (ha : mode.accepts a.literal? = true) :
    inMode m mode a none = .ok ⟨m, a, none, .settled mode a.literal?⟩ := by
  have hvalue : validate m mode a.literal? = .ok a.literal? := validate_eq_ok.mpr ⟨rfl, ha⟩
  unfold inMode
  rw [hs]
  cases a with
  | label name => cases hl
  | _ =>
    show (validate m mode _ >>= _) = _
    rw [hvalue]
    rfl

/-- An instruction as built is built again from its parts and its mode. -/
theorem Unresolved.inMode_eq {i : Instruction} {mode : Mode} (hi : i.Unresolved)
    (hm : i.mode? = some mode) : inMode i.mnemonic mode i.argument i.modifier = .ok i := by
  cases hi with
  | bare => cases hm
  | plain hs hl ha =>
    cases hm
    exact inMode_plain hs hl ha
  | waiting hs ht =>
    cases hm
    exact inMode_label hs ht _

theorem inMode_of_infer {m : Mnemonic} {a : Argument} {x : Option Modifier} {i : Instruction}
    {mode : Mode} (h : infer m a x = .ok i) (hm : i.mode? = some mode) : inMode m mode a x = .ok i := by
  obtain ⟨rfl, rfl, rfl⟩ := infer_keeps h
  exact (unresolved_of_infer h).inMode_eq hm

end Instruction

/-! ### The mode of a bare number -/

/-- The modes that a bare number can be meant in: the shorter encodings first, and of these the zero
page first. -/
def Mode.direct : List Mode := [.zeroPage, .immediate, .relative, .absolute]

/-- The mode is one that a bare number can be meant in, the mnemonic has it, and the number fits. -/
structure Mnemonic.Takes (m : Mnemonic) (v : Int) (mode : Mode) : Prop where
  direct : mode ∈ Mode.direct
  supported : m.supports mode = true
  accepted : mode.accepts (some v) = true

namespace Mnemonic

/-- The first mode that the mnemonic takes the number in. -/
def directMode? (m : Mnemonic) (v : Int) : Option Mode :=
  Mode.direct.find? fun mode => m.supports mode && mode.accepts (some v)

theorem takes_of_directMode {m : Mnemonic} {v : Int} {mode : Mode} (h : m.directMode? v = some mode) :
    m.Takes v mode := by
  have hfound := List.find?_some h
  rw [Bool.and_eq_true] at hfound
  exact ⟨List.mem_of_find?_eq_some h, hfound.1, hfound.2⟩

theorem directMode?_eq_none {m : Mnemonic} {v : Int} :
    m.directMode? v = none ↔ ∀ mode, ¬ m.Takes v mode := by
  unfold directMode?
  rw [List.find?_eq_none]
  constructor
  · intro h mode ht
    exact h mode ht.direct (by rw [ht.supported, ht.accepted]; rfl)
  · intro h mode hmem hboth
    rw [Bool.and_eq_true] at hboth
    exact h mode ⟨hmem, hboth.1, hboth.2⟩

/-- No mode that takes the number is shorter than the first one. -/
theorem size_directMode {m : Mnemonic} {v : Int} {mode other : Mode} (h : m.directMode? v = some mode)
    (ho : m.Takes v other) : mode.operandSize ≤ other.operandSize := by
  have hsorted : Mode.direct.Pairwise fun a b => a.operandSize ≤ b.operandSize := by decide
  obtain ⟨_, before, after, hsplit, hbefore⟩ := List.find?_eq_some_iff_append.mp h
  have hmem := ho.direct
  rw [hsplit] at hsorted hmem
  rcases List.mem_append.mp hmem with hmem | hmem
  · have hnot := hbefore other hmem
    rw [ho.supported, ho.accepted] at hnot
    cases hnot
  · rcases List.mem_cons.mp hmem with rfl | hmem
    · exact Nat.le_refl _
    · exact List.rel_of_pairwise_cons (List.pairwise_append.mp hsorted).2.1 hmem

/-- A number that fits in a byte fits in the zero page, which comes first. -/
theorem directMode_ne_immediate {m : Mnemonic} {v : Int} (hzero : m.supports .zeroPage = true) :
    m.directMode? v ≠ some .immediate := by
  intro h
  have haccepted : Mode.zeroPage.accepts (some v) = true := (takes_of_directMode h).accepted
  simp [directMode?, Mode.direct, hzero, haccepted] at h

/-! What the inference takes from the table of encodings. -/

theorem supports_iff_of_onlyMode {m : Mnemonic} {mode : Mode} (h : m.onlyMode? = some mode)
    (other : Mode) : m.supports other = true ↔ other = mode := by
  unfold onlyMode? at h
  split at h
  · rename_i e he
    cases h
    by_cases ho : e.mode = other
    · simp [supports, encoding?, he, ho]
    · simp [supports, encoding?, he, ho, Ne.symm ho]
  · cases h

theorem onlyMode_of_implied {m : Mnemonic} (h : m.supports .implied = true) :
    m.onlyMode? = some .implied := by
  revert h
  cases m <;> decide

/-- The other mnemonics are branches, a jump with one mode, and those that can go to an address. -/
theorem modes_of_not_implied {m : Mnemonic} (h : m.supports .implied = false) :
    m.onlyMode? = some .relative ∨ m.onlyMode? = some .absolute ∨
      (m.onlyMode? = none ∧ m.supports .absolute = true ∧ m.supports .relative = false) := by
  revert h
  cases m <;> decide

theorem directMode?_of_onlyMode {m : Mnemonic} {mode : Mode} (h : m.onlyMode? = some mode) (v : Int) :
    m.directMode? v =
      if mode ∈ Mode.direct ∧ mode.accepts (some v) = true then some mode else none := by
  cases hd : m.directMode? v with
  | some found =>
    have ht := takes_of_directMode hd
    cases (supports_iff_of_onlyMode h found).mp ht.supported
    rw [if_pos ⟨ht.direct, ht.accepted⟩]
  | none =>
    have hnone := directMode?_eq_none.mp hd mode
    rw [if_neg fun hm => hnone ⟨hm.1, (supports_iff_of_onlyMode h mode).mpr rfl, hm.2⟩]

end Mnemonic

namespace Instruction

/-! ### The search -/

/-- A number in the mode that was inferred for it. -/
theorem infer_of_inferMode {m : Mnemonic} {v : Int} {mode : Mode}
    (h : inferMode m (some v) = .ok (some mode)) :
    infer m (.literal v) none =
      (validate m mode (some v)).map fun value => ⟨m, .literal v, none, .settled mode value⟩ := by
  unfold infer
  show (inferMode m (some v) >>= _) = _
  rw [h]
  show ((Operand.settled mode <$> validate m mode (some v)) >>= _) = _
  cases validate m mode (some v) <;> rfl

theorem infer_of_inferMode_error {m : Mnemonic} {v : Int} {e : InstructionError}
    (h : inferMode m (some v) = .error e) : infer m (.literal v) none = .error e := by
  unfold infer
  show (inferMode m (some v) >>= _) = _
  rw [h]
  rfl

/-- Why a number is refused. -/
def refusal (m : Mnemonic) (v : Int) : InstructionError :=
  if m.supports .implied then .unexpectedArgument m .implied else .argumentOutOfRange m v

theorem inferMode_of_onlyMode {m : Mnemonic} {mode : Mode} (himplied : m.supports .implied = false)
    (h : m.onlyMode? = some mode) (v : Int) : inferMode m (some v) = .ok (some mode) := by
  simp [inferMode, himplied, h]

theorem inferMode_of_several {m : Mnemonic} (himplied : m.supports .implied = false)
    (h : m.onlyMode? = none) (v : Int) : inferMode m (some v) = some <$> inferLiteral m v := by
  simp [inferMode, himplied, h]

/-- Where the number decides, it selects the first mode that takes it. -/
theorem inferLiteral_eq {m : Mnemonic} (habsolute : m.supports .absolute = true)
    (hrelative : m.supports .relative = false) (v : Int) :
    inferLiteral m v = match m.directMode? v with
      | some mode => .ok mode
      | none => .error (.argumentOutOfRange m v) := by
  have hbyte : ∀ mode : Mode, mode.domain = some (0, 0xff) →
      mode.accepts (some v) = decide (0 ≤ v ∧ v ≤ 0xff) := by
    intro mode hd
    rw [Bool.eq_iff_iff, Mode.accepts_iff hd, decide_eq_true_eq]
  have hword : Mode.absolute.accepts (some v) = decide (0 ≤ v ∧ v ≤ 0xffff) := by
    rw [Bool.eq_iff_iff, Mode.accepts_iff rfl, decide_eq_true_eq]
  unfold inferLiteral literalModes Mnemonic.directMode? Mode.direct
  simp only [List.find?_cons, hrelative, habsolute, hbyte .zeroPage rfl, hbyte .immediate rfl, hword]
  by_cases h : 0 ≤ v ∧ v ≤ 0xff
  · have hfits : 0 ≤ v ∧ v ≤ 0xffff := by omega
    cases hz : m.supports .zeroPage <;> cases hi : m.supports .immediate <;>
      simp [h, hfits, hz, hi, habsolute]
  · by_cases hw : 0x100 ≤ v ∧ v ≤ 0xffff
    · have hfits : 0 ≤ v ∧ v ≤ 0xffff := by omega
      simp [if_neg h, if_pos hw, decide_eq_false h, decide_eq_true hfits, habsolute]
    · have hfits : ¬ (0 ≤ v ∧ v ≤ 0xffff) := by omega
      simp [if_neg h, if_neg hw, decide_eq_false h, decide_eq_false hfits]

/-- **Inference is a search**: a bare number is taken in the first mode of the mnemonic, out of four,
in which it fits. -/
theorem infer_literal (m : Mnemonic) (v : Int) :
    infer m (.literal v) none = match m.directMode? v with
      | some mode => .ok ⟨m, .literal v, none, .settled mode (some v)⟩
      | none => .error (refusal m v) := by
  unfold refusal
  cases himplied : m.supports .implied with
  | true =>
    have honly := Mnemonic.onlyMode_of_implied himplied
    have hmode : inferMode m (some v) = .ok (some .implied) := if_pos himplied
    rw [infer_of_inferMode hmode, Mnemonic.directMode?_of_onlyMode honly]
    rfl
  | false =>
    have single : ∀ {mode : Mode}, m.onlyMode? = some mode → mode ∈ Mode.direct →
        (∃ lo hi, mode.domain = some (lo, hi)) → infer m (.literal v) none =
          match m.directMode? v with
          | some mode => .ok ⟨m, .literal v, none, .settled mode (some v)⟩
          | none => .error (.argumentOutOfRange m v) := by
      intro mode honly hdirect hd
      obtain ⟨lo, hi, hd⟩ := hd
      rw [infer_of_inferMode (inferMode_of_onlyMode himplied honly v),
        Mnemonic.directMode?_of_onlyMode honly]
      by_cases ha : mode.accepts (some v) = true
      · rw [validate_eq_ok.mpr ⟨rfl, ha⟩, if_pos ⟨hdirect, ha⟩]
        rfl
      · rw [validate_outside hd ha, if_neg fun h => ha h.2]
        rfl
    rcases Mnemonic.modes_of_not_implied himplied with honly | honly | ⟨hseveral, habsolute, hrelative⟩
    · exact single honly (by decide) ⟨_, _, rfl⟩
    · exact single honly (by decide) ⟨_, _, rfl⟩
    · have hmode := inferMode_of_several himplied hseveral v
      rw [inferLiteral_eq habsolute hrelative] at hmode
      cases hd : m.directMode? v with
      | none =>
        rw [hd] at hmode
        exact infer_of_inferMode_error hmode
      | some mode =>
        rw [hd] at hmode
        have ha := (Mnemonic.takes_of_directMode hd).accepted
        rw [infer_of_inferMode hmode, validate_eq_ok.mpr ⟨rfl, ha⟩]
        rfl

theorem encode_of_takes {m : Mnemonic} {v : Int} {mode : Mode} (h : m.Takes v mode) : ∃ bytes,
    encode ⟨m, .literal v, none, .settled mode (some v)⟩ = .ok bytes ∧
      bytes.length = mode.operandSize + 1 := by
  obtain ⟨e, _, hencode⟩ := encode_settled h.supported
  refine ⟨_, hencode _ _ _, ?_⟩
  rw [Option.elim_some, List.length_cons, operandBytes_length]

end Instruction

/-! ### Agreement -/

open Instruction

/-- What an instruction has that was inferred for a bare number. -/
structure Instruction.Selects (i : Instruction) (m : Mnemonic) (v : Int) (mode : Mode) : Prop where
  chosen : i.mode? = some mode
  takes : m.Takes v mode
  /-- No other mode that takes the number gives a shorter encoding. -/
  shortest : ∀ other, m.Takes v other → ∃ j bytes bytes', inMode m other (.literal v) none = .ok j ∧
    i.encode = .ok bytes ∧ j.encode = .ok bytes' ∧ bytes.length ≤ bytes'.length
  zeroPage : m.supports .zeroPage = true → mode ≠ .immediate

theorem Instruction.selects_of_directMode {m : Mnemonic} {v : Int} {mode : Mode}
    (h : m.directMode? v = some mode) :
    Selects ⟨m, .literal v, none, .settled mode (some v)⟩ m v mode := by
  have ht := Mnemonic.takes_of_directMode h
  constructor
  case chosen => rfl
  case takes => exact ht
  case shortest =>
    intro other ho
    obtain ⟨bytes, hbytes, hlength⟩ := encode_of_takes ht
    obtain ⟨bytes', hbytes', hlength'⟩ := encode_of_takes ho
    have hsize := Mnemonic.size_directMode h ho
    refine ⟨_, bytes, bytes', inMode_plain ho.supported rfl ho.accepted, hbytes, hbytes', ?_⟩
    omega
  case zeroPage =>
    rintro hzero rfl
    exact Mnemonic.directMode_ne_immediate hzero h

/-- **Inference agrees with naming the mode.** What is inferred is what the inferred mode builds when
it is named. For a bare number the mode is one that takes it, none of these gives a shorter encoding,
and a byte is never immediate if it can be an address; the number is refused exactly if no mode takes
it. -/
theorem infer_agrees (m : Mnemonic) :
    (∀ a x i mode, infer m a x = .ok i → i.mode? = some mode → inMode m mode a x = .ok i) ∧
    ∀ v, (∀ i, infer m (.literal v) none = .ok i → ∃ mode, i.Selects m v mode) ∧
      ((∃ e, infer m (.literal v) none = .error e) ↔ ∀ mode, ¬ m.Takes v mode) ∧
      ∀ e, infer m (.literal v) none = .error e → e =
        if m.supports .implied then .unexpectedArgument m .implied else .argumentOutOfRange m v := by
  refine ⟨fun a x i mode => inMode_of_infer, fun v => ?_⟩
  rw [infer_literal, ← Mnemonic.directMode?_eq_none]
  cases hd : m.directMode? v with
  | none =>
    refine ⟨fun i hi => ?_, ⟨fun _ => rfl, fun _ => ⟨_, rfl⟩⟩, fun e he => ?_⟩
    · cases hi
    · cases he
      rfl
  | some mode =>
    refine ⟨fun i hi => ?_, ⟨fun h => ?_, fun h => ?_⟩, fun e he => ?_⟩
    · cases hi
      exact ⟨mode, selects_of_directMode hd⟩
    · obtain ⟨e, he⟩ := h
      cases he
    · cases h
    · cases he

/-- A byte that could be immediate is in the zero page, and a jump has no room for a byte. -/
theorem bytes_agree : (∃ i, infer .cpx (.literal 0xff) none = .ok i ∧ i.mode? = some .zeroPage ∧
      inMode .cpx .zeroPage (.literal 0xff) none = .ok i) ∧
    (∃ i, infer .jmp (.literal 0x10) none = .ok i ∧ i.Selects .jmp 0x10 .absolute) ∧
    ∀ mode, ¬ Mnemonic.bne.Takes 0x80 mode := by
  refine ⟨⟨_, rfl, rfl, (infer_agrees .cpx).1 _ _ _ _ rfl rfl⟩, ⟨_, rfl, ?_⟩, ?_⟩
  · obtain ⟨mode, hmode⟩ := ((infer_agrees .jmp).2 0x10).1 _ rfl
    cases hmode.chosen
    exact hmode
  · exact ((infer_agrees .bne).2 0x80).2.1.mp ⟨_, rfl⟩

end Asm6502

import Asm6502.Proofs.Emission

/-! What label references mean.

On its level a label means the address of the last statement that defines it, before or after its
use, and the self reference means the address of the instruction (`target?`); labels of other levels
play no part. Every label reference in a linked program has a target and a value that the mode and the
modifier make of it (`Block.LinksTo.resolves`). `references_resolve` says what its operand is: a word
or a byte that is the value of the target under the modifier, or the signed distance that leads a
branch to its target. -/
namespace Asm6502

/-! ### Targets and their values -/

/-- The address that a name means in an instruction at an address, beside these statements. -/
def target? (own : List (Placed Statement)) (address : Nat) (name : String) : Option Nat :=
  if name = Argument.selfReference then some address else lastDefinition? name own

theorem target_labelsOf (own : List (Placed Statement)) (address : Nat) (name : String) :
    (labelsOf own).target address name = match target? own address name with
      | some target => .ok target
      | none => .error (.unresolvedLabel name) := by
  unfold SymbolTable.target target?
  by_cases h : name = Argument.selfReference
  · rw [if_pos h, if_pos h]
  · cases hd : lastDefinition? name own <;> simp only [if_neg h, address?_labelsOf, hd]

namespace Instruction

/-- A value under the modifier of the instruction, where that is defined. -/
def modifiedValue? (i : Instruction) (value : Int) : Option Int :=
  match i.modifier with
  | some x => x.apply value
  | none => some value

theorem modified_eq_ok {i : Instruction} {value v : Int} :
    i.modified value = .ok v ↔ i.modifiedValue? value = some v := by
  unfold modified modifiedValue?
  cases i.modifier with
  | none => simp
  | some x => cases h : x.apply value <;> simp [h]

/-- The number that the modifier adds, if it does nothing else. -/
def offset? (i : Instruction) : Option Int :=
  match i.modifier with
  | none => some 0
  | some (.arithmetic .add n) => some n
  | some _ => none

theorem modifiedValue_offset {i : Instruction} {n value v : Int} (hn : i.offset? = some n)
    (h : i.modifiedValue? value = some v) : v = value + n := by
  unfold offset? at hn
  unfold modifiedValue? at h
  split at hn
  · rename_i hx
    rw [hx] at h
    cases h
    cases hn
    omega
  · rename_i m hx
    rw [hx] at h
    cases hn
    simp only [Modifier.apply, ArithmeticOp.apply, Signed64.check] at h
    split at h
    · cases h
      rfl
    · cases h
  · cases hn

/-! ### Operands -/

theorem operandBytes_byte {v : Int} (h : 0 ≤ v ∧ v ≤ 0xff) :
    ∃ byte : UInt8, operandBytes 1 v = [byte] ∧ (byte.toNat : Int) = v := by
  refine ⟨_, rfl, ?_⟩
  rw [UInt8.ofInt, UInt8.toNat_ofNat']
  omega

theorem operandBytes_word {v : Int} (h : 0 ≤ v ∧ v ≤ 0xffff) :
    ∃ low high : UInt8, operandBytes 2 v = [low, high] ∧ (low.toNat + 256 * high.toNat : Int) = v := by
  have hle : (v % 0x10000).toNat ≤ 0xffff := by omega
  obtain ⟨low, high, hbytes, hvalue⟩ := Word.littleEndian_value hle
  exact ⟨low, high, hbytes, by omega⟩

theorem operandBytes_signed {v : Int} (h : -128 ≤ v ∧ v ≤ 127) :
    ∃ byte : UInt8, operandBytes 1 v = [byte] ∧ byte.toInt8.toInt = v := by
  refine ⟨_, rfl, ?_⟩
  have hb : (UInt8.ofInt v).toBitVec = BitVec.ofInt 8 v := by
    apply BitVec.eq_of_toNat_eq
    rw [BitVec.toNat_ofInt]
    show (UInt8.ofNat (v % 2 ^ 8).toNat).toNat = _
    rw [UInt8.toNat_ofNat']
    omega
  show (UInt8.ofInt v).toBitVec.toInt = v
  rw [hb, BitVec.toInt_ofInt_eq_self (by decide) (by omega) (by omega)]

/-- The operand bytes that refer to a target from an address, mode by mode. Modes that take no
label have none. -/
def RefersTo (i : Instruction) (mode : Mode) (address target : Nat) (operand : List UInt8) : Prop :=
  match mode with
  | .absolute | .absoluteX | .absoluteY | .indirect =>
    ∃ low high : UInt8, operand = [low, high] ∧
      i.modifiedValue? target = some (low.toNat + 256 * high.toNat : Int)
  | .immediate =>
    ∃ byte : UInt8, operand = [byte] ∧ i.modifiedValue? target = some (byte.toNat : Int) ∧
      (i.modifier = some .lowByte → byte.toNat = target % 256) ∧
      (i.modifier = some .highByte → byte.toNat = target / 256 % 256)
  | .relative =>
    ∃ byte : UInt8, operand = [byte] ∧
      ∀ n, i.offset? = some n → (address : Int) + 2 + byte.toInt8.toInt = target + n
  | _ => False

/-- A value of the mode's domain, taken from the target, refers to it. -/
theorem refersTo_of_accepts {i : Instruction} {mode : Mode} {address target : Nat} {v : Int}
    (ht : mode.TakesLabel i.modifier) (hv : mode.accepts (some v) = true)
    (hm : i.modifiedValue? (Mode.reference (some mode) address target) = some v) :
    i.RefersTo mode address target (operandBytes mode.operandSize v) := by
  have word : ∀ {w : Int}, 0 ≤ w ∧ w ≤ 0xffff → i.modifiedValue? target = some w →
      ∃ low high : UInt8, operandBytes 2 w = [low, high] ∧
        i.modifiedValue? target = some (low.toNat + 256 * high.toNat : Int) := by
    intro w hw hmw
    obtain ⟨low, high, hbytes, hvalue⟩ := operandBytes_word hw
    exact ⟨low, high, hbytes, by rw [hvalue]; exact hmw⟩
  rcases ht.admits with ha | ⟨rfl, _⟩
  · cases mode with
    | absolute => exact word ((Mode.accepts_iff rfl v).mp hv) hm
    | absoluteX => exact word ((Mode.accepts_iff rfl v).mp hv) hm
    | absoluteY => exact word ((Mode.accepts_iff rfl v).mp hv) hm
    | indirect => exact word ((Mode.accepts_iff rfl v).mp hv) hm
    | relative =>
      obtain ⟨byte, hbytes, hvalue⟩ := operandBytes_signed ((Mode.accepts_iff rfl v).mp hv)
      refine ⟨byte, hbytes, fun n hn => ?_⟩
      have hsum := modifiedValue_offset hn hm
      have href : Mode.reference (some .relative) address target = (target : Int) - address - 2 := rfl
      rw [href] at hsum
      omega
    | _ => cases ha
  · obtain ⟨byte, hbytes, hvalue⟩ := operandBytes_byte ((Mode.accepts_iff rfl v).mp hv)
    have hm : i.modifiedValue? target = some (byte.toNat : Int) := by
      rw [hvalue]
      exact hm
    refine ⟨byte, hbytes, hm, fun hx => ?_, fun hx => ?_⟩
    · rw [modifiedValue?, hx] at hm
      have : (target : Int) % 256 = byte.toNat := Option.some.inj hm
      omega
    · rw [modifiedValue?, hx] at hm
      have : (target : Int) / 256 % 256 = byte.toNat := Option.some.inj hm
      omega

/-- A label that is resolved and encoded was waited for, and its value was taken from the target. -/
theorem Unresolved.value_of_encode {labels : SymbolTable} {address : Nat} {i j : Instruction}
    {name : String} {bytes : List UInt8} (hi : i.Unresolved) (hj : i.resolveAt labels address = .ok j)
    (hb : j.encode = .ok bytes) (hl : j.label? = some name) :
    ∃ mode target v, j.operand = .settled mode (some v) ∧ j.mnemonic.supports mode = true ∧
      mode.TakesLabel j.modifier ∧ mode.accepts (some v) = true ∧
      labels.target address name = .ok target ∧
      j.modifiedValue? (Mode.reference (some mode) address target) = some v := by
  have hne : j ≠ i := by
    rintro rfl
    cases hi with
    | bare => cases hl
    | plain _ ha _ => cases ha.symm.trans hl
    | waiting _ _ => cases hb
  obtain ⟨rfl, _⟩ | ⟨other, target, hother, ht, hres⟩ := resolveAt_cases hj
  · exact absurd rfl hne
  · obtain ⟨rfl, _⟩ | ⟨label, mode, v, ha, ho, hm, hv, rfl⟩ := resolve_cases hres
    · exact absurd rfl hne
    · cases hi with
      | bare => cases ho
      | plain _ _ _ => cases ho
      | waiting hs htakes =>
        cases ho
        cases hl
        cases hother
        exact ⟨mode, target, v, rfl, hs, htakes, hv, ht, modified_eq_ok.mp hm⟩

end Instruction

/-! ### References -/

/-- A label reference by its numbers: the address that the label means, and the value that the mode
and the modifier make of it, which is encoded behind the opcode. -/
structure Instruction.Resolves (own : List (Placed Statement)) (address : Nat) (i : Instruction)
    (name : String) (bytes : List UInt8) (mode : Mode) (target : Nat) (v : Int) : Prop where
  chosen : i.mode? = some mode
  takes : mode.TakesLabel i.modifier
  accepted : mode.accepts (some v) = true
  found : target? own address name = some target
  value : i.modifiedValue? (Mode.reference (some mode) address target) = some v
  encoded : ∃ encoding, i.mnemonic.encoding? mode = some encoding ∧
    bytes = encoding.opcode :: operandBytes mode.operandSize v

theorem Instruction.Unresolved.resolves {own : List (Placed Statement)} {address : Nat}
    {i j : Instruction} {name : String} {bytes : List UInt8} (hi : i.Unresolved)
    (hj : i.resolveAt (labelsOf own) address = .ok j) (hb : j.encode = .ok bytes)
    (hl : j.label? = some name) : ∃ mode target v, j.Resolves own address name bytes mode target v := by
  obtain ⟨mode, target, v, ho, hs, htakes, hv, ht, hm⟩ := hi.value_of_encode hj hb hl
  obtain ⟨encoding, hencoding, hencode⟩ := encode_settled hs
  have htarget : target? own address name = some target := by
    rw [target_labelsOf] at ht
    split at ht
    · cases ht
      assumption
    · cases ht
  refine ⟨mode, target, v, ?_, htakes, hv, htarget, hm, encoding, hencoding, ?_⟩
  · rw [mode?, ho]
    rfl
  · obtain ⟨m, a, x, operand⟩ := j
    cases ho
    rw [hencode] at hb
    cases hb
    rfl

/-- The bytes of a label reference: the opcode, then an operand that refers to what the label means
at this address beside these statements. -/
def Instruction.Refers (own : List (Placed Statement)) (address : Nat) (i : Instruction)
    (name : String) (bytes : List UInt8) : Prop :=
  ∃ mode encoding target operand, i.mode? = some mode ∧
    i.mnemonic.encoding? mode = some encoding ∧ target? own address name = some target ∧
    bytes = encoding.opcode :: operand ∧ i.RefersTo mode address target operand

theorem Instruction.Unresolved.refers {own : List (Placed Statement)} {address : Nat}
    {i j : Instruction} {name : String} {bytes : List UInt8} (hi : i.Unresolved)
    (hj : i.resolveAt (labelsOf own) address = .ok j) (hb : j.encode = .ok bytes)
    (hl : j.label? = some name) : j.Refers own address name bytes := by
  obtain ⟨mode, target, v, h⟩ := hi.resolves hj hb hl
  obtain ⟨encoding, hencoding, hbytes⟩ := h.encoded
  exact ⟨mode, encoding, target, _, h.chosen, hencoding, h.found, hbytes,
    refersTo_of_accepts h.takes h.accepted h.value⟩

/-- Every label reference in a linked program has its numbers. -/
theorem Block.LinksTo.resolves {b : Block} (hb : b.Fresh) {address : Nat} {p : Program}
    (h : b.LinksTo address p) {own : List (Placed Emitted)} {e : Placed Emitted}
    (hsite : (own, e) ∈ p.body.sites) {i : Instruction} {name : String}
    (hi : e.content.statement = .instruction i) (hname : i.label? = some name) :
    ∃ mode target v,
      i.Resolves (own.map Placed.statement) e.address name e.content.bytes mode target v := by
  obtain ⟨s, hs, hemit⟩ := h.sites (own, e) hsite
  obtain ⟨i', j, rfl, hj, hbytes, he⟩ | ⟨l, _, he⟩ | ⟨a, _, he⟩ | ⟨d, _, he⟩ :=
    Statement.emit_cases hemit
  · cases hi.symm.trans he
    exact (hb i' hs).unresolved.resolves hj hbytes hname
  · cases hi.symm.trans (congrArg Emitted.statement he)
  · cases hi.symm.trans (congrArg Emitted.statement he)
  · cases hi.symm.trans (congrArg Emitted.statement he)

/-- Labels wait to be resolved in instructions fresh from a constructor. -/
theorem Block.Fresh.map_pending {b : Block} (hb : b.Fresh) : b.map id Statement.pending = b := by
  have key : ∀ i : Instruction, i.Unresolved → i.pending = i := by
    intro i hi
    cases hi with
    | bare => rfl
    | @plain m a mode _ ha _ =>
      cases a with
      | label name => cases ha
      | _ => rfl
    | waiting _ _ => rfl
  induction b with
  | nil => rfl
  | item s rest ih =>
    have hs : s.pending = s := by
      cases s with
      | instruction i => exact congrArg _ (key i (hb i (List.mem_cons_self ..)).unresolved)
      | _ => rfl
    rw [Outline.map, hs, ih fun i hi => hb i (List.mem_cons_of_mem _ hi)]
  | group _ inner rest ihi ihr =>
    rw [Outline.map, ihi fun i hi => hb i (List.mem_append_left _ hi),
      ihr fun i hi => hb i (List.mem_append_right _ hi)]

/-- **Label references mean what they say.** A linked program is its block with labels resolved, and
wherever an instruction in it has a label, its bytes are the opcode and an operand that refers to
the last definition of that label on the instruction's own level, or to the instruction. -/
theorem references_resolve {b : Block} (hb : b.Fresh) {origin : Int} {p : Program}
    (h : b.link origin = .ok p) : p.unlinked = b ∧
      ∀ own e, (own, e) ∈ p.body.sites → ∀ i name, e.content.statement = .instruction i →
        i.label? = some name →
        i.Refers (own.map Placed.statement) e.address name e.content.bytes := by
  obtain ⟨_, _, hl⟩ := linksTo_of_link h
  refine ⟨by rw [hl.unlinked, hb.map_pending], fun own e hsite i name hi hname => ?_⟩
  obtain ⟨s, hs, hemit⟩ := hl.sites (own, e) hsite
  obtain ⟨i', j, rfl, hj, hbytes, he⟩ | ⟨l, _, he⟩ | ⟨a, _, he⟩ | ⟨d, _, he⟩ :=
    Statement.emit_cases hemit
  · cases hi.symm.trans he
    exact (hb i' hs).unresolved.refers hj hbytes hname
  · cases hi.symm.trans (congrArg Emitted.statement he)
  · cases hi.symm.trans (congrArg Emitted.statement he)
  · cases hi.symm.trans (congrArg Emitted.statement he)

theorem countdown_references : ∃ p own e i, Block.countdown.link 0x1000 = .ok p ∧
    p.unlinked = Block.countdown ∧ (own, e) ∈ p.body.sites ∧ e.address = 0x1003 ∧
    e.content.bytes = [0xd0, 0xfd] ∧ e.content.statement = .instruction i ∧ i.label? = some "loop" ∧
    i.Refers (own.map Placed.statement) e.address "loop" e.content.bytes := by
  obtain ⟨p, own, e, i, hp, hsite, ha, hbytes, hi, hname⟩ : ∃ p own e i,
      Block.countdown.link 0x1000 = .ok p ∧ p.body.sites[4]? = some (own, e) ∧ e.address = 0x1003 ∧
      e.content.bytes = [0xd0, 0xfd] ∧ e.content.statement = .instruction i ∧
      i.label? = some "loop" := ⟨_, _, _, _, rfl, rfl, rfl, rfl, rfl, rfl⟩
  have hmem := List.mem_of_getElem? hsite
  obtain ⟨hunlinked, hrefers⟩ := references_resolve Block.countdown_fresh hp
  exact ⟨p, own, e, i, hp, hunlinked, hmem, ha, hbytes, hi, hname, hrefers own e hmem i _ hi hname⟩

end Asm6502

import Mathlib.Data.List.Nodup
import Asm6502.Proofs.References

/-! Machine code can be read back in one way only.

No two encodings share an opcode, so the first byte of an instruction tells its mnemonic and its
mode, and the mode tells how many bytes follow and which values they can hold. An instruction is
therefore told by its bytes together with whatever comes behind them (`encode_append_inj`), and
`encodeAll_inj` says the same of whole sequences: two sequences of ready instructions have the same
machine code exactly when they agree, one by one, on mnemonic, mode and value. How an operand was
written, as a number or as a label with a modifier, leaves no trace. -/
namespace Asm6502

/-! ### Opcodes -/

namespace Mnemonic

theorem mem_all (m : Mnemonic) : m ∈ all := by
  cases m <;> decide

/-- The encodings of all mnemonics, each with its mnemonic. -/
def table : List (Mnemonic × Encoding) := all.flatMap fun m => m.encodings.map fun e => (m, e)

theorem mem_table {m : Mnemonic} {mode : Mode} {e : Encoding} (h : m.encoding? mode = some e) :
    (m, e) ∈ table ∧ e.mode = mode := by
  have hmode : e.mode = mode := by simpa using List.find?_some h
  have hmem : e ∈ m.encodings := List.mem_of_find?_eq_some h
  exact ⟨List.mem_flatMap.mpr ⟨m, m.mem_all, List.mem_map_of_mem hmem⟩, hmode⟩

theorem opcodes_nodup : (table.map fun entry => entry.2.opcode).Nodup := by
  decide +kernel

/-- **An opcode tells mnemonic and mode.** -/
theorem eq_of_opcode {m m' : Mnemonic} {mode mode' : Mode} {e e' : Encoding}
    (h : m.encoding? mode = some e) (h' : m'.encoding? mode' = some e')
    (hopcode : e.opcode = e'.opcode) : m = m' ∧ mode = mode' := by
  obtain ⟨hmem, rfl⟩ := mem_table h
  obtain ⟨hmem', rfl⟩ := mem_table h'
  have hentry : (m, e) = (m', e') := List.inj_on_of_nodup_map opcodes_nodup hmem hmem' hopcode
  cases hentry
  exact ⟨rfl, rfl⟩

end Mnemonic

namespace Instruction

/-! ### Operands -/

/-- The bytes behind the opcode. -/
def operandPart (mode : Mode) (value : Option Int) : List UInt8 :=
  value.elim [] (operandBytes mode.operandSize)

theorem length_operandPart {mode : Mode} {value : Option Int} (h : mode.accepts value = true) :
    (operandPart mode value).length = mode.operandSize := by
  cases value with
  | none => exact (operandSize_of_accepts_none h).symm
  | some v => exact operandBytes_length mode v

/-- The bytes of an operand tell its value, if the value lies in the domain of the mode. -/
theorem operandBytes_inj {mode : Mode} {v w : Int} (hv : mode.accepts (some v) = true)
    (hw : mode.accepts (some w) = true)
    (h : operandBytes mode.operandSize v = operandBytes mode.operandSize w) : v = w := by
  have byte : ∀ {v w : Int}, 0 ≤ v ∧ v ≤ 0xff → 0 ≤ w ∧ w ≤ 0xff →
      operandBytes 1 v = operandBytes 1 w → v = w := by
    intro v w hv hw h
    obtain ⟨a, ha, rfl⟩ := operandBytes_byte hv
    obtain ⟨b, hb, rfl⟩ := operandBytes_byte hw
    rw [ha, hb] at h
    cases h
    rfl
  have word : ∀ {v w : Int}, 0 ≤ v ∧ v ≤ 0xffff → 0 ≤ w ∧ w ≤ 0xffff →
      operandBytes 2 v = operandBytes 2 w → v = w := by
    intro v w hv hw h
    obtain ⟨a, b, hab, rfl⟩ := operandBytes_word hv
    obtain ⟨c, d, hcd, rfl⟩ := operandBytes_word hw
    rw [hab, hcd] at h
    cases h
    rfl
  obtain ⟨lo, hi, hd, hv⟩ := Mode.domain_of_accepts hv
  rw [Mode.accepts_iff hd] at hw
  cases mode with
  | implied => cases hd
  | accumulator => cases hd
  | relative =>
    cases hd
    obtain ⟨a, ha, rfl⟩ := operandBytes_signed hv
    obtain ⟨b, hb, rfl⟩ := operandBytes_signed hw
    change operandBytes 1 _ = operandBytes 1 _ at h
    rw [ha, hb] at h
    cases h
    rfl
  | absolute | absoluteX | absoluteY | indirect =>
    cases hd
    exact word hv hw h
  | _ =>
    cases hd
    exact byte hv hw h

theorem operandPart_inj {mode : Mode} {value value' : Option Int} (h : mode.accepts value = true)
    (h' : mode.accepts value' = true) (heq : operandPart mode value = operandPart mode value') :
    value = value' := by
  cases value with
  | none =>
    cases value' with
    | none => rfl
    | some w => cases mode <;> cases h <;> cases h'
  | some v =>
    cases value' with
    | none => cases mode <;> cases h' <;> cases h
    | some w => rw [operandBytes_inj h h' heq]

/-! ### Single instructions -/

/-- A ready instruction has a mode of its mnemonic and a value that the mode accepts. -/
theorem Sound.settled_of_ready {i : Instruction} (hi : i.Sound) (hr : i.isReady = true) :
    ∃ mode value, i.operand = .settled mode value ∧ i.mnemonic.supports mode = true ∧
      mode.accepts value = true := by
  cases hi with
  | resolved hs _ hv => exact ⟨_, _, rfl, hs, hv⟩
  | unresolved hi =>
    cases hi with
    | bare => cases hr
    | plain hs _ hv => exact ⟨_, _, rfl, hs, hv⟩
    | waiting _ _ => cases hr

/-- What an instruction tells the processor: the operation, how it comes by its operand, and the
operand. -/
def meaning (i : Instruction) : Mnemonic × Option Mode × Option Int := (i.mnemonic, i.mode?, i.value?)

/-- The parts of an encoded instruction, which are those of its meaning. -/
structure Encodes (i : Instruction) (mode : Mode) (value : Option Int) (e : Encoding) : Prop where
  meaning : i.meaning = (i.mnemonic, some mode, value)
  encoding : i.mnemonic.encoding? mode = some e
  accepts : mode.accepts value = true
  encode : i.encode = .ok (e.opcode :: operandPart mode value)

theorem Sound.encodes_of_ready {i : Instruction} (hi : i.Sound) (hr : i.isReady = true) :
    ∃ mode value e, i.Encodes mode value e := by
  obtain ⟨mode, value, ho, hs, hv⟩ := hi.settled_of_ready hr
  obtain ⟨e, he, hencode⟩ := encode_settled hs
  obtain ⟨m, a, x, operand⟩ := i
  cases ho
  exact ⟨mode, value, e, rfl, he, hv, hencode a x value⟩

/-- **An instruction is told by its bytes**, whatever comes behind them. -/
theorem encode_append_inj {i j : Instruction} {mode mode' : Mode} {value value' : Option Int}
    {e e' : Encoding} (hi : i.Encodes mode value e) (hj : j.Encodes mode' value' e')
    {rest rest' : List UInt8}
    (h : e.opcode :: operandPart mode value ++ rest = e'.opcode :: operandPart mode' value' ++ rest') :
    i.meaning = j.meaning ∧ rest = rest' := by
  obtain ⟨hopcode, hbehind⟩ := List.cons.inj h
  obtain ⟨hmnemonic, rfl⟩ := Mnemonic.eq_of_opcode hi.encoding hj.encoding hopcode
  -- the mode is known by now, and with it the number of bytes that belong to the operand
  have hlength : (operandPart mode value).length = (operandPart mode value').length := by
    rw [length_operandPart hi.accepts, length_operandPart hj.accepts]
  obtain ⟨hpart, hrest⟩ := List.append_inj hbehind hlength
  have hvalue : value = value' := operandPart_inj hi.accepts hj.accepts hpart
  rw [hi.meaning, hj.meaning, hmnemonic, hvalue]
  exact ⟨rfl, hrest⟩

theorem encode_eq_of_meaning {i j : Instruction} {mode mode' : Mode} {value value' : Option Int}
    {e e' : Encoding} (hi : i.Encodes mode value e) (hj : j.Encodes mode' value' e')
    (h : i.meaning = j.meaning) : i.encode = j.encode := by
  rw [hi.meaning, hj.meaning, Prod.mk.injEq, Prod.mk.injEq, Option.some.injEq] at h
  obtain ⟨hmnemonic, rfl, rfl⟩ := h
  have he : e = e' := by
    have := hi.encoding.symm.trans (hmnemonic ▸ hj.encoding)
    exact Option.some.inj this
  rw [hi.encode, hj.encode, he]

/-! ### Sequences -/

/-- The machine code of instructions one behind another. -/
def encodeAll : List Instruction → Except EncodeError (List UInt8)
  | [] => .ok []
  | i :: rest => do
    let bytes ← i.encode
    let behind ← encodeAll rest
    return bytes ++ behind

theorem encodeAll_cons {i : Instruction} {rest : List Instruction} {bytes behind : List UInt8}
    (hi : i.encode = .ok bytes) (hrest : encodeAll rest = .ok behind) :
    encodeAll (i :: rest) = .ok (bytes ++ behind) := by
  rw [encodeAll, hi, hrest]
  rfl

/-- An instruction that can be reached and is ready. -/
def Finished (i : Instruction) : Prop := i.Reachable ∧ i.isReady = true

theorem Finished.encodes {i : Instruction} (h : i.Finished) : ∃ mode value e, i.Encodes mode value e :=
  h.1.sound.encodes_of_ready h.2

theorem encodeAll_of_finished {is : List Instruction} (h : ∀ i ∈ is, i.Finished) :
    ∃ code, encodeAll is = .ok code := by
  induction is with
  | nil => exact ⟨[], rfl⟩
  | cons i rest ih =>
    obtain ⟨hi, hrest⟩ := List.forall_mem_cons.mp h
    obtain ⟨mode, value, e, hencodes⟩ := hi.encodes
    obtain ⟨behind, hbehind⟩ := ih hrest
    exact ⟨_, encodeAll_cons hencodes.encode hbehind⟩

/-- Every instruction has an opcode, so only the empty sequence has no code. -/
theorem encodeAll_cons_ne_nil {i : Instruction} {rest : List Instruction} (hi : i.Finished)
    (h : encodeAll (i :: rest) = .ok []) : False := by
  obtain ⟨mode, value, e, hencodes⟩ := hi.encodes
  obtain ⟨bytes, hbytes, h⟩ := bind_eq_ok.mp h
  obtain ⟨behind, _, h⟩ := bind_eq_ok.mp h
  cases hencodes.encode.symm.trans hbytes
  cases h

theorem map_meaning_of_encodeAll {is js : List Instruction} (his : ∀ i ∈ is, i.Finished)
    (hjs : ∀ j ∈ js, j.Finished) {code : List UInt8} (hi : encodeAll is = .ok code)
    (hj : encodeAll js = .ok code) : is.map meaning = js.map meaning := by
  induction is generalizing js code with
  | nil =>
    cases hi
    cases js with
    | nil => rfl
    | cons j js => exact (encodeAll_cons_ne_nil (hjs j (List.mem_cons_self ..)) hj).elim
  | cons i is ih =>
    obtain ⟨hfirst, his⟩ := List.forall_mem_cons.mp his
    cases js with
    | nil =>
      cases hj
      exact (encodeAll_cons_ne_nil hfirst hi).elim
    | cons j js =>
      obtain ⟨hfirst', hjs⟩ := List.forall_mem_cons.mp hjs
      obtain ⟨_, _, _, hencodes⟩ := hfirst.encodes
      obtain ⟨_, _, _, hencodes'⟩ := hfirst'.encodes
      obtain ⟨behind, hbehind⟩ := encodeAll_of_finished his
      obtain ⟨behind', hbehind'⟩ := encodeAll_of_finished hjs
      cases (encodeAll_cons hencodes.encode hbehind).symm.trans hi
      have hcode := Except.ok.inj ((encodeAll_cons hencodes'.encode hbehind').symm.trans hj)
      obtain ⟨hmeaning, rfl⟩ := encode_append_inj hencodes hencodes' hcode.symm
      rw [List.map_cons, List.map_cons, hmeaning, ih his hjs hbehind hbehind']

theorem encodeAll_of_map_meaning {is js : List Instruction} (his : ∀ i ∈ is, i.Finished)
    (hjs : ∀ j ∈ js, j.Finished) (h : is.map meaning = js.map meaning) :
    encodeAll is = encodeAll js := by
  induction is generalizing js with
  | nil =>
    cases js with
    | nil => rfl
    | cons j js => cases h
  | cons i is ih =>
    cases js with
    | nil => cases h
    | cons j js =>
      obtain ⟨hmeaning, hbehind⟩ := List.cons.inj h
      obtain ⟨hfirst, his⟩ := List.forall_mem_cons.mp his
      obtain ⟨hfirst', hjs⟩ := List.forall_mem_cons.mp hjs
      obtain ⟨_, _, _, hencodes⟩ := hfirst.encodes
      obtain ⟨_, _, _, hencodes'⟩ := hfirst'.encodes
      rw [encodeAll, encodeAll, encode_eq_of_meaning hencodes hencodes' hmeaning, ih his hjs hbehind]

end Instruction

open Instruction

/-- **Machine code is uniquely decodable.** Finished instructions one behind another always have a
code, and two sequences of them have the same code exactly when they are equally long and agree
position by position on mnemonic, mode and value. -/
theorem encodeAll_inj {is js : List Instruction} (his : ∀ i ∈ is, i.Finished)
    (hjs : ∀ j ∈ js, j.Finished) :
    ∃ code code', encodeAll is = .ok code ∧ encodeAll js = .ok code' ∧
      (code = code' ↔ is.map meaning = js.map meaning) := by
  obtain ⟨code, hcode⟩ := encodeAll_of_finished his
  obtain ⟨code', hcode'⟩ := encodeAll_of_finished hjs
  refine ⟨code, code', hcode, hcode', fun h => ?_, fun h => ?_⟩
  · subst h
    exact map_meaning_of_encodeAll his hjs hcode hcode'
  · have hsame := encodeAll_of_map_meaning his hjs h
    rw [hcode, hcode'] at hsame
    exact Except.ok.inj hsame

/-- A jump to a number and a branch by a distance, and both again to labels that were resolved. -/
theorem jump_and_branch_inj : ∃ is js : List Instruction, is ≠ js ∧ (∀ i ∈ is, i.Finished) ∧
    (∀ j ∈ js, j.Finished) ∧ encodeAll is = .ok [0x4c, 0x00, 0xc0, 0xd0, 0xfe] ∧
    encodeAll js = .ok [0x4c, 0x00, 0xc0, 0xd0, 0xfe] ∧ is.map meaning = js.map meaning := by
  have hjmp : Instruction.infer .jmp (.literal 0xc000) none =
      .ok ⟨.jmp, .literal 0xc000, none, .settled .absolute (some 0xc000)⟩ := rfl
  have hbne : Instruction.infer .bne (.literal (-2)) none =
      .ok ⟨.bne, .literal (-2), none, .settled .relative (some (-2))⟩ := rfl
  have hjmp' : Instruction.infer .jmp (.label "start") none =
      .ok ⟨.jmp, .label "start", none, .pending .absolute⟩ := rfl
  have hstart : Instruction.resolve ⟨.jmp, .label "start", none, .pending .absolute⟩ 0xc000 =
      .ok ⟨.jmp, .label "start", none, .settled .absolute (some 0xc000)⟩ := rfl
  have hbne' : Instruction.infer .bne (.label "wait") (some (.offset 1)) =
      .ok ⟨.bne, .label "wait", some (.offset 1), .pending .relative⟩ := rfl
  have hwait : Instruction.resolve ⟨.bne, .label "wait", some (.offset 1), .pending .relative⟩ (-3) =
      .ok ⟨.bne, .label "wait", some (.offset 1), .settled .relative (some (-2))⟩ := rfl
  have his : ∀ i ∈ [(⟨.jmp, .literal 0xc000, none, .settled .absolute (some 0xc000)⟩ : Instruction),
      ⟨.bne, .literal (-2), none, .settled .relative (some (-2))⟩], i.Finished :=
    List.forall_mem_cons.mpr ⟨⟨.fresh (.inferred hjmp), rfl⟩,
      List.forall_mem_singleton.mpr ⟨.fresh (.inferred hbne), rfl⟩⟩
  have hjs : ∀ j ∈ [(⟨.jmp, .label "start", none, .settled .absolute (some 0xc000)⟩ : Instruction),
      ⟨.bne, .label "wait", some (.offset 1), .settled .relative (some (-2))⟩], j.Finished :=
    List.forall_mem_cons.mpr ⟨⟨.resolve (.fresh (.inferred hjmp')) hstart, rfl⟩,
      List.forall_mem_singleton.mpr ⟨.resolve (.fresh (.inferred hbne')) hwait, rfl⟩⟩
  obtain ⟨code, code', hcode, hcode', hiff⟩ := encodeAll_inj his hjs
  have hsame : code = code' := by
    cases hcode
    cases hcode'
    rfl
  exact ⟨_, _, by decide, his, hjs, rfl, rfl, hiff.mp hsame⟩

end Asm6502

import Asm6502.Proofs.Image
import Asm6502.Proofs.References

/-! Arithmetic on labels.

Sum, product, quotient and left shift have an `Exact` result on numbers. Sum, product and quotient are
checked against the range of 64 bits, while a left shift checks the number of places only, so that it
`Drops` bits which it has no room for. `arithmetic_exact` says that this is the only difference between
the result of an operation and the exact one, and what it comes to in linked programs: there a label
stands for the exact result on its address, or for zero where a shift drops bits. -/
namespace Asm6502

/-! ### Numbers of 64 bits -/

namespace Signed64

/-- The numbers that fit in 64 bits with sign. -/
def Fits (n : Int) : Prop := least ≤ n ∧ n ≤ greatest

instance (n : Int) : Decidable (Fits n) := inferInstanceAs (Decidable (least ≤ n ∧ n ≤ greatest))

theorem check_eq_some {n r : Int} : check n = some r ↔ r = n ∧ Fits r := by
  have hcheck : check n = if Fits n then some n else none := rfl
  by_cases h : Fits n
  · rw [hcheck, if_pos h, Option.some.injEq]
    constructor
    · rintro rfl
      exact ⟨rfl, h⟩
    · rintro ⟨rfl, _⟩
      rfl
  · rw [hcheck, if_neg h]
    constructor
    · intro hnone
      cases hnone
    · rintro ⟨rfl, hr⟩
      exact absurd hr h

theorem wrap_of_fits {n : Int} (h : Fits n) : wrap n = n := by
  unfold Fits least greatest at h
  exact Int.bmod_eq_of_le (by omega) (by omega)

theorem shiftCount?_eq_some {n : Int} {k : Nat} : shiftCount? n = some k ↔ n = k ∧ k < 64 := by
  unfold shiftCount?
  split
  · simp only [Option.some.injEq]
    omega
  · simp only [reduceCtorEq, false_iff]
    omega

theorem pow_eq_natCast (k : Nat) : Int.pow 2 k = (Nat.pow 2 k : Nat) := (Int.natCast_pow 2 k).symm

/-- What is dropped is a multiple of what 64 bits count to. -/
theorem dvd_wrap_sub (n : Int) : (0x10000000000000000 : Int) ∣ wrap n - n := Int.dvd_bmod_sub_self

end Signed64

/-! ### Exact results -/

namespace ArithmeticOp

/-- Operations on numbers and not on their bits. -/
def isNumeric : ArithmeticOp → Bool
  | add | mul | div | shl => true
  | shr | and | or => false

/-- The exact result of an operation on numbers, where it has one. What a quotient leaves is smaller
than the divisor and has the sign of the dividend. -/
def Exact (op : ArithmeticOp) (a b r : Int) : Prop :=
  match op with
  | add => r = a + b
  | mul => r = a * b
  | div =>
    b ≠ 0 ∧ (a - b * r).natAbs < b.natAbs ∧ (0 ≤ a → 0 ≤ a - b * r) ∧ (a ≤ 0 → a - b * r ≤ 0)
  | shl => 0 ≤ b ∧ b < 64 ∧ r = a * Int.pow 2 b.toNat
  | shr | and | or => False

/-- A left shift whose exact result has more than 64 bits. -/
def Drops (op : ArithmeticOp) (a b : Int) : Prop :=
  op = shl ∧ 0 ≤ b ∧ b < 64 ∧ ¬ Signed64.Fits (a * Int.pow 2 b.toNat)

/-- The quotient is the one that is rounded toward zero. -/
theorem exact_div {a b r : Int} : Exact .div a b r ↔ b ≠ 0 ∧ r = a.tdiv b := by
  have hquotient := Int.mul_tdiv_add_tmod a b
  have hnonneg : 0 ≤ a → 0 ≤ a.tmod b := Int.tmod_nonneg b
  have hnonpos : a ≤ 0 → a.tmod b ≤ 0 := by
    intro ha
    have hneg := Int.tmod_nonneg b (Int.neg_nonneg_of_nonpos ha)
    rw [Int.neg_tmod] at hneg
    omega
  have hsmall : b ≠ 0 → (a.tmod b).natAbs < b.natAbs := by
    intro hb
    rw [Int.natAbs_tmod]
    exact Nat.mod_lt _ (by omega)
  constructor
  · rintro ⟨hb, hlt, hpos, hneg⟩
    -- two remainders of one sign differ by less than the divisor, which divides their difference
    have hdiff : a.tmod b - (a - b * r) = b * (r - a.tdiv b) := by
      rw [Int.mul_sub]
      omega
    have hnear : (a.tmod b - (a - b * r)).natAbs < b.natAbs := by
      have := hsmall hb
      omega
    have hzero := Int.eq_zero_of_dvd_of_natAbs_lt_natAbs ⟨_, hdiff⟩ hnear
    rw [hdiff] at hzero
    have := (Int.mul_eq_zero.mp hzero).resolve_left hb
    exact ⟨hb, by omega⟩
  · rintro ⟨hb, rfl⟩
    have hrest : a - b * a.tdiv b = a.tmod b := by omega
    show b ≠ 0 ∧ _
    rw [hrest]
    exact ⟨hb, hsmall hb, hnonneg, hnonpos⟩

/-- **Only a left shift can be inexact.** In every other case the result is there exactly if the exact
one is and fits. -/
theorem apply_eq_some {op : ArithmeticOp} (hop : op.isNumeric = true) {a b : Int}
    (h : ¬ op.Drops a b) (r : Int) : op.apply a b = some r ↔ op.Exact a b r ∧ Signed64.Fits r := by
  cases op with
  | add => exact Signed64.check_eq_some
  | mul => exact Signed64.check_eq_some
  | div =>
    rw [exact_div]
    show (if b = 0 then none else Signed64.check (a.tdiv b)) = some r ↔ _
    by_cases hb : b = 0
    · simp [hb]
    · rw [if_neg hb, Signed64.check_eq_some]
      simp [hb]
  | shl =>
    show (Signed64.shiftCount? b).map _ = some r ↔ (0 ≤ b ∧ b < 64 ∧ _) ∧ _
    unfold Signed64.shiftCount?
    by_cases hb : 0 ≤ b ∧ b < 64
    · have hfits : Signed64.Fits (a * Int.pow 2 b.toNat) :=
        Decidable.not_not.mp fun hnot => h ⟨rfl, hb.1, hb.2, hnot⟩
      rw [if_pos hb, Option.map_some, Signed64.wrap_of_fits hfits, Option.some.injEq]
      constructor
      · rintro rfl
        exact ⟨⟨hb.1, hb.2, rfl⟩, hfits⟩
      · rintro ⟨⟨_, _, rfl⟩, _⟩
        rfl
    · rw [if_neg hb]
      constructor
      · intro hnone
        cases hnone
      · rintro ⟨⟨hlow, hhigh, _⟩, _⟩
        exact absurd ⟨hlow, hhigh⟩ hb
  | shr | and | or => cases hop

/-- A left shift that drops bits gives what is left of them, though there is no result that fits. -/
theorem apply_of_drops {op : ArithmeticOp} {a b : Int} (h : op.Drops a b) :
    op.apply a b = some (Signed64.wrap (a * Int.pow 2 b.toNat)) ∧
      ∀ r, ¬ (op.Exact a b r ∧ Signed64.Fits r) := by
  obtain ⟨rfl, hlow, hhigh, hfits⟩ := h
  constructor
  · have hcount : Signed64.shiftCount? b = some b.toNat := if_pos ⟨hlow, hhigh⟩
    show (Signed64.shiftCount? b).map _ = _
    rw [hcount]
    rfl
  · rintro r ⟨⟨_, _, rfl⟩, hr⟩
    exact hfits hr

/-- Of an address, a left shift that drops bits leaves nothing where the result is a word: it takes 47
places at least to drop a bit of an address, and then the low bits are all zero. -/
theorem wrap_eq_zero_of_drops {target : Nat} (ht : target ≤ memorySize) {n : Int}
    (h : shl.Drops target n) (hlow : 0 ≤ Signed64.wrap (target * Int.pow 2 n.toNat))
    (hhigh : Signed64.wrap (target * Int.pow 2 n.toNat) < 0x10000) :
    Signed64.wrap (target * Int.pow 2 n.toNat) = 0 := by
  obtain ⟨_, _, _, hfits⟩ := h
  have hpow : (target : Int) * Int.pow 2 n.toNat = (target * Nat.pow 2 n.toNat : Nat) := by
    rw [Int.natCast_mul, Signed64.pow_eq_natCast]
  have hplaces : 47 ≤ n.toNat := by
    refine Nat.le_of_not_lt fun hlt => hfits ?_
    have hle : Nat.pow 2 n.toNat ≤ Nat.pow 2 46 := Nat.pow_le_pow_right (by decide) (by omega)
    have hprod : target * Nat.pow 2 n.toNat ≤ 0x10000 * Nat.pow 2 46 := Nat.mul_le_mul ht hle
    have hbound : 0x10000 * Nat.pow 2 46 = 0x4000000000000000 := rfl
    unfold Signed64.Fits Signed64.least Signed64.greatest
    omega
  have hdvd : (0x800000000000 : Int) ∣ target * Int.pow 2 n.toNat := by
    rw [hpow]
    exact Int.ofNat_dvd.mpr (Nat.dvd_mul_left_of_dvd (Nat.pow_dvd_pow 2 hplaces) target)
  have hwrap := Signed64.dvd_wrap_sub (target * Int.pow 2 n.toNat)
  omega

end ArithmeticOp

/-! ### References -/

theorem mem_of_lastDefinition {name : String} {ps : List (Placed Statement)} {target : Nat}
    (h : lastDefinition? name ps = some target) : ∃ p ∈ ps, p.address = target := by
  obtain ⟨p, hp, haddress⟩ := Option.map_eq_some_iff.mp h
  exact ⟨p, List.mem_reverse.mp (List.mem_of_find?_eq_some hp), haddress⟩

/-- Statements of a linked program lie in the memory or at its end. -/
theorem Block.LinksTo.address_le {b : Block} (hb : b.Reachable) {address : Nat}
    (ha : address ≤ memorySize) {p : Program} (h : b.LinksTo address p) {e : Placed Emitted}
    (he : e ∈ p.body.leaves) : e.address ≤ memorySize := by
  have htiles := tiles_of_emits (Statement.sound_of_reachable hb) ha h.faultless h.emits
  exact Nat.le_trans (htiles.leaves_ordered.1 e he).2 (runningAddress_le ha h.faultless)

/-- Every label reference in a linked program has its numbers, and it leads from the memory or its end
to the memory or its end. -/
theorem Block.Fresh.resolves_of_link {b : Block} (hb : b.Fresh) {origin : Int} {p : Program}
    (h : b.link origin = .ok p) {own : List (Placed Emitted)} {e : Placed Emitted}
    (hsite : (own, e) ∈ p.body.sites) {i : Instruction} {name : String}
    (hi : e.content.statement = .instruction i) (hname : i.label? = some name) :
    e.address ≤ memorySize ∧ ∃ mode target v, target ≤ memorySize ∧
      i.Resolves (own.map Placed.statement) e.address name e.content.bytes mode target v := by
  obtain ⟨_, hlt, hl⟩ := linksTo_of_link h
  have hle : ∀ f ∈ p.body.leaves, f.address ≤ memorySize :=
    fun f hf => hl.address_le hb.reachable (Nat.le_of_lt hlt) hf
  have hhere := hle e (Outline.mem_leaves_of_sites hsite)
  obtain ⟨mode, target, v, hres⟩ := hl.resolves hb hsite hi hname
  refine ⟨hhere, mode, target, v, ?_, hres⟩
  have hfound := hres.found
  unfold target? at hfound
  split at hfound
  · cases hfound
    exact hhere
  · obtain ⟨q, hq, rfl⟩ := mem_of_lastDefinition hfound
    obtain ⟨f, hf, rfl⟩ := List.mem_map.mp hq
    exact hle f (Outline.subset_leaves_of_sites hsite hf)

namespace Instruction

/-- The number that operand bytes stand for, low byte first. -/
def operandValue : List UInt8 → Nat
  | [] => 0
  | byte :: rest => byte.toNat + 256 * operandValue rest

/-- A label stands for a byte or a word, in the modes that take its address. -/
theorem operandValue_of_accepts {mode : Mode} {modifier : Option Modifier}
    (ht : mode.TakesLabel modifier) (hm : mode ≠ .relative) {v : Int}
    (hv : mode.accepts (some v) = true) :
    (operandBytes mode.operandSize v).length = mode.operandSize ∧
      (operandValue (operandBytes mode.operandSize v) : Int) = v ∧ 0 ≤ v ∧ v < 0x10000 := by
  have word : 0 ≤ v ∧ v ≤ 0xffff → (operandBytes 2 v).length = 2 ∧
      (operandValue (operandBytes 2 v) : Int) = v ∧ 0 ≤ v ∧ v < 0x10000 := by
    intro h
    obtain ⟨low, high, hbytes, hvalue⟩ := operandBytes_word h
    rw [hbytes]
    exact ⟨rfl, by simp only [operandValue]; omega, by omega⟩
  rcases ht.admits with ha | ⟨rfl, _⟩
  · cases mode with
    | absolute => exact word ((Mode.accepts_iff rfl v).mp hv)
    | absoluteX => exact word ((Mode.accepts_iff rfl v).mp hv)
    | absoluteY => exact word ((Mode.accepts_iff rfl v).mp hv)
    | indirect => exact word ((Mode.accepts_iff rfl v).mp hv)
    | relative => exact absurd rfl hm
    | _ => cases ha
  · have hrange := (Mode.accepts_iff rfl v).mp hv
    obtain ⟨byte, hbytes, hvalue⟩ := operandBytes_byte hrange
    show (operandBytes 1 v).length = 1 ∧ (operandValue (operandBytes 1 v) : Int) = v ∧ _
    rw [hbytes]
    exact ⟨rfl, by simp only [operandValue]; omega, by omega⟩

/-- The bytes of a label with an operation on numbers: the opcode, and as its operand the exact result
for the address that the label means; or zero, for a left shift that drops bits. -/
def Computes (own : List (Placed Statement)) (address : Nat) (i : Instruction) (name : String)
    (op : ArithmeticOp) (n : Int) (bytes : List UInt8) : Prop :=
  ∃ mode encoding target operand, i.mode? = some mode ∧ i.mnemonic.encoding? mode = some encoding ∧
    target? own address name = some target ∧ bytes = encoding.opcode :: operand ∧
    operand.length = mode.operandSize ∧
    (op.Exact target n (operandValue operand) ∨ op.Drops target n ∧ operandValue operand = 0)

theorem Resolves.computes {own : List (Placed Statement)} {address : Nat} {i : Instruction}
    {name : String} {bytes : List UInt8} {mode : Mode} {target : Nat} {v : Int}
    (h : i.Resolves own address name bytes mode target v) (ht : target ≤ memorySize)
    {op : ArithmeticOp} {n : Int} (hx : i.modifier = some (.arithmetic op n))
    (hop : op.isNumeric = true) (hm : i.mode? ≠ some .relative) :
    i.Computes own address name op n bytes := by
  have hmode : mode ≠ .relative := by
    rintro rfl
    exact hm h.chosen
  obtain ⟨encoding, hencoding, hbytes⟩ := h.encoded
  obtain ⟨hlength, hvalue, hlow, hhigh⟩ := operandValue_of_accepts h.takes hmode h.accepted
  have happly : op.apply target n = some v := by
    have hv := h.value
    rw [modifiedValue?, hx, Mode.reference, if_neg (by simpa using hmode)] at hv
    exact hv
  refine ⟨mode, encoding, target, _, h.chosen, hencoding, h.found, hbytes, hlength, ?_⟩
  by_cases hd : op.Drops target n
  · obtain ⟨rfl, _⟩ := id hd
    have hv := Option.some.inj (happly.symm.trans (ArithmeticOp.apply_of_drops hd).1)
    rw [hv] at hlow hhigh
    have hzero := ArithmeticOp.wrap_eq_zero_of_drops ht hd hlow hhigh
    exact .inr ⟨hd, by omega⟩
  · rw [hvalue]
    exact .inl ((ArithmeticOp.apply_eq_some hop hd v).mp happly).1

end Instruction

/-- **Arithmetic on labels is exact but for left shifts that drop bits.** Everywhere else a sum, a
product, a quotient or a left shift has a result exactly if the exact one exists and fits in 64 bits,
and it is that one. A left shift that drops bits has the low ones as its result; in a linked program
these are zeros, and every other label outside branches stands for the exact result. -/
theorem arithmetic_exact {op : ArithmeticOp} (hop : op.isNumeric = true) :
    (∀ a b : Int,
      (¬ op.Drops a b → ∀ r, op.apply a b = some r ↔ op.Exact a b r ∧ Signed64.Fits r) ∧
      (op.Drops a b → op.apply a b = some (Signed64.wrap (a * Int.pow 2 b.toNat)) ∧
        ∀ r, ¬ (op.Exact a b r ∧ Signed64.Fits r))) ∧
    ∀ b : Block, b.Fresh → ∀ origin p, b.link origin = .ok p →
      ∀ own e, (own, e) ∈ p.body.sites → ∀ i name n, e.content.statement = .instruction i →
        i.label? = some name → i.modifier = some (.arithmetic op n) → i.mode? ≠ some .relative →
        i.Computes (own.map Placed.statement) e.address name op n e.content.bytes := by
  constructor
  · intro a b
    exact ⟨fun h r => ArithmeticOp.apply_eq_some hop h r, ArithmeticOp.apply_of_drops⟩
  · intro b hb origin p h own e hsite i name n hi hname hx hm
    obtain ⟨_, mode, target, v, ht, hres⟩ := hb.resolves_of_link h hsite hi hname
    exact hres.computes ht hx hop hm

/-- A quotient and a shift of one address. -/
def Block.pages : Block :=
  .item (.label ⟨"page", by decide⟩) <|
  .item (.instruction ⟨.lda, .label "page", some (.arithmetic .div 0x100), .pending .immediate⟩) <|
  .item (.instruction ⟨.jmp, .label "page", some (.arithmetic .shl 52), .pending .absolute⟩) .nil

theorem Block.pages_fresh : Block.pages.Fresh := by
  have hlda : Instruction.inMode .lda .immediate (.label "page") (some (.arithmetic .div 0x100)) =
      .ok ⟨.lda, .label "page", some (.arithmetic .div 0x100), .pending .immediate⟩ := rfl
  have hjmp : Instruction.infer .jmp (.label "page") (some (.arithmetic .shl 52)) =
      .ok ⟨.jmp, .label "page", some (.arithmetic .shl 52), .pending .absolute⟩ := rfl
  intro i hi
  simp only [pages, Outline.leaves, List.mem_cons, Statement.instruction.injEq, reduceCtorEq, false_or,
    or_false, List.not_mem_nil] at hi
  rcases hi with rfl | rfl
  · exact .inMode hlda
  · exact .inferred hjmp

theorem pages_exact : ∃ p own e i, Block.pages.link 0x1000 = .ok p ∧ (own, e) ∈ p.body.sites ∧
    e.content.bytes = [0xa9, 0x10] ∧ e.content.statement = .instruction i ∧ i.label? = some "page" ∧
    i.modifier = some (.arithmetic .div 0x100) ∧ i.mode? ≠ some .relative ∧
    i.Computes (own.map Placed.statement) e.address "page" .div 0x100 e.content.bytes := by
  obtain ⟨p, own, e, i, hp, hsite, hbytes, hi, hname, hx, hm⟩ : ∃ p own e i,
      Block.pages.link 0x1000 = .ok p ∧ p.body.sites[1]? = some (own, e) ∧
      e.content.bytes = [0xa9, 0x10] ∧ e.content.statement = .instruction i ∧
      i.label? = some "page" ∧ i.modifier = some (.arithmetic .div 0x100) ∧
      i.mode? = some .immediate := ⟨_, _, _, _, rfl, rfl, rfl, rfl, rfl, rfl, rfl⟩
  have hmem := List.mem_of_getElem? hsite
  have hne : i.mode? ≠ some .relative := by
    rw [hm]
    decide
  exact ⟨p, own, e, i, hp, hmem, hbytes, hi, hname, hx, hne,
    (arithmetic_exact rfl).2 _ Block.pages_fresh _ p hp own e hmem i _ _ hi hname hx hne⟩

/-- The shift of an address by 52 has no result in 64 bits, yet it is taken to be zero. -/
theorem shifted_page_dropped : ArithmeticOp.shl.apply 0x1000 52 = some 0 ∧
    (∀ r, ¬ (ArithmeticOp.shl.Exact 0x1000 52 r ∧ Signed64.Fits r)) ∧
    ∃ p, Block.pages.link 0x1000 = .ok p ∧ p.code = [0xa9, 0x10, 0x4c, 0x00, 0x00] := by
  have hdrops : ArithmeticOp.shl.Drops 0x1000 52 := ⟨rfl, by decide, by decide, by decide⟩
  refine ⟨by decide, (ArithmeticOp.apply_of_drops hdrops).2, ?_⟩
  exact ⟨_, rfl, by decide⟩

end Asm6502

import Asm6502.Proofs.LabelArithmetic

/-! Modifiers in branches.

A branch counts from the instruction behind it, its base, and a modifier of its label is applied to
that distance and not to the address that the label means. `branches_modified` says where the branch
leads: to the modified address exactly if the operation `Commutes` with the base. A sum does. Products,
quotients and shifts do only if they change nothing, since they would have to leave the base as it is;
and masks do where address and distance agree in the bits that the mask changes. -/
namespace Asm6502

/-! ### Sums and masks -/

namespace Signed64

/-- Addresses and their distances are far from what 64 bits count to. -/
theorem fits_of_near {n : Int} (h : -0x20000 ≤ n ∧ n ≤ 0x20000) : Fits n := by
  unfold Fits least greatest
  omega

theorem ofInt_complement (n : Int) : BitVec.ofInt 64 (-n - 1) = ~~~ BitVec.ofInt 64 n := by
  rw [BitVec.not_eq_neg_add, Int.sub_eq_add_neg, BitVec.ofInt_add, BitVec.ofInt_neg, BitVec.ofInt_neg,
    BitVec.sub_eq_add_neg]
  rfl

theorem toInt_eq_add {x y : BitVec 64} {base : Int} (h : Fits (base + y.toInt)) :
    x.toInt = base + y.toInt ↔ x = BitVec.ofInt 64 base + y := by
  unfold Fits least greatest at h
  have hsum : (BitVec.ofInt 64 base + y).toInt = base + y.toInt := by
    rw [← @BitVec.ofInt_toInt 64 y, ← BitVec.ofInt_add, BitVec.ofInt_toInt]
    exact BitVec.toInt_ofInt_eq_self (by decide) (by omega) (by omega)
  rw [← hsum, BitVec.toInt_inj]

theorem and_add_and_not (x n : BitVec 64) : (x &&& n) + (x &&& ~~~ n) = x := by
  have hzero : (x &&& n) &&& (x &&& ~~~ n) = 0#64 := by
    ext i hi
    cases hn : n[i] <;> simp [hn]
  rw [BitVec.add_eq_or_of_and_eq_zero _ _ hzero]
  ext i hi
  cases hn : n[i] <;> simp [hn]

theorem or_eq_add (x n : BitVec 64) : x ||| n = (x &&& ~~~ n) + n := by
  have hzero : (x &&& ~~~ n) &&& n = 0#64 := by
    ext i hi
    cases hn : n[i] <;> simp [hn]
  rw [BitVec.add_eq_or_of_and_eq_zero _ _ hzero]
  ext i hi
  cases hn : n[i] <;> simp [hn]

/-- A mask can be taken before a sum or after it if the sum changes no bit that the mask clears. -/
theorem and_eq_add_iff (base x n : BitVec 64) :
    (base + x) &&& n = base + (x &&& n) ↔ (base + x) &&& ~~~ n = x &&& ~~~ n := by
  have hsum := and_add_and_not (base + x) n
  have hx := and_add_and_not x n
  constructor
  · intro h
    rw [h] at hsum
    grind
  · intro h
    rw [h] at hsum
    grind

/-- Bits can be set before a sum or after it if the sum changes none of them. -/
theorem or_eq_add_iff (base x n : BitVec 64) :
    (base + x) ||| n = base + (x ||| n) ↔ (base + x) &&& n = x &&& n := by
  have h := and_eq_add_iff base x (~~~ n)
  rw [BitVec.not_not] at h
  rw [or_eq_add, or_eq_add, ← BitVec.add_assoc, ← h]
  exact BitVec.add_left_inj n

section Distance
variable {base target n : Int}

theorem ofInt_eq_add (base target : Int) :
    BitVec.ofInt 64 target = BitVec.ofInt 64 base + BitVec.ofInt 64 (target - base) := by
  rw [← BitVec.ofInt_add]
  congr 1
  omega

theorem bitAnd_eq_add_iff (h : Fits (base + bitAnd (target - base) n)) :
    bitAnd target n = base + bitAnd (target - base) n ↔
      bitAnd target (-n - 1) = bitAnd (target - base) (-n - 1) := by
  unfold bitAnd at h ⊢
  rw [toInt_eq_add h, BitVec.toInt_inj, ofInt_complement, ofInt_eq_add base target, and_eq_add_iff]

theorem bitOr_eq_add_iff (h : Fits (base + bitOr (target - base) n)) :
    bitOr target n = base + bitOr (target - base) n ↔ bitAnd target n = bitAnd (target - base) n := by
  unfold bitOr at h ⊢
  unfold bitAnd
  rw [toInt_eq_add h, BitVec.toInt_inj, ofInt_eq_add base target, or_eq_add_iff]

end Distance

end Signed64

/-! ### Operations before and after a sum -/

namespace ArithmeticOp
variable {base target k : Nat} {n : Int}

theorem mul_eq_add_iff (hbase : 2 ≤ base) :
    (target : Int) * n = base + ((target : Int) - base) * n ↔ n = 1 := by
  rw [Int.sub_mul]
  constructor
  · intro h
    have hprod : (base : Int) * n = base * 1 := by omega
    exact Int.eq_of_mul_eq_mul_left (by omega) hprod
  · rintro rfl
    omega

theorem tdiv_eq_add_iff (hbase : 2 ≤ base) (hn : n ≠ 0) :
    (target : Int).tdiv n = base + ((target : Int) - base).tdiv n ↔ n = 1 := by
  constructor
  · intro h
    obtain ⟨_, hsmall, hsign, _⟩ : Exact .div target n _ := exact_div.mpr ⟨hn, rfl⟩
    obtain ⟨_, hsmall', _, _⟩ : Exact .div ((target : Int) - base) n _ := exact_div.mpr ⟨hn, rfl⟩
    have hsign := hsign (by omega)
    -- what the two quotients leave differs by a multiple of the base that leaves room for one only
    rw [h, Int.mul_add] at hsmall hsign
    by_cases hpos : 0 < n
    · have hle : 2 * (n - 1) ≤ base * (n - 1) := Int.mul_le_mul_of_nonneg_right (by omega) (by omega)
      rw [Int.mul_sub (base : Int), Int.mul_comm (base : Int) n] at hle
      omega
    · have hle : 2 * (1 - n) ≤ base * (1 - n) := Int.mul_le_mul_of_nonneg_right (by omega) (by omega)
      rw [Int.mul_sub (base : Int), Int.mul_comm (base : Int) n] at hle
      omega
  · rintro rfl
    rw [Int.tdiv_one, Int.tdiv_one]
    omega

/-- A power of two is one more than an odd number. -/
theorem mul_pow_eq_add (base : Nat) (hk : 0 < k) : ∃ odd : Nat, odd % 2 = 1 ∧
    Int.pow 2 k = odd + 1 ∧ (base : Int) * Int.pow 2 k = (base * odd : Nat) + base := by
  have hpos : 0 < Nat.pow 2 (k - 1) := Nat.pow_pos (by decide)
  have hsucc : Nat.pow 2 (k - 1) * 2 = Nat.pow 2 k := Nat.two_pow_pred_mul_two hk
  have hpow : Int.pow 2 k = (Nat.pow 2 k - 1 : Nat) + 1 := by
    rw [Signed64.pow_eq_natCast]
    omega
  refine ⟨Nat.pow 2 k - 1, by omega, hpow, ?_⟩
  rw [hpow, Int.mul_add, Int.mul_one, Int.natCast_mul]

theorem shl_eq_add_iff (hbase : 2 ≤ base) (hle : base ≤ memorySize + 2) (ht : target ≤ memorySize) :
    Signed64.wrap (target * Int.pow 2 k) = base + Signed64.wrap (((target : Int) - base) * Int.pow 2 k) ↔
      k = 0 := by
  unfold memorySize at hle ht
  constructor
  · intro h
    refine Nat.eq_zero_of_not_pos fun hk => ?_
    obtain ⟨odd, hodd, _, hscale⟩ := mul_pow_eq_add base hk
    have hprod : (0x10000000000000000 : Int) ∣ (base * odd : Nat) := by
      have hdvd := Int.dvd_sub (Signed64.dvd_wrap_sub (((target : Int) - base) * Int.pow 2 k))
        (Signed64.dvd_wrap_sub (target * Int.pow 2 k))
      rw [h, Int.sub_mul, hscale] at hdvd
      omega
    -- an odd number has no part in the power of two, so all of it would be in the base
    have hcoprime : Nat.Coprime 0x10000000000000000 odd :=
      Nat.Coprime.pow_left 64 (by rw [Nat.Coprime, Nat.gcd_rec, hodd]; rfl)
    have := Nat.le_of_dvd (by omega) (hcoprime.dvd_of_dvd_mul_right (Int.ofNat_dvd.mp hprod))
    omega
  · rintro rfl
    show Signed64.wrap (target * 1) = base + Signed64.wrap (((target : Int) - base) * 1)
    rw [Signed64.wrap_of_fits (Signed64.fits_of_near (by omega)),
      Signed64.wrap_of_fits (Signed64.fits_of_near (by omega))]
    omega

theorem shr_eq_add_iff (hbase : 2 ≤ base) :
    (target : Int) / Int.pow 2 k = base + ((target : Int) - base) / Int.pow 2 k ↔ k = 0 := by
  constructor
  · intro h
    refine Nat.eq_zero_of_not_pos fun hk => ?_
    obtain ⟨odd, hodd, hpow, hscale⟩ := mul_pow_eq_add base hk
    have hrest := Int.mul_ediv_add_emod (target : Int) (Int.pow 2 k)
    have hrest' := Int.mul_ediv_add_emod ((target : Int) - base) (Int.pow 2 k)
    have hnonneg := Int.emod_nonneg (target : Int) (b := Int.pow 2 k) (by omega)
    have hsmall := Int.emod_lt_of_pos ((target : Int) - base) (b := Int.pow 2 k) (by omega)
    rw [h, Int.mul_add, Int.mul_comm _ (base : Int), hscale] at hrest
    have hle : 2 * odd ≤ base * odd := Nat.mul_le_mul_right odd hbase
    omega
  · rintro rfl
    show (target : Int) / 1 = base + ((target : Int) - base) / 1
    omega

/-- The operations that give on an address what they give on its distance from a base, counted from
there. A sum does; other operations on numbers only if they change nothing; and a mask if address and
distance agree in the bits that it changes. -/
def Commutes (op : ArithmeticOp) (n base target : Int) : Prop :=
  match op with
  | add => True
  | mul | div => n = 1
  | shl | shr => n = 0
  | and => Signed64.bitAnd target (-n - 1) = Signed64.bitAnd (target - base) (-n - 1)
  | or => Signed64.bitAnd target n = Signed64.bitAnd (target - base) n

/-- The operation on a distance, counted from the base, is the operation on the address exactly if the
operation commutes. -/
theorem apply_eq_add_iff {op : ArithmeticOp} {v : Int} (hbase : 2 ≤ base)
    (hle : base ≤ memorySize + 2) (ht : target ≤ memorySize) (hv : -128 ≤ v ∧ v ≤ 127)
    (h : op.apply ((target : Int) - base) n = some v) :
    op.apply target n = some (base + v) ↔ op.Commutes n base target := by
  have hfits : Signed64.Fits (base + v) := by
    unfold memorySize at hle
    exact Signed64.fits_of_near (by omega)
  cases op with
  | add =>
    obtain ⟨rfl, _⟩ := Signed64.check_eq_some.mp h
    exact iff_of_true (Signed64.check_eq_some.mpr ⟨by omega, hfits⟩) trivial
  | mul =>
    obtain ⟨rfl, _⟩ := Signed64.check_eq_some.mp h
    show Signed64.check _ = _ ↔ n = 1
    rw [Signed64.check_eq_some, and_iff_left hfits, eq_comm, mul_eq_add_iff hbase]
  | div =>
    have hn : n ≠ 0 := by
      rintro rfl
      cases h
    replace h : (if n = 0 then none else Signed64.check (((target : Int) - base).tdiv n)) = some v := h
    rw [if_neg hn] at h
    obtain ⟨rfl, _⟩ := Signed64.check_eq_some.mp h
    show (if n = 0 then none else Signed64.check _) = _ ↔ n = 1
    rw [if_neg hn, Signed64.check_eq_some, and_iff_left hfits, eq_comm, tdiv_eq_add_iff hbase hn]
  | shl =>
    obtain ⟨k, hcount, rfl⟩ := Option.map_eq_some_iff.mp h
    show (Signed64.shiftCount? n).map _ = _ ↔ n = 0
    rw [hcount, Option.map_some, Option.some.injEq, shl_eq_add_iff hbase hle ht]
    have := Signed64.shiftCount?_eq_some.mp hcount
    omega
  | shr =>
    obtain ⟨k, hcount, rfl⟩ := Option.map_eq_some_iff.mp h
    show (Signed64.shiftCount? n).map _ = _ ↔ n = 0
    rw [hcount, Option.map_some, Option.some.injEq, shr_eq_add_iff hbase]
    have := Signed64.shiftCount?_eq_some.mp hcount
    omega
  | and =>
    cases h
    exact Option.some_inj.trans (Signed64.bitAnd_eq_add_iff hfits)
  | or =>
    cases h
    exact Option.some_inj.trans (Signed64.bitOr_eq_add_iff hfits)

end ArithmeticOp

/-! ### Branches -/

/-- The bytes of a branch whose label has a modifier with an operation: the opcode, and a distance that
is the operation on the distance of the label. It leads to the result of the operation on the label's
address exactly if the operation commutes with the base. -/
def Instruction.Branches (own : List (Placed Statement)) (address : Nat) (i : Instruction)
    (name : String) (op : ArithmeticOp) (n : Int) (bytes : List UInt8) : Prop :=
  ∃ encoding target byte, i.mnemonic.encoding? .relative = some encoding ∧
    target? own address name = some target ∧ bytes = [encoding.opcode, byte] ∧
    (Modifier.arithmetic op n).apply ((target : Int) - (address + 2 : Nat)) = some byte.toInt8.toInt ∧
    ((Modifier.arithmetic op n).apply target = some ((address + 2 : Nat) + byte.toInt8.toInt) ↔
      op.Commutes n (address + 2 : Nat) target)

theorem Instruction.Resolves.branches {own : List (Placed Statement)} {address : Nat}
    {i : Instruction} {name : String} {bytes : List UInt8} {target : Nat} {v : Int}
    (h : i.Resolves own address name bytes .relative target v) (ha : address ≤ memorySize)
    (ht : target ≤ memorySize) {op : ArithmeticOp} {n : Int}
    (hx : i.modifier = some (.arithmetic op n)) : i.Branches own address name op n bytes := by
  obtain ⟨encoding, hencoding, hbytes⟩ := h.encoded
  have hrange := (Mode.accepts_iff rfl v).mp h.accepted
  obtain ⟨byte, hbyte, rfl⟩ := operandBytes_signed hrange
  have happly : op.apply ((target : Int) - (address + 2 : Nat)) n = some byte.toInt8.toInt := by
    have hv := h.value
    have href : Mode.reference (some .relative) address target = (target : Int) - (address + 2 : Nat) := by
      rw [Mode.reference, if_pos rfl]
      omega
    rw [modifiedValue?, hx, href] at hv
    exact hv
  refine ⟨encoding, target, byte, hencoding, h.found, ?_, happly, ?_⟩
  · rw [hbytes]
    exact congrArg _ hbyte
  · have hbase : 2 ≤ address + 2 := Nat.le_add_left 2 address
    exact ArithmeticOp.apply_eq_add_iff hbase (Nat.add_le_add_right ha 2) ht hrange happly

/-- **A branch follows a modifier of its label only as far as the modifier commutes** with counting from
the instruction behind the branch. -/
theorem branches_modified {b : Block} (hb : b.Fresh) {origin : Int} {p : Program}
    (h : b.link origin = .ok p) :
    ∀ own e, (own, e) ∈ p.body.sites → ∀ i name op n, e.content.statement = .instruction i →
      i.label? = some name → i.modifier = some (.arithmetic op n) → i.mode? = some .relative →
      i.Branches (own.map Placed.statement) e.address name op n e.content.bytes := by
  intro own e hsite i name op n hi hname hx hm
  obtain ⟨ha, mode, target, v, ht, hres⟩ := hb.resolves_of_link h hsite hi hname
  cases hm.symm.trans hres.chosen
  exact hres.branches ha ht hx

/-- A branch back over one instruction, with the low bit of its label set. -/
def Block.oddBranch : Block :=
  .item (.label ⟨"odd", by decide⟩) <|
  .item (.instruction ⟨.nop, .none, none, .settled .implied none⟩) <|
  .item (.instruction ⟨.bne, .label "odd", some (.arithmetic .or 1), .pending .relative⟩) .nil

theorem Block.oddBranch_fresh : Block.oddBranch.Fresh := by
  have hnop : Instruction.infer .nop .none none = .ok ⟨.nop, .none, none, .settled .implied none⟩ := rfl
  have hbne : Instruction.infer .bne (.label "odd") (some (.arithmetic .or 1)) =
      .ok ⟨.bne, .label "odd", some (.arithmetic .or 1), .pending .relative⟩ := rfl
  intro i hi
  simp only [oddBranch, Outline.leaves, List.mem_cons, Statement.instruction.injEq, reduceCtorEq,
    false_or, or_false, List.not_mem_nil] at hi
  rcases hi with rfl | rfl
  · exact .inferred hnop
  · exact .inferred hbne

theorem oddBranch_modified : ∃ p own e i, Block.oddBranch.link 0x1000 = .ok p ∧
    (own, e) ∈ p.body.sites ∧ e.address = 0x1001 ∧ e.content.bytes = [0xd0, 0xfd] ∧
    e.content.statement = .instruction i ∧ i.label? = some "odd" ∧
    i.modifier = some (.arithmetic .or 1) ∧ i.mode? = some .relative ∧
    i.Branches (own.map Placed.statement) e.address "odd" .or 1 e.content.bytes := by
  obtain ⟨p, own, e, i, hp, hsite, ha, hbytes, hi, hname, hx, hm⟩ : ∃ p own e i,
      Block.oddBranch.link 0x1000 = .ok p ∧ p.body.sites[2]? = some (own, e) ∧ e.address = 0x1001 ∧
      e.content.bytes = [0xd0, 0xfd] ∧ e.content.statement = .instruction i ∧ i.label? = some "odd" ∧
      i.modifier = some (.arithmetic .or 1) ∧ i.mode? = some .relative :=
    ⟨_, _, _, _, rfl, rfl, rfl, rfl, rfl, rfl, rfl, rfl⟩
  have hmem := List.mem_of_getElem? hsite
  exact ⟨p, own, e, i, hp, hmem, ha, hbytes, hi, hname, hx, hm,
    branches_modified Block.oddBranch_fresh hp own e hmem i _ _ _ hi hname hx hm⟩

/-- The branch leads to the label, although the modified address lies one behind it. -/
theorem oddBranch_ignores_modifier :
    (∃ p, Block.oddBranch.link 0x1000 = .ok p ∧ p.code = [0xea, 0xd0, 0xfd]) ∧
    (Modifier.arithmetic .or 1).apply 0x1000 = some 0x1001 ∧
    (0x1001 + 2 : Int) + (0xfd : UInt8).toInt8.toInt = 0x1000 :=
  ⟨⟨_, rfl, rfl⟩, by decide, by decide⟩

end Asm6502

import Asm6502.Proofs.LineChain
import Asm6502.Proofs.Outcome

/-! How far a tokenized listing reaches.

A listing is refused as soon as the address behind one of its lines is no word. The two bytes that
close the chain stand behind the last of these addresses and are not checked, so a listing can be
accepted whose closing link begins at the very last address and ends beyond the memory.
`tokenized_reach` says that this is the only way not to fit, and that the block of a tokenized
listing links at its origin in every other case. -/
namespace Asm6502.BasicV2

theorem Chainable.closing_le {address : Nat} {lines : List Line} (h : Chainable address lines)
    (ha : address ≤ 0xffff) : closing address lines ≤ 0xffff := by
  induction h with
  | nil => exact ha
  | cons _ _ hnext _ ih => exact ih hnext

/-- The closing link of an accepted listing begins in the memory. -/
theorem tokenize_closing {listing : String} {origin : UInt16} {bytes : List UInt8}
    (h : tokenize listing origin = .ok bytes) :
    ∃ closing ≤ 0xffff, origin.toNat + bytes.length = closing + 2 := by
  obtain ⟨lines, rfl, hchain, _⟩ := chain_eq_ok h
  have horigin : origin.toNat ≤ 0xffff := Nat.le_of_lt_succ origin.toNat_lt
  exact ⟨_, hchain.closing_le horigin, length_chained _ _⟩

namespace Tokenized

/-- The block of a tokenized listing has no instruction. -/
theorem code_reachable (t : Tokenized) : t.code.Reachable := by
  intro i hi
  unfold code at hi
  split at hi <;> simp [Block.single, Outline.leaves] at hi

theorem code_startFor (t : Tokenized) : t.code.startFor t.origin.toNat = t.origin.toNat := by
  unfold code
  cases t.aligned <;> rfl

/-- Laying out the block of a tokenized listing at its origin can fail for its length only. -/
theorem code_firstFault (t : Tokenized) : firstFault t.origin.toNat t.code.leaves =
    Statement.overflow? t.origin.toNat (.data (Data.ofBytes t.bytes)) := by
  have hdata : firstFault t.origin.toNat [.data (Data.ofBytes t.bytes)] =
      Statement.overflow? t.origin.toNat (.data (Data.ofBytes t.bytes)) := by
    rw [firstFault_cons]
    exact Option.or_none
  unfold code
  cases t.aligned with
  | false => exact hdata
  | true =>
    have halign : Statement.fault? t.origin.toNat (.align ⟨t.origin⟩) = none :=
      Statement.fault?_align ⟨t.origin⟩
    show firstFault t.origin.toNat (.align ⟨t.origin⟩ :: [.data (Data.ofBytes t.bytes)]) = _
    rw [firstFault_cons, halign]
    exact hdata

theorem code_firstReferenceFault (t : Tokenized) :
    t.code.firstReferenceFault t.origin.toNat = none := by
  unfold code
  cases t.aligned <;> rfl

/-- Linked at its origin, the block of a tokenized listing overflows the memory or is a program. -/
theorem failure_link_code (t : Tokenized) : failure? (t.code.link t.origin.toNat) =
    if memorySize < t.origin.toNat + t.bytes.length
    then some (.programOverflow (t.origin.toNat + t.bytes.length)) else none := by
  have horigin : (0 : Int) ≤ t.origin.toNat ∧ (t.origin.toNat : Int) ≤ 0xffff := by
    have := t.origin.toNat_lt
    omega
  rw [failure_link t.code_reachable horigin, Int.toNat_natCast, code_startFor, code_firstFault,
    code_firstReferenceFault, Option.or_none]
  rfl

theorem ofListing_eq_ok {listing : String} {origin : Int} {aligned : Bool} {t : Tokenized}
    (h : ofListing listing origin aligned = .ok t) :
    (t.origin.toNat : Int) = origin ∧ tokenize listing t.origin = .ok t.bytes := by
  unfold ofListing Word.ofInt? at h
  split at h
  · rename_i address haddress
    obtain ⟨bytes, hbytes, h⟩ := bind_eq_ok.mp h
    cases h
    split at haddress
    · cases haddress
      refine ⟨?_, hbytes⟩
      rw [UInt16.toNat_ofNat']
      omega
    · cases haddress
  · cases h

end Tokenized

/-- **How far an accepted listing reaches.** It ends in the memory, or one byte beyond it when the
closing link begins at the last address. Its block, aligned or not, links at the origin in the
first case and overflows the memory in the second. -/
theorem tokenized_reach {listing : String} {origin : Int} {aligned : Bool} {t : Tokenized}
    (h : Tokenized.ofListing listing origin aligned = .ok t) :
    (origin + t.bytes.length ≤ 0x10000 ↔ origin + (t.bytes.length - 2) ≠ 0xffff) ∧
    (origin + t.bytes.length ≤ 0x10000 → ∃ p, t.code.link origin = .ok p) ∧
    (¬ origin + t.bytes.length ≤ 0x10000 →
      origin + t.bytes.length = 0x10001 ∧ t.code.link origin = .error (.programOverflow 0x10001)) := by
  obtain ⟨horigin, htokens⟩ := Tokenized.ofListing_eq_ok h
  obtain ⟨closing, hle, hstop⟩ := tokenize_closing htokens
  have hlink := t.failure_link_code
  rw [horigin] at hlink
  unfold memorySize at hlink
  refine ⟨by omega, fun hfits => ?_, fun hbeyond => ⟨by omega, ?_⟩⟩
  · rw [if_neg (by omega)] at hlink
    exact failure?_eq_none.mp hlink
  · have hend : t.origin.toNat + t.bytes.length = 0x10001 := by omega
    rw [hend] at hlink
    exact failure?_eq_some.mp hlink

/-- A listing that fits, up to the last byte of the memory. -/
theorem last_byte_reach : ∃ t p, Tokenized.ofListing "10 END" 0xfff8 true = .ok t ∧
    (0xfff8 : Int) + t.bytes.length = 0x10000 ∧ t.code.link 0xfff8 = .ok p := by
  have h : Tokenized.ofListing "10 END" 0xfff8 true =
      .ok ⟨"10 END", 0xfff8, true, [0xfe, 0xff, 0x0a, 0x00, 0x80, 0x00, 0x00, 0x00]⟩ := by decide +kernel
  obtain ⟨_, hlink, _⟩ := tokenized_reach h
  obtain ⟨p, hp⟩ := hlink (by decide)
  exact ⟨_, p, h, by decide, hp⟩

/-- One byte further on, the same listing is accepted and does not fit. -/
theorem tokenize_beyond_memory : ∃ bytes t, tokenize "10 END" 0xfff9 = .ok bytes ∧
    ¬ (0xfff9 + bytes.length ≤ 0x10000) ∧ Tokenized.ofListing "10 END" 0xfff9 false = .ok t ∧
    t.code.link 0xfff9 = .error (.programOverflow 0x10001) := by
  have htokens : tokenize "10 END" 0xfff9 = .ok [0xff, 0xff, 0x0a, 0x00, 0x80, 0x00, 0x00, 0x00] := by
    decide +kernel
  have hlisting : Tokenized.ofListing "10 END" 0xfff9 false =
      .ok ⟨"10 END", 0xfff9, false, [0xff, 0xff, 0x0a, 0x00, 0x80, 0x00, 0x00, 0x00]⟩ := by decide +kernel
  exact ⟨_, _, htokens, by decide, hlisting, rfl⟩

end Asm6502.BasicV2

import Asm6502.Proofs.ChainReach

/-! Two ways to place a tokenized listing.

An alignment to the address it stands at contributes no bytes and no label, so a block behind it links
as it does from that address alone, whatever origin is asked for (`Block.link_align`). The block of a
tokenized listing carries its origin as such an alignment or leaves it to the caller.
`placements_agree` says that both come to the same program file, or to the same error. -/
namespace Asm6502

/-! ### An alignment in front -/

/-- A program with an alignment to its first address in front. -/
def Program.behind (p : Program) (a : Align) : Program :=
  { p with body := .item ⟨a.address.toNat, ⟨.align a, []⟩⟩ p.body }

/-- In the layout, what follows is placed as if the alignment were not there. -/
theorem Layout.place_align (a : Align) (b : Block) :
    place a.address.toNat .empty (.item (.align a) b) =
      (place a.address.toNat .empty b).map fun after =>
        { after with body := .item ⟨a.address.toNat, .align a⟩ after.body } := by
  have hstop : (Statement.align a).stopAt a.address.toNat = a.address.toNat := by
    simp [Statement.stopAt]
  rw [place_item, Statement.fault?_align]
  simp only [hstop]
  rfl

theorem Layout.emit_align (a : Align) (labels : SymbolTable) (rest : Outline Scope (Placed Statement)) :
    emit labels (.item ⟨a.address.toNat, .align a⟩ rest) =
      (emit labels rest).map (.item ⟨a.address.toNat, ⟨.align a, []⟩⟩) := by
  have hbytes : (Statement.align a).emit labels a.address.toNat = .ok ⟨.align a, []⟩ := by
    rw [Statement.emit, Nat.sub_self]
    rfl
  rw [emit, hbytes]
  cases emit labels rest <;> rfl

/-- **An alignment to where it stands changes no byte**, in either pass. -/
theorem Block.linkFrom_align (a : Align) (b : Block) :
    linkFrom (.item (.align a) b) a.address.toNat =
      (linkFrom b a.address.toNat).map (·.behind a) := by
  unfold linkFrom
  rw [Layout.place_align]
  cases Layout.place a.address.toNat .empty b with
  | error e => rfl
  | ok layout =>
    show (Layout.emit layout.labels (.item ⟨a.address.toNat, .align a⟩ layout.body) >>= _) =
      (Layout.emit layout.labels layout.body >>= _).map _
    rw [Layout.emit_align]
    cases Layout.emit layout.labels layout.body <;> rfl

/-- Behind a leading alignment, the origin that is asked for does not matter. -/
theorem Block.link_align (a : Align) (b : Block) {origin : Int} (h : 0 ≤ origin ∧ origin ≤ 0xffff) :
    link (.item (.align a) b) origin = (linkFrom b a.address.toNat).map (·.behind a) := by
  rw [link_of_origin h, ← linkFrom_align]
  rfl

/-! ### Bytes at an address -/

/-- A program file that loads bytes at an address and has nothing else in it. -/
structure Program.Loads (p : Program) (address : Nat) (bytes : List UInt8) : Prop where
  origin : p.origin = address
  stop : p.stop = address + bytes.length
  image : p.image = Word.littleEndian address ++ bytes

theorem Program.Loads.behind {p : Program} {address : Nat} {bytes : List UInt8}
    (h : p.Loads address bytes) (a : Align) : (p.behind a).Loads address bytes :=
  ⟨h.origin, h.stop, h.image⟩

/-- **Data alone** are loaded where they are linked, or overflow the memory. -/
theorem Block.linkFrom_data (d : Data) (address : Nat) :
    (address + d.bytes.length ≤ memorySize →
      ∃ p, linkFrom (single (.data d)) address = .ok p ∧ p.Loads address d.bytes) ∧
    (memorySize < address + d.bytes.length →
      linkFrom (single (.data d)) address = .error (.programOverflow (address + d.bytes.length))) := by
  have hplace : Layout.place address .empty (single (.data d)) =
      (Layout.checkStop (address + d.bytes.length)).map fun next =>
        ⟨next, .empty, .item ⟨address, .data d⟩ .nil, []⟩ := by
    show (Layout.checkStop (address + d.bytes.length) >>= _) = _
    cases Layout.checkStop (address + d.bytes.length) <;> rfl
  unfold linkFrom
  rw [hplace, Layout.checkStop]
  constructor
  · intro hfits
    rw [if_pos hfits]
    refine ⟨_, rfl, rfl, rfl, ?_⟩
    show Word.littleEndian address ++ (d.bytes ++ []) = _
    rw [List.append_nil]
  · intro hbeyond
    rw [if_neg (Nat.not_le.mpr hbeyond)]
    rfl

/-! ### Tokenized listings -/

namespace BasicV2

/-- Whether a listing is to be aligned does not matter for tokenizing it. -/
theorem Tokenized.ofListing_aligned {listing : String} {origin : Int} {aligned : Bool} {t : Tokenized}
    (h : ofListing listing origin aligned = .ok t) (other : Bool) :
    ofListing listing origin other = .ok { t with aligned := other } := by
  unfold ofListing at h ⊢
  split at h
  · obtain ⟨bytes, hbytes, h⟩ := bind_eq_ok.mp h
    cases h
    rw [hbytes]
    rfl
  · cases h

/-- **Both placements agree.** Asked for any origin, the aligned block of a tokenized listing links as
the plain one does at the origin of the listing: to a file that loads the tokens there, or to an
overflow of the memory. -/
theorem placements_agree {listing : String} {origin : Int} {aligned : Bool} {t : Tokenized}
    (h : Tokenized.ofListing listing origin aligned = .ok t) : ∃ placed plain : Tokenized,
      Tokenized.ofListing listing origin true = .ok placed ∧
      Tokenized.ofListing listing origin false = .ok plain ∧
      ∀ asked : Int, 0 ≤ asked → asked ≤ 0xffff →
        (origin.toNat + t.bytes.length ≤ 0x10000 →
          ∃ p q, placed.code.link asked = .ok p ∧ plain.code.link origin = .ok q ∧
            p.Loads origin.toNat t.bytes ∧ q.Loads origin.toNat t.bytes) ∧
        (0x10000 < origin.toNat + t.bytes.length →
          placed.code.link asked = .error (.programOverflow (origin.toNat + t.bytes.length)) ∧
          plain.code.link origin = .error (.programOverflow (origin.toNat + t.bytes.length))) := by
  obtain ⟨horigin, _⟩ := Tokenized.ofListing_eq_ok h
  obtain rfl : origin = t.origin.toNat := horigin.symm
  have hword : (0 : Int) ≤ t.origin.toNat ∧ (t.origin.toNat : Int) ≤ 0xffff := by
    have := t.origin.toNat_lt
    omega
  have hplain : ({ t with aligned := false } : Tokenized).code.link t.origin.toNat =
      (Block.single (.data (Data.ofBytes t.bytes))).linkFrom t.origin.toNat := link_of_origin hword
  obtain ⟨hfits, hbeyond⟩ := Block.linkFrom_data (Data.ofBytes t.bytes) t.origin.toNat
  refine ⟨_, _, Tokenized.ofListing_aligned h true, Tokenized.ofListing_aligned h false, ?_⟩
  intro asked hlow hhigh
  have hplaced : ({ t with aligned := true } : Tokenized).code.link asked =
      ((Block.single (.data (Data.ofBytes t.bytes))).linkFrom t.origin.toNat).map
        (·.behind ⟨t.origin⟩) := Block.link_align ⟨t.origin⟩ _ ⟨hlow, hhigh⟩
  rw [hplain, hplaced, Int.toNat_natCast]
  constructor
  · intro hle
    obtain ⟨q, hq, hloads⟩ := hfits hle
    rw [hq]
    exact ⟨_, q, rfl, rfl, hloads.behind _, hloads⟩
  · intro hlt
    have herror := hbeyond hlt
    rw [herror]
    exact ⟨rfl, rfl⟩

/-- Asked for another page, the aligned block gives the same file. -/
theorem listing_placements : ∃ placed plain p q,
    Tokenized.ofListing "10 PRINT" 0x0801 true = .ok placed ∧
    Tokenized.ofListing "10 PRINT" 0x0801 false = .ok plain ∧
    placed.code.link 0xc000 = .ok p ∧ plain.code.link 0x0801 = .ok q ∧
    p.origin = 0x0801 ∧ p.stop = 0x0809 ∧ p.image = q.image ∧
    q.image = [0x01, 0x08, 0x07, 0x08, 0x0a, 0x00, 0x99, 0x00, 0x00, 0x00] := by
  have h : Tokenized.ofListing "10 PRINT" 0x0801 true =
      .ok ⟨"10 PRINT", 0x0801, true, [0x07, 0x08, 0x0a, 0x00, 0x99, 0x00, 0x00, 0x00]⟩ := by decide +kernel
  obtain ⟨placed, plain, hplaced, hplain, hlinks⟩ := placements_agree h
  obtain ⟨p, q, hp, hq, hloads, hother⟩ := (hlinks 0xc000 (by decide) (by decide)).1 (by decide)
  exact ⟨placed, plain, p, q, hplaced, hplain, hp, hq, hloads.origin, hloads.stop,
    hloads.image.trans hother.image.symm, hother.image⟩

end BasicV2

end Asm6502

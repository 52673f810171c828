import Asm6502.Proofs.Image
import Asm6502.Proofs.Origin
import Asm6502.Proofs.Relinking

/-! Blocks that are ready.

A block is ready if all its instructions are settled, and that is the case if they can be encoded as
they stand (`Block.isReady_iff`). Then no label is looked up: every statement emits itself, wherever it
stands and whatever the labels (`Statement.emit_of_isReady`), so the second pass follows the first
without fail, and the code is what the statements encode to one behind another (`ownCode`). A label
emits nothing and is asked for by no one, so its name is of no account. `link_of_isReady` puts this
together: what is ready, that it links from wherever it can be laid out, to which code, and that
blocks that differ in the names of their labels alone link to the same image. -/
namespace Asm6502

/-! ### The code of statements -/

/-- The bytes of a statement as it stands, at an address. An alignment contributes zeroes up to its
target. -/
def Statement.ownBytes (address : Nat) : Statement → Except EncodeError (List UInt8)
  | instruction i => i.encode
  | label _ => .ok []
  | align a => .ok (List.replicate (a.address.toNat - address) 0)
  | data d => .ok d.bytes

/-- The bytes of statements one behind another, from an address on. -/
def ownCode (address : Nat) : List Statement → Except EncodeError (List UInt8)
  | [] => .ok []
  | s :: rest => do
    let bytes ← s.ownBytes address
    let after ← ownCode (address + bytes.length) rest
    return bytes ++ after

theorem ownCode_cons {address : Nat} {s : Statement} {ss : List Statement} {bytes after : List UInt8}
    (hs : s.ownBytes address = .ok bytes) (hss : ownCode (address + bytes.length) ss = .ok after) :
    ownCode address (s :: ss) = .ok (bytes ++ after) := by
  simp only [ownCode, hs, bind, Except.bind, hss]
  rfl

theorem ownCode_append {address : Nat} {ss ts : List Statement} {bytes after : List UInt8}
    (hss : ownCode address ss = .ok bytes) (hts : ownCode (address + bytes.length) ts = .ok after) :
    ownCode address (ss ++ ts) = .ok (bytes ++ after) := by
  induction ss generalizing address bytes with
  | nil =>
    cases hss
    exact hts
  | cons s ss ih =>
    obtain ⟨first, hfirst, h⟩ := bind_eq_ok.mp hss
    obtain ⟨rest, hrest, h⟩ := bind_eq_ok.mp h
    cases h
    rw [List.length_append, ← Nat.add_assoc] at hts
    rw [List.append_assoc]
    exact ownCode_cons hfirst (ih hrest hts)

/-! ### Statements that are ready -/

theorem Instruction.Sound.isReady_iff {i : Instruction} (hi : i.Sound) :
    i.isReady = true ↔ ∃ bytes, i.encode = .ok bytes := by
  constructor
  · intro hr
    obtain ⟨bytes, hbytes, -⟩ := hi.encode_of_ready hr
    exact ⟨bytes, hbytes⟩
  · rintro ⟨bytes, hbytes⟩
    exact isReady_of_encode hbytes

/-- **A statement that is ready emits itself**, whatever the labels. -/
theorem Statement.emit_of_isReady {s : Statement} (hs : s.Sound) (hr : s.isReady = true) (address : Nat) :
    ∃ bytes, s.ownBytes address = .ok bytes ∧ ∀ labels, s.emit labels address = .ok ⟨s, bytes⟩ := by
  cases s with
  | instruction i =>
    obtain ⟨bytes, hbytes⟩ := (hs i rfl).isReady_iff.mp hr
    exact ⟨bytes, hbytes, fun labels =>
      emit_instruction (Instruction.resolveAt_of_isReady hr labels address) hbytes⟩
  | _ => exact ⟨_, rfl, fun _ => rfl⟩

namespace Block

theorem isReady_iff_leaves {b : Block} : b.isReady = true ↔ ∀ s ∈ b.leaves, s.isReady = true :=
  List.all_eq_true

/-- **Ready is what can be encoded.** -/
theorem isReady_iff {b : Block} (hb : b.Reachable) :
    b.isReady = true ↔ ∀ i, .instruction i ∈ b.leaves → ∃ bytes, i.encode = .ok bytes := by
  rw [isReady_iff_leaves]
  constructor
  · intro h i hi
    exact (hb i hi).sound.isReady_iff.mp (h _ hi)
  · intro h s hs
    cases s with
    | instruction i => exact (hb i hs).sound.isReady_iff.mpr (h i hs)
    | _ => rfl

end Block

/-! ### Blocks that are ready -/

section Ready
variable {b : Block} (hb : ∀ s ∈ b.leaves, s.Sound) (hr : ∀ s ∈ b.leaves, s.isReady = true)
include hb hr

/-- The second pass goes through, and changes no statement. -/
theorem emits_of_isReady (labels : SymbolTable) (address : Nat) :
    ∃ out, Emits labels (b.placed address) out ∧ blockOf out = b := by
  induction b generalizing labels address with
  | nil => exact ⟨.nil, .nil, rfl⟩
  | item s rest ih =>
    obtain ⟨hs, hrest⟩ := List.forall_mem_cons.mp hb
    obtain ⟨hsr, hrestr⟩ := List.forall_mem_cons.mp hr
    obtain ⟨bytes, -, hemit⟩ := Statement.emit_of_isReady hs hsr address
    obtain ⟨out, hout, hsame⟩ := ih hrest hrestr labels (s.stopAt address)
    exact ⟨.item ⟨address, ⟨s, bytes⟩⟩ out, .item (hemit labels) hout, congrArg _ hsame⟩
  | group _ inner rest ihi ihr =>
    obtain ⟨hinner, hrest⟩ := List.forall_mem_append.mp hb
    obtain ⟨hinnerr, hrestr⟩ := List.forall_mem_append.mp hr
    obtain ⟨out, hout, hsame⟩ := ihi hinner hinnerr _ address
    obtain ⟨out', hout', hsame'⟩ := ihr hrest hrestr labels _
    exact ⟨.group _ out out', .group hout hout', congr (congrArg _ hsame) hsame'⟩

/-- What is emitted is the code of the statements themselves. -/
theorem ownCode_of_emits {labels : SymbolTable} {address : Nat} {out : Outline Scope (Placed Emitted)}
    (ha : address ≤ memorySize) (hf : firstFault address b.leaves = none)
    (h : Emits labels (b.placed address) out) : ownCode address b.leaves = .ok (bytesOf out) := by
  induction b generalizing labels address out with
  | nil =>
    cases h
    rfl
  | item s rest ih =>
    cases h with
    | @item _ _ e _ out he hout =>
      obtain ⟨hs, hrest⟩ := List.forall_mem_cons.mp hb
      obtain ⟨hsr, hrestr⟩ := List.forall_mem_cons.mp hr
      rw [Outline.leaves, firstFault_cons, Option.or_eq_none_iff] at hf
      obtain ⟨bytes, hbytes, hemit⟩ := Statement.emit_of_isReady hs hsr address
      cases (hemit labels).symm.trans he
      have hlen : address + bytes.length = s.stopAt address := Statement.emit_length hs hf.1 he
      refine ownCode_cons hbytes ?_
      rw [hlen]
      exact ih hrest hrestr (Statement.stopAt_of_fault hf.1).2 hf.2 hout
  | group _ inner rest ihi ihr =>
    cases h with
    | @group _ _ _ _ out out' hout hout' =>
      obtain ⟨hinner, hrest⟩ := List.forall_mem_append.mp hb
      obtain ⟨hinnerr, hrestr⟩ := List.forall_mem_append.mp hr
      rw [Outline.leaves, firstFault_append, Option.or_eq_none_iff] at hf
      have hlen : address + (bytesOf out).length = Block.stopAt address inner :=
        (tiles_of_emits hinner ha hf.1 hout).length
      rw [bytesOf_group]
      refine ownCode_append (ihi hinner hinnerr ha hf.1 hout) ?_
      rw [hlen]
      exact ihr hrest hrestr (runningAddress_le ha hf.1) hf.2 hout'

end Ready

/-- A ready block that can be laid out links to the code of its statements. -/
theorem Block.linksTo_of_isReady {b : Block} (hb : b.Reachable) (hr : b.isReady = true) {address : Nat}
    (ha : address ≤ memorySize) (hf : firstFault address b.leaves = none) :
    ∃ p, b.LinksTo address p ∧ ownCode address b.leaves = .ok p.code := by
  have hsound := Statement.sound_of_reachable hb
  have hready := isReady_iff_leaves.mp hr
  obtain ⟨out, hout, -⟩ := emits_of_isReady hsound hready (b.labelsAt address) address
  refine ⟨⟨⟨address, b.stopAt address, b.labelsAt address⟩, out, b.redefinitions address .empty⟩,
    ⟨.inl ha, hf, rfl, rfl, hout⟩, ?_⟩
  exact ownCode_of_emits hsound hready ha hf hout

/-! ### Names of labels -/

/-- The statement without the name it defines. -/
def Statement.nameless : Statement → Option Statement
  | label _ => none
  | s => some s

namespace Statement

theorem nameless_eq_none {s : Statement} (h : s.nameless = none) : ∃ l, s = label l := by
  cases s with
  | label l => exact ⟨l, rfl⟩
  | _ => cases h

theorem nameless_eq_some {s t : Statement} (h : s.nameless = some t) : s = t := by
  cases s <;> cases h <;> rfl

/-- What does not read the name of a label is the same for statements that differ in nothing else. -/
theorem congr_nameless {α : Type} {f : Statement → α} (hf : ∀ l m, f (label l) = f (label m))
    {s t : Statement} (h : s.nameless = t.nameless) : f s = f t := by
  cases ht : t.nameless with
  | none =>
    obtain ⟨l, rfl⟩ := nameless_eq_none (h.trans ht)
    obtain ⟨m, rfl⟩ := nameless_eq_none ht
    exact hf l m
  | some u => rw [nameless_eq_some (h.trans ht), nameless_eq_some ht]

end Statement

section Nameless
variable {ss ts : List Statement} (h : List.Forall₂ (fun s t => s.nameless = t.nameless) ss ts)
include h

theorem firstFault_nameless (address : Nat) : firstFault address ss = firstFault address ts := by
  induction h generalizing address with
  | nil => rfl
  | @cons s t _ _ hst _ ih =>
    have hfault : s.fault? address = t.fault? address :=
      Statement.congr_nameless (f := Statement.fault? address) (fun _ _ => rfl) hst
    have hstop : s.stopAt address = t.stopAt address :=
      Statement.congr_nameless (f := Statement.stopAt address) (fun _ _ => rfl) hst
    rw [firstFault_cons, firstFault_cons, hfault, hstop, ih]

theorem ownCode_nameless (address : Nat) : ownCode address ss = ownCode address ts := by
  induction h generalizing address with
  | nil => rfl
  | @cons s t _ _ hst _ ih =>
    have hbytes : s.ownBytes address = t.ownBytes address :=
      Statement.congr_nameless (f := Statement.ownBytes address) (fun _ _ => rfl) hst
    simp only [ownCode, hbytes, ih]

end Nameless

namespace Block

/-- Do the blocks differ in nothing but the names of their labels? -/
def SameButNames (b c : Block) : Prop := b.map id Statement.nameless = c.map id Statement.nameless

namespace SameButNames
variable {b c : Block}

theorem map_leaves (h : b.SameButNames c) :
    b.leaves.map Statement.nameless = c.leaves.map Statement.nameless := by
  rw [← Outline.leaves_map id, ← Outline.leaves_map id]
  exact congrArg Outline.leaves h

theorem leaves (h : b.SameButNames c) :
    List.Forall₂ (fun s t => s.nameless = t.nameless) b.leaves c.leaves := by
  have hmap := h.map_leaves
  rwa [← List.forall₂_eq_eq_eq, List.forall₂_map_left_iff, List.forall₂_map_right_iff] at hmap

theorem instruction_mem (h : b.SameButNames c) {i : Instruction} (hi : .instruction i ∈ c.leaves) :
    .instruction i ∈ b.leaves := by
  have hmem : (Statement.instruction i).nameless ∈ b.leaves.map Statement.nameless := by
    rw [h.map_leaves]
    exact List.mem_map_of_mem hi
  obtain ⟨s, hs, hname⟩ := List.mem_map.mp hmem
  rwa [Statement.nameless_eq_some hname] at hs

theorem leadingAlign? (h : b.SameButNames c) : b.leadingAlign? = c.leadingAlign? := by
  induction b generalizing c with
  | nil =>
    cases c with
    | nil => rfl
    | _ => cases h
  | item s rest _ =>
    cases c with
    | item t others =>
      have hfirst : ∀ s rest, Block.leadingAlign? (.item s rest) = Block.leadingAlign? (.item s .nil) := by
        intro s rest
        cases s <;> rfl
      rw [hfirst s rest, hfirst t others]
      exact Statement.congr_nameless (f := fun s => Block.leadingAlign? (.item s .nil)) (fun _ _ => rfl)
        (Outline.item.inj h).1
    | _ => cases h
  | group _ inner rest ihi _ =>
    cases c with
    | group _ others _ =>
      have hinner : SameButNames inner others := (Outline.group.inj h).2.1
      rw [Block.leadingAlign?, ihi hinner, Block.leadingAlign?]
    | _ => cases h

end SameButNames

/-! ### Readiness -/

/-- A block that can be laid out from the origin asked for can be laid out from where linking begins. -/
theorem firstFault_startFor {b : Block} {origin : Nat} (h : firstFault origin b.leaves = none) :
    firstFault (b.startFor origin) b.leaves = none := by
  cases hlead : b.leadingAlign? with
  | none =>
    rw [startFor_of_no_align hlead]
    exact h
  | some a =>
    -- the walk goes on from the target of the alignment, wherever it came from
    obtain ⟨rest, hrest⟩ := List.head?_eq_some_iff.mp (leadingAlign?_eq_some_iff.mp hlead).1
    rw [hrest, firstFault_cons, Option.or_eq_none_iff] at h
    rw [startFor_of_leadingAlign hlead, hrest, firstFault_cons, Statement.fault?_align, Option.none_or]
    exact h.2

theorem link_of_firstFault {b : Block} (hb : b.Reachable) (hr : b.isReady = true) {origin : Int}
    (ho : 0 ≤ origin ∧ origin ≤ 0xffff) (hf : firstFault (b.startFor origin.toNat) b.leaves = none) :
    ∃ p, b.link origin = .ok p ∧ p.origin = b.startFor origin.toNat ∧
      ownCode p.origin b.leaves = .ok p.code := by
  have hlt : origin.toNat < memorySize := by
    unfold memorySize
    omega
  obtain ⟨p, hp, hcode⟩ := linksTo_of_isReady hb hr (Nat.le_of_lt (startFor_lt hlt)) hf
  refine ⟨p, ?_, hp.origin, ?_⟩
  · rw [link_of_origin ho]
    exact linkFrom_eq_ok.mpr hp
  · rw [hp.origin]
    exact hcode

/-- What it means for a block to be ready. -/
structure Readiness (b : Block) : Prop where
  /-- The instructions can be encoded as they stand, at every depth, and a block is ready if they can. -/
  encodable : b.isReady = true ↔ ∀ i, .instruction i ∈ b.leaves → ∃ bytes, i.encode = .ok bytes
  /-- From wherever the block can be laid out, its references resolve, and no statement changes. -/
  resolves : b.isReady = true → ∀ address l, Layout.place address .empty b = .ok l →
    ∃ body, Layout.emit l.labels l.body = .ok body ∧ blockOf body = b
  /-- It links, whether it can be laid out from the origin asked for or from where linking begins, and
  the code is that of its statements one behind another. -/
  links : b.isReady = true → ∀ origin : Int, 0 ≤ origin ∧ origin ≤ 0xffff → ∀ start l,
    start = origin.toNat ∨ start = b.startFor origin.toNat → Layout.place start .empty b = .ok l →
      ∃ p, b.link origin = .ok p ∧ p.origin = b.startFor origin.toNat ∧
        ownCode p.origin b.leaves = .ok p.code
  /-- The names of labels are of no account. -/
  names : b.isReady = true → ∀ c, b.SameButNames c → ∀ origin p, b.link origin = .ok p →
    ∃ q, c.link origin = .ok q ∧ q.image = p.image

end Block

/-- **A block is ready if its instructions can be encoded**, and then linking adds nothing but
addresses. -/
theorem link_of_isReady {b : Block} (hb : b.Reachable) : b.Readiness where
  encodable := Block.isReady_iff hb
  resolves hr address l hl := by
    obtain ⟨_, _, rfl⟩ := Layout.place_eq_ok.mp hl
    obtain ⟨out, hout, hsame⟩ := emits_of_isReady (Statement.sound_of_reachable hb)
      (Block.isReady_iff_leaves.mp hr) (b.labelsAt address) address
    exact ⟨out, emit_eq_ok.mpr hout, hsame⟩
  links hr origin ho start l hstart hl := by
    obtain ⟨_, hf, _⟩ := Layout.place_eq_ok.mp hl
    rcases hstart with rfl | rfl
    · exact Block.link_of_firstFault hb hr ho (Block.firstFault_startFor hf)
    · exact Block.link_of_firstFault hb hr ho hf
  names hr c hc origin p hp := by
    obtain ⟨ho, _, hlinks⟩ := linksTo_of_link hp
    have hcr : c.Reachable := fun i hi => hb i (hc.instruction_mem hi)
    have hready : c.isReady = true := (Block.isReady_iff hcr).mpr fun i hi =>
      (Block.isReady_iff hb).mp hr i (hc.instruction_mem hi)
    have hstart : c.startFor origin.toNat = b.startFor origin.toNat := by
      rw [Block.startFor, Block.startFor, hc.leadingAlign?]
    have hf : firstFault (c.startFor origin.toNat) c.leaves = none := by
      rw [hstart, ← firstFault_nameless hc.leaves]
      exact hlinks.faultless
    obtain ⟨q, hq, horigin, hcode⟩ := Block.link_of_firstFault hcr hready ho hf
    have horigins : q.origin = p.origin := by rw [horigin, hstart, hlinks.origin]
    obtain ⟨p', hp', _, hcodes⟩ := Block.link_of_firstFault hb hr ho hlinks.faultless
    cases hp.symm.trans hp'
    rw [horigins, ← ownCode_nameless hc.leaves, hcodes] at hcode
    have hsame : p.code = q.code := Except.ok.inj hcode
    refine ⟨q, hq, ?_⟩
    rw [Program.image, Program.image, horigins, hsame]

/-- A block in which nothing waits for a label: its jump was resolved by hand, and the label that the
jump names is nowhere. -/
def Block.handResolved (name : Label) : Block :=
  .item (.label name) <|
  .item (.instruction ⟨.jmp, .label "away", none, .settled .absolute (some 0x2000)⟩) <|
  .group () (
    .item (.label name) <|
    .item (.instruction ⟨.dex, .none, none, .settled .implied none⟩) .nil) <|
  .item (.align ⟨0x1008⟩) <|
  .item (.data (Data.ofBytes [1, 2])) .nil

theorem Block.handResolved_reachable (name : Label) : (Block.handResolved name).Reachable := by
  have hjmp : Instruction.infer .jmp (.label "away") none =
      .ok ⟨.jmp, .label "away", none, .pending .absolute⟩ := rfl
  have hset : Instruction.resolve ⟨.jmp, .label "away", none, .pending .absolute⟩ 0x2000 =
      .ok ⟨.jmp, .label "away", none, .settled .absolute (some 0x2000)⟩ := rfl
  have hdex : Instruction.infer .dex .none none =
      .ok ⟨.dex, .none, none, .settled .implied none⟩ := rfl
  intro i hi
  simp only [handResolved, Outline.leaves, List.cons_append, List.nil_append, List.mem_cons,
    Statement.instruction.injEq, reduceCtorEq, false_or, or_false, List.not_mem_nil] at hi
  rcases hi with rfl | rfl
  · exact .resolve (.fresh (.inferred hjmp)) hset
  · exact .fresh (.inferred hdex)

theorem handResolved_link :
    (Block.handResolved ⟨"left", by decide⟩).isReady = true ∧
      ∃ p q, (Block.handResolved ⟨"left", by decide⟩).link 0x1000 = .ok p ∧
        (Block.handResolved ⟨"right", by decide⟩).link 0x1000 = .ok q ∧ q.image = p.image ∧
        p.code = [0x4c, 0x00, 0x20, 0xca, 0, 0, 0, 0, 1, 2] := by
  have h := link_of_isReady (Block.handResolved_reachable ⟨"left", by decide⟩)
  obtain ⟨p, hp, horigin, hcode⟩ := h.links rfl 0x1000 (by decide) 0x1000 _ (.inl rfl) rfl
  obtain ⟨q, hq, himage⟩ := h.names rfl (Block.handResolved ⟨"right", by decide⟩) rfl 0x1000 p hp
  refine ⟨rfl, p, q, hp, hq, himage, ?_⟩
  rw [horigin] at hcode
  exact Except.ok.inj hcode.symm

end Asm6502

import Asm6502.Proofs.Displacement
import Asm6502.Proofs.Origin

/-! The same block at two origins.

Only an instruction that refers to a label by its address shows where its block was linked. A branch
spans the same distance everywhere, and everything else has its bytes from itself
(`Statement.Movable.emit`). Both passes walk the block alike at either place, so `link_relocates` can
say how two programs that were linked from one block differ, and that a block whose references are all
relative links, to the same code, wherever it fits. -/
namespace Asm6502

/-! ### Programs at a distance -/

/-- Two outlines of one form, with related headings and related items. -/
inductive Outline.Alike {η θ α β : Type} (R : η → θ → Prop) (S : α → β → Prop) :
    Outline η α → Outline θ β → Prop where
  | nil : Alike R S .nil .nil
  | item {a b rest rest'} : S a b → Alike R S rest rest' → Alike R S (.item a rest) (.item b rest')
  | group {h k inner inner' rest rest'} : R h k → Alike R S inner inner' → Alike R S rest rest' →
      Alike R S (.group h inner rest) (.group k inner' rest')

/-- The modes whose operand is an address. -/
def Mode.addresses : List Mode := [.absolute, .absoluteX, .absoluteY, .indirect]

/-- Statements with bytes that do not depend on where they stand. -/
def Statement.isFixed : Statement → Bool
  | instruction i => i.label?.isNone || i.mode? = some .relative
  | label _ | data _ => true
  | align _ => false

/-- One statement as it is emitted at two places. -/
structure Emitted.Moved (d : Int) (e f : Emitted) : Prop where
  statement : f.statement.pending = e.statement.pending
  fixed : e.statement.isFixed = true → f.bytes = e.bytes
  /-- A label that stands for its address, or for an address beside it, is a word that moves. -/
  word : ∀ i name mode, e.statement = .instruction i → i.label? = some name → i.mode? = some mode →
    mode ∈ Mode.addresses → i.offset?.isSome = true →
    ∃ (j : Instruction) (v : Int) (opcode low high low' high' : UInt8),
      f.statement = .instruction j ∧ i.value? = some v ∧ j.value? = some (v + d) ∧
      e.bytes = [opcode, low, high] ∧ (low.toNat + 256 * high.toNat : Int) = v ∧
      f.bytes = [opcode, low', high'] ∧ (low'.toNat + 256 * high'.toNat : Int) = v + d

structure Placed.Moved (d : Int) (e f : Placed Emitted) : Prop where
  address : Shifted d e.address f.address
  content : e.content.Moved d f.content

/-- Two programs of one block, the second so far behind the first. -/
structure Program.Relocated (d : Int) (p q : Program) : Prop where
  size : q.stop - q.origin = p.stop - p.origin
  /-- Origin, stop and labels of the program. -/
  scope : p.scope.Moved d q.scope
  /-- Every statement at every depth, and every nested block with its labels. -/
  body : p.body.Alike (Scope.Moved d) (Placed.Moved d) q.body
  warnings : List.Forall₂ (Redefinition.Moved d) p.warnings q.warnings

/-! ### Emission at a distance -/

/-- An instruction whose label was resolved to a value, with its bytes. -/
def Emitted.resolved (m : Mnemonic) (name : String) (x : Option Modifier) (mode : Mode) (opcode : UInt8)
    (v : Int) : Emitted :=
  ⟨.instruction ⟨m, .label name, x, .settled mode (some v)⟩,
    opcode :: Instruction.operandBytes mode.operandSize v⟩

/-- When an instruction that waits for a label is emitted, and what it is then. -/
theorem Statement.emit_waiting {m : Mnemonic} {mode : Mode} {x : Option Modifier}
    (hs : m.supports mode = true) (ht : mode.TakesLabel x) (name : String) :
    ∃ opcode, ∀ labels address e,
      emit labels address (.instruction ⟨m, .label name, x, .pending mode⟩) = .ok e ↔
      ∃ target v, labels.target address name = .ok target ∧
        Instruction.modifiedValue? ⟨m, .label name, x, .pending mode⟩
          (Mode.reference (some mode) address target) = some v ∧
        mode.accepts (some v) = true ∧ e = .resolved m name x mode opcode v := by
  obtain ⟨enc, _, hencode⟩ := Instruction.encode_settled hs
  refine ⟨enc.opcode, fun labels address e => ⟨fun h => ?_, ?_⟩⟩
  · obtain ⟨j, hj, h⟩ := bind_eq_ok.mp h
    obtain ⟨_, hl | hr⟩ | ⟨other, target, hother, htarget, hres⟩ := Instruction.resolveAt_cases hj
    · cases hl
    · cases hr
    · cases hother
      obtain ⟨_, hl | hr⟩ | ⟨_, _, v, _, ho, hm, hv, rfl⟩ := Instruction.resolve_cases hres
      · cases hl
      · cases hr
      · cases ho
        simp only [hencode] at h
        cases h
        exact ⟨target, v, htarget, Instruction.modified_eq_ok.mp hm, hv, rfl⟩
  · rintro ⟨target, v, htarget, hm, hv, rfl⟩
    refine emit_instruction ?_ (hencode _ _ _)
    have hresolve : Instruction.resolve ⟨m, .label name, x, .pending mode⟩
        (Mode.reference (some mode) address target) =
        .ok ⟨m, .label name, x, .settled mode (some v)⟩ := by
      rw [Instruction.resolve_waiting ht, Instruction.modified_eq_ok.mpr hm]
      exact if_pos hv
    simp only [Instruction.resolveAt, Instruction.label?, Argument.label?, Instruction.isReady,
      Operand.isSettled, Instruction.mode?, Operand.mode?, htarget, bind, Except.bind, hresolve,
      Bool.false_eq_true, if_false]
    rfl

/-- A branch spans the same distance everywhere. -/
theorem Mode.reference_relative {d : Int} {a a' target target' : Nat} (ha : Shifted d a a')
    (ht : Shifted d target target') :
    Mode.reference (some .relative) a' target' = Mode.reference (some .relative) a target := by
  unfold Shifted at ha ht
  show (target' : Int) - a' - 2 = target - a - 2
  omega

/-- All other references are to the address. -/
theorem Mode.reference_address {mode : Mode} (h : mode ≠ .relative) (a target : Nat) :
    Mode.reference (some mode) a target = target :=
  if_neg fun heq => h (Option.some.inj heq)

theorem Mode.of_addresses {mode : Mode} (h : mode ∈ Mode.addresses) :
    mode ≠ .relative ∧ mode.operandSize = 2 ∧ mode.domain = some (0, 0xffff) := by
  simp only [Mode.addresses, List.mem_cons, List.not_mem_nil, or_false] at h
  rcases h with rfl | rfl | rfl | rfl <;> exact ⟨by decide, rfl, rfl⟩

namespace Emitted
variable {d : Int}

/-- What has no label, or only as the target of a branch, can be the same at any distance. -/
theorem moved_self {e : Emitted}
    (h : ∀ i name, e.statement = .instruction i → i.label? = some name → i.mode? = some .relative) :
    e.Moved d e where
  statement := rfl
  fixed := fun _ => rfl
  word := by
    intro i name mode hi hl hm haddress
    cases (h i name hi hl).symm.trans hm
    exact absurd rfl (Mode.of_addresses haddress).1

/-- A label that stands for its address moves if its value does. -/
theorem resolved_moved {m : Mnemonic} {name : String} {x : Option Modifier} {mode : Mode}
    {opcode : UInt8} {v w : Int} (hmode : mode ≠ .relative) (hv : mode.accepts (some v) = true)
    (hw : mode.accepts (some w) = true)
    (hvalue : ∀ n, Instruction.offset? ⟨m, .label name, x, .settled mode (some v)⟩ = some n →
      w = v + d) : (resolved m name x mode opcode v).Moved d (resolved m name x mode opcode w) where
  statement := rfl
  fixed := by
    simp [resolved, Statement.isFixed, Instruction.label?, Argument.label?, Instruction.mode?,
      Operand.mode?, hmode]
  word := by
    intro i _ mode' hi _ hm haddress hoffset
    cases hi
    cases hm
    obtain ⟨_, hsize, hdomain⟩ := Mode.of_addresses haddress
    obtain ⟨n, hn⟩ := Option.isSome_iff_exists.mp hoffset
    obtain ⟨low, high, hbytes, hword⟩ :=
      Instruction.operandBytes_word ((Mode.accepts_iff hdomain v).mp hv)
    obtain ⟨low', high', hbytes', hword'⟩ :=
      Instruction.operandBytes_word ((Mode.accepts_iff hdomain w).mp hw)
    rw [← hsize] at hbytes hbytes'
    refine ⟨_, v, opcode, low, high, low', high', rfl, rfl, congrArg some (hvalue n hn),
      congrArg _ hbytes, hword, congrArg _ hbytes', ?_⟩
    rw [hword', hvalue n hn]

end Emitted

namespace Statement.Movable
variable {d : Int} {a a' : Nat} {t u : SymbolTable} {s : Statement} {e f : Emitted}

/-- A movable statement has no label, or is an instruction that waits for one. -/
theorem label_cases (hs : s.Movable) : (∀ i, s = .instruction i → i.label? = none) ∨
    ∃ m name mode x, s = .instruction ⟨m, .label name, x, .pending mode⟩ ∧
      m.supports mode = true ∧ mode.TakesLabel x := by
  cases hs with
  | label => exact .inl fun i hi => by cases hi
  | data => exact .inl fun i hi => by cases hi
  | instruction hi =>
    cases hi with
    | bare =>
      left
      intro i hi
      cases hi
      rfl
    | plain _ hl _ =>
      left
      intro i hi
      cases hi
      exact hl
    | waiting hsupports htakes => exact .inr ⟨_, _, _, _, rfl, hsupports, htakes⟩

theorem emit_of_no_label (hs : s.Movable) (h : ∀ i, s = .instruction i → i.label? = none) :
    s.emit u a' = s.emit t a := by
  cases hs with
  | label => rfl
  | data => rfl
  | instruction _ => simp only [Statement.emit, Instruction.resolveAt, h _ rfl]

theorem label?_of_emit (h : ∀ i, s = .instruction i → i.label? = none) (he : s.emit t a = .ok e) :
    ∀ i, e.statement = .instruction i → i.label? = none := by
  intro i hi
  obtain ⟨k, j, rfl, hj, _, hstatement⟩ | ⟨l, _, rfl⟩ | ⟨x, _, rfl⟩ | ⟨x, _, rfl⟩ :=
    Statement.emit_cases he
  · simp only [Instruction.resolveAt, h k rfl] at hj
    cases hj
    cases hi.symm.trans hstatement
    exact h _ rfl
  · cases hi
  · cases hi
  · cases hi

/-- **One statement at two places.** -/
theorem emit (hs : s.Movable) (htu : t.Moved d u) (ha : Shifted d a a') (he : s.emit t a = .ok e)
    (hf : s.emit u a' = .ok f) : e.Moved d f := by
  obtain hnone | ⟨m, name, mode, x, rfl, hsupports, htakes⟩ := hs.label_cases
  · rw [hs.emit_of_no_label hnone (t := t) (a := a), he] at hf
    cases hf
    refine Emitted.moved_self fun i name hi hl => ?_
    cases (label?_of_emit hnone he i hi).symm.trans hl
  · obtain ⟨opcode, hemit⟩ := Statement.emit_waiting hsupports htakes name
    obtain ⟨target, v, htarget, hv, hin, rfl⟩ := (hemit t a e).mp he
    obtain ⟨target', w, htarget', hw, hin', rfl⟩ := (hemit u a' f).mp hf
    obtain ⟨_, hsame, hmoved⟩ := htu.target ha htarget
    cases htarget'.symm.trans hsame
    by_cases hmode : mode = .relative
    · subst hmode
      rw [Mode.reference_relative ha hmoved] at hw
      cases hv.symm.trans hw
      refine Emitted.moved_self fun i name hi _ => ?_
      cases hi
      rfl
    · rw [Mode.reference_address hmode] at hv hw
      refine Emitted.resolved_moved hmode hin hin' fun n hn => ?_
      have hsum := Instruction.modifiedValue_offset hn hv
      have hsum' := Instruction.modifiedValue_offset hn hw
      unfold Shifted at hmoved
      omega

/-- A statement that refers to labels by their distance only is emitted alike at another place. -/
theorem emit_relative (hs : s.Movable) (htu : t.Moved d u) (ha : Shifted d a a')
    (hrel : ∀ i name, s = .instruction i → i.label? = some name → i.mode? = some .relative)
    (he : s.emit t a = .ok e) : s.emit u a' = .ok e := by
  obtain hnone | ⟨m, name, mode, x, rfl, hsupports, htakes⟩ := hs.label_cases
  · rw [hs.emit_of_no_label hnone (t := t) (a := a), he]
  · cases hrel _ _ rfl rfl
    obtain ⟨opcode, hemit⟩ := Statement.emit_waiting hsupports htakes name
    obtain ⟨target, v, htarget, hv, hin, rfl⟩ := (hemit t a e).mp he
    obtain ⟨target', htarget', hmoved⟩ := htu.target ha htarget
    rw [← Mode.reference_relative ha hmoved] at hv
    exact (hemit u a' _).mpr ⟨target', v, htarget', hv, hin, rfl⟩

end Statement.Movable

section Emission
variable {d : Int} {a a' : Nat} {t u : SymbolTable}

/-- **One block at two places.** -/
theorem Emits.moved {b : Block} (hb : ∀ s ∈ b.leaves, s.Movable) (htu : t.Moved d u)
    (ha : Shifted d a a') {out out' : Outline Scope (Placed Emitted)}
    (h : Emits t (b.placed a) out) (h' : Emits u (b.placed a') out') :
    out.Alike (Scope.Moved d) (Placed.Moved d) out' := by
  induction b generalizing a a' t u out out' with
  | nil =>
    cases h
    cases h'
    exact .nil
  | item s rest ih =>
    obtain ⟨hs, hrest⟩ := List.forall_mem_cons.mp hb
    cases h with
    | item he hr =>
      cases h' with
      | item hf hr' => exact .item ⟨ha, hs.emit htu ha he hf⟩ (ih hrest htu (hs.stopAt ha) hr hr')
  | group _ inner rest ihi ihr =>
    obtain ⟨hinner, hrest⟩ := List.forall_mem_append.mp hb
    have hscope := Block.scope_moved hinner ha
    cases h with
    | group hi hr =>
      cases h' with
      | group hi' hr' =>
        exact .group hscope (ihi hinner hscope.labels ha hi hi') (ihr hrest htu hscope.stop hr hr')

/-- A block that refers to labels by their distance only can be emitted at another place. -/
theorem Emits.relocated {b : Block} (hb : ∀ s ∈ b.leaves, s.Movable)
    (hrel : ∀ i name, Statement.instruction i ∈ b.leaves → i.label? = some name →
      i.mode? = some .relative) (htu : t.Moved d u) (ha : Shifted d a a')
    {out : Outline Scope (Placed Emitted)} (h : Emits t (b.placed a) out) :
    ∃ out', Emits u (b.placed a') out' ∧
      out'.leaves.map Placed.content = out.leaves.map Placed.content := by
  induction b generalizing a a' t u out with
  | nil =>
    cases h
    exact ⟨.nil, .nil, rfl⟩
  | item s rest ih =>
    obtain ⟨hs, hrest⟩ := List.forall_mem_cons.mp hb
    cases h with
    | item he hr =>
      obtain ⟨out', hout, hcontent⟩ := ih hrest
        (fun i name hi => hrel i name (List.mem_cons_of_mem _ hi)) htu (hs.stopAt ha) hr
      have hs' := hs.emit_relative htu ha
        (fun i name hi => hrel i name (by rw [← hi]; exact List.mem_cons_self ..)) he
      exact ⟨_, .item hs' hout, congrArg (List.cons _) hcontent⟩
  | group _ inner rest ihi ihr =>
    obtain ⟨hinner, hrest⟩ := List.forall_mem_append.mp hb
    have hscope := Block.scope_moved hinner ha
    cases h with
    | group hi hr =>
      obtain ⟨out', hout, hcontent⟩ := ihi hinner
        (fun i name hi => hrel i name (List.mem_append_left _ hi)) hscope.labels ha hi
      obtain ⟨out'', hout', hcontent'⟩ := ihr hrest
        (fun i name hi => hrel i name (List.mem_append_right _ hi)) htu hscope.stop hr
      refine ⟨_, .group hout hout', ?_⟩
      simp only [Outline.leaves, List.map_append, hcontent, hcontent']

end Emission

/-! ### Relocation -/

theorem Program.code_eq (p : Program) :
    p.code = (p.body.leaves.map Placed.content).flatMap Emitted.bytes := by
  rw [List.flatMap_map]
  rfl

theorem Block.startFor_of_movable {b : Block} (hb : ∀ s ∈ b.leaves, s.Movable) (origin : Nat) :
    b.startFor origin = origin := by
  refine Block.startFor_of_no_align ?_ origin
  cases hlead : b.leadingAlign? with
  | none => rfl
  | some a => cases hb _ (List.mem_of_mem_head? (Block.leadingAlign?_eq_some_iff.mp hlead).1)

theorem Block.LinksTo.relocated {b : Block} (hb : ∀ s ∈ b.leaves, s.Movable) {d : Int} {a a' : Nat}
    (ha : Shifted d a a') {p q : Program} (hp : b.LinksTo a p) (hq : b.LinksTo a' q) :
    p.Relocated d q := by
  have hscope : p.scope.Moved d q.scope := by
    rw [hp.scope, hq.scope]
    exact Block.scope_moved hb ha
  constructor
  case size =>
    have horigin := hscope.origin
    have hstop := hscope.stop
    unfold Shifted at horigin hstop
    simp only [Program.stop, Program.origin]
    omega
  case scope => exact hscope
  case body => exact hp.emits.moved hb (Block.labelsAt_moved hb ha) ha hq.emits
  case warnings =>
    rw [hp.warnings, hq.warnings]
    exact Block.redefinitions_moved hb ha .empty

/-- A block that refers to labels by their distance only links wherever it fits. -/
theorem Block.LinksTo.of_relative {b : Block} (hb : ∀ s ∈ b.leaves, s.Movable)
    (hrel : ∀ i name, Statement.instruction i ∈ b.leaves → i.label? = some name →
      i.mode? = some .relative) {d : Int} {a a' : Nat} (ha : Shifted d a a') {p : Program}
    (hp : b.LinksTo a p) (hfits : b.stopAt a' ≤ memorySize) :
    ∃ q, b.LinksTo a' q ∧ q.code = p.code := by
  obtain ⟨body, hbody, hcontent⟩ := hp.emits.relocated hb hrel (Block.labelsAt_moved hb ha) ha
  refine ⟨⟨⟨a', b.stopAt a', b.labelsAt a'⟩, body, b.redefinitions a' .empty⟩, ?_, ?_⟩
  · exact ⟨.inl (Nat.le_trans (le_runningAddress hb a') hfits),
      firstFault_of_fits hb hp.faultless hfits, rfl, rfl, hbody⟩
  · rw [Program.code_eq, Program.code_eq, hcontent]

/-- **Relocation.** Of a block without alignments, all of it fresh, any two programs differ by the
distance of their origins alone, and if all its references are relative it links to the same code at
every origin from which it fits into the memory. -/
theorem link_relocates {b : Block} (hb : b.Fresh) (halign : ∀ a, Statement.align a ∉ b.leaves)
    {origin : Int} {p : Program} (hp : b.link origin = .ok p) :
    (∀ origin' q, b.link origin' = .ok q → p.Relocated (origin' - origin) q) ∧
    ((∀ i name, Statement.instruction i ∈ b.leaves → i.label? = some name →
        i.mode? = some .relative) →
      ∀ origin' : Int, 0 ≤ origin' ∧ origin' ≤ 0xffff →
        origin' + ((p.stop - p.origin : Nat) : Int) ≤ 0x10000 →
        ∃ q, b.link origin' = .ok q ∧ q.code = p.code) := by
  have hmovable := hb.movable halign
  obtain ⟨ho, _, hlp⟩ := linksTo_of_link hp
  rw [Block.startFor_of_movable hmovable] at hlp
  have moved : ∀ {origin' : Int}, 0 ≤ origin' ∧ origin' ≤ 0xffff →
      Shifted (origin' - origin) origin.toNat origin'.toNat := by
    intro origin' ho'
    unfold Shifted
    omega
  constructor
  · intro origin' q hq
    obtain ⟨ho', _, hlq⟩ := linksTo_of_link hq
    rw [Block.startFor_of_movable hmovable] at hlq
    exact hlp.relocated hmovable (moved ho') hlq
  · intro hrel origin' ho' hsize
    have hfits : b.stopAt origin'.toNat ≤ memorySize := by
      rw [hlp.stop, hlp.origin] at hsize
      have hle : origin.toNat ≤ b.stopAt origin.toNat := le_runningAddress hmovable _
      have hmoved := Block.stopAt_moved hmovable (moved ho')
      unfold Shifted at hmoved
      unfold memorySize
      omega
    obtain ⟨q, hlq, hcode⟩ := hlp.of_relative hmovable hrel (moved ho') hfits
    refine ⟨q, ?_, hcode⟩
    rw [link_of_origin ho', Block.startFor_of_movable hmovable]
    exact linkFrom_eq_ok.mpr hlq

namespace Block

/-- A loop and an instruction behind it, in a block of its own, that leads back to itself. -/
def spinBy (back : Instruction) : Block :=
  .item (.label ⟨"spin", by decide⟩) <|
  .item (.instruction ⟨.dex, .none, none, .settled .implied none⟩) <|
  .item (.instruction ⟨.bne, .label "spin", none, .pending .relative⟩) <|
  .group () (
    .item (.label ⟨"here", by decide⟩) <|
    .item (.label ⟨"here", by decide⟩) <|
    .item (.instruction back) .nil) .nil

theorem spinBy_instructions {back i : Instruction} (h : Statement.instruction i ∈ (spinBy back).leaves) :
    i = ⟨.dex, .none, none, .settled .implied none⟩ ∨
      i = ⟨.bne, .label "spin", none, .pending .relative⟩ ∨ i = back := by
  simpa only [spinBy, Outline.leaves, List.append_nil, List.mem_cons, Statement.instruction.injEq,
    reduceCtorEq, false_or, or_false, List.not_mem_nil] using h

theorem spinBy_fresh {back : Instruction} (h : back.Fresh) : (spinBy back).Fresh := by
  have hdex : Instruction.infer .dex .none none =
      .ok ⟨.dex, .none, none, .settled .implied none⟩ := rfl
  have hbne : Instruction.infer .bne (.label "spin") none =
      .ok ⟨.bne, .label "spin", none, .pending .relative⟩ := rfl
  intro i hi
  obtain rfl | rfl | rfl := spinBy_instructions hi
  · exact .inferred hdex
  · exact .inferred hbne
  · exact h

theorem spinBy_no_align (back : Instruction) : ∀ a, Statement.align a ∉ (spinBy back).leaves := by
  simp [spinBy, Outline.leaves]

end Block

/-- A jump moves with its target, and a branch in its place does not even notice; its block goes up
to the last byte of the memory. -/
theorem spin_relocates :
    (∃ p q, (Block.spinBy ⟨.jmp, .label "here", some (.offset 1), .pending .absolute⟩).link 0x1000 =
        .ok p ∧
      (Block.spinBy ⟨.jmp, .label "here", some (.offset 1), .pending .absolute⟩).link 0x2fff = .ok q ∧
      p.code = [0xca, 0xd0, 0xfd, 0x4c, 0x04, 0x10] ∧ q.code = [0xca, 0xd0, 0xfd, 0x4c, 0x03, 0x30] ∧
      p.Relocated 0x1fff q) ∧
    ∃ p q, (Block.spinBy ⟨.beq, .label "here", none, .pending .relative⟩).link 0x1000 = .ok p ∧
      (Block.spinBy ⟨.beq, .label "here", none, .pending .relative⟩).link 0xfffb = .ok q ∧
      p.code = [0xca, 0xd0, 0xfd, 0xf0, 0xfe] ∧ q.code = p.code := by
  have hjmp : Instruction.infer .jmp (.label "here") (some (.offset 1)) =
      .ok ⟨.jmp, .label "here", some (.offset 1), .pending .absolute⟩ := rfl
  have hbeq : Instruction.infer .beq (.label "here") none =
      .ok ⟨.beq, .label "here", none, .pending .relative⟩ := rfl
  constructor
  · obtain ⟨p, hp, hpcode⟩ : ∃ p, (Block.spinBy ⟨.jmp, .label "here", some (.offset 1),
        .pending .absolute⟩).link 0x1000 = .ok p ∧ p.code = [0xca, 0xd0, 0xfd, 0x4c, 0x04, 0x10] :=
      ⟨_, rfl, rfl⟩
    obtain ⟨q, hq, hqcode⟩ : ∃ q, (Block.spinBy ⟨.jmp, .label "here", some (.offset 1),
        .pending .absolute⟩).link 0x2fff = .ok q ∧ q.code = [0xca, 0xd0, 0xfd, 0x4c, 0x03, 0x30] :=
      ⟨_, rfl, rfl⟩
    have h := link_relocates (Block.spinBy_fresh (.inferred hjmp)) (Block.spinBy_no_align _) hp
    exact ⟨p, q, hp, hq, hpcode, hqcode, h.1 0x2fff q hq⟩
  · obtain ⟨p, hp, hcode, hsize⟩ : ∃ p, (Block.spinBy ⟨.beq, .label "here", none,
        .pending .relative⟩).link 0x1000 = .ok p ∧ p.code = [0xca, 0xd0, 0xfd, 0xf0, 0xfe] ∧
        p.stop - p.origin = 5 := ⟨_, rfl, rfl, rfl⟩
    have h := link_relocates (Block.spinBy_fresh (.inferred hbeq)) (Block.spinBy_no_align _) hp
    have hrelative : ∀ i name, Statement.instruction i ∈ (Block.spinBy ⟨.beq, .label "here", none,
        .pending .relative⟩).leaves → i.label? = some name → i.mode? = some .relative := by
      intro i name hi hl
      obtain rfl | rfl | rfl := Block.spinBy_instructions hi
      · cases hl
      · rfl
      · rfl
    obtain ⟨q, hq, hsame⟩ := h.2 hrelative 0xfffb (by decide) (by rw [hsize]; decide)
    exact ⟨p, q, hp, hq, hcode, hsame⟩

end Asm6502

import Asm6502.Proofs.Emission
import Asm6502.Proofs.Legibility

/-! A listing decides the program.

Two blocks with the same listing need not be equal: a branch by a given distance is written like a
branch relative to itself. `spelled` reads the first as the second, which changes neither the text,
nor the place, nor the bytes of the instruction. In a block that links, every statement is legible
once it is spelled, because a reference that resolves has the name of a label. So blocks with the
same listing are spelled alike, and `source_determines` says that they link to programs with the
same origin, end, code and labels. -/
namespace Asm6502

/-! ### Spelling -/

namespace Instruction

/-- The instruction as its text reads: a branch by a distance goes that far from itself. -/
def spelled (i : Instruction) : Instruction :=
  match i.argument, i.operand with
  | .literal v, .settled .relative _ =>
    ⟨i.mnemonic, .label Argument.selfReference, some (.offset (v + 2)), .pending .relative⟩
  | _, _ => i

theorem spelled_of_ne {i : Instruction} (h : i.mode? ≠ some .relative) : i.spelled = i := by
  unfold spelled
  split
  · rename_i ho
    exact absurd (by rw [mode?, ho]; rfl) h
  · rfl

theorem mode?_spelled (i : Instruction) : i.spelled.mode? = i.mode? := by
  unfold spelled
  split
  · rename_i ho
    rw [mode?, mode?, ho]
    rfl
  · rfl

theorem source_spelled (i : Instruction) : i.spelled.source = i.source := by
  obtain ⟨m, a, x, operand⟩ := i
  unfold spelled
  split
  · rename_i v w ha ho
    cases ha
    cases ho
    rfl
  · rfl

end Instruction

namespace Statement

@[inherit_doc Instruction.spelled]
def spelled : Statement → Statement
  | instruction i => instruction i.spelled
  | s => s

theorem source_spelled (s : Statement) : s.spelled.source = s.source := by
  cases s with
  | instruction i => exact i.source_spelled
  | _ => rfl

theorem stopAt_spelled (address : Nat) (s : Statement) : s.spelled.stopAt address = s.stopAt address := by
  cases s with
  | instruction i =>
    show address + i.spelled.size?.getD 0 = address + i.size?.getD 0
    rw [Instruction.size?, Instruction.size?, i.mode?_spelled]
  | _ => rfl

theorem defineAt_spelled (address : Nat) (t : SymbolTable) (s : Statement) :
    s.spelled.defineAt address t = s.defineAt address t := by
  cases s <;> rfl

end Statement

/-- The block as its listing reads. -/
def Block.spelled (b : Block) : Block := b.map id Statement.spelled

namespace Block

theorem source_spelled (b : Block) : b.spelled.source = b.source := by
  have hlines : Listing.lines Statement.source b.spelled = Listing.lines Statement.source b := by
    induction b with
    | nil => rfl
    | item s rest ih =>
      show s.spelled.source :: Listing.lines _ (Block.spelled rest) = _
      rw [ih, s.source_spelled]
      rfl
    | group _ inner rest ihi ihr =>
      show _ :: Listing.lines _ (Block.spelled inner) ++ _ :: Listing.lines _ (Block.spelled rest) = _
      rw [ihi, ihr]
      rfl
  rw [source, source, hlines]

theorem stopAt_spelled (address : Nat) (b : Block) : b.spelled.stopAt address = b.stopAt address := by
  unfold stopAt spelled runningAddress
  rw [Outline.leaves_map, List.foldl_map]
  simp only [Statement.stopAt_spelled]

theorem defineAll_spelled (t : SymbolTable) (address : Nat) (b : Block) :
    t.defineAll (b.spelled.placed address).items = t.defineAll (b.placed address).items := by
  induction b generalizing t address with
  | nil => rfl
  | item s rest ih =>
    show (s.spelled.defineAt address t).2.defineAll
      (Block.placed (s.spelled.stopAt address) (Block.spelled rest)).items = _
    rw [s.defineAt_spelled, s.stopAt_spelled, ih]
    rfl
  | group _ inner rest _ ihr =>
    show t.defineAll (Block.placed (stopAt address (Block.spelled inner)) (Block.spelled rest)).items = _
    rw [stopAt_spelled, ihr]
    rfl

/-- Spelling changes no label. -/
theorem labelsAt_spelled (address : Nat) (b : Block) : b.spelled.labelsAt address = b.labelsAt address :=
  defineAll_spelled .empty address b

theorem startFor_spelled (origin : Nat) (b : Block) : b.spelled.startFor origin = b.startFor origin := by
  have halign : b.spelled.leadingAlign? = b.leadingAlign? := by
    induction b with
    | nil => rfl
    | item s rest _ => cases s <;> rfl
    | group _ inner rest ihi _ => exact ihi
  rw [startFor, startFor, halign]

end Block

/-! ### Bytes -/

/-- A branch relative to itself resolves to the distance it is spelled for. -/
theorem Instruction.resolveAt_spelled {m : Mnemonic} {v : Int}
    (hv : Mode.relative.accepts (some v) = true) (labels : SymbolTable) (address : Nat) :
    resolveAt labels address
      ⟨m, .label Argument.selfReference, some (.offset (v + 2)), .pending .relative⟩ =
    .ok ⟨m, .label Argument.selfReference, some (.offset (v + 2)), .settled .relative (some v)⟩ := by
  obtain ⟨hmin, hmax⟩ := (Mode.accepts_iff rfl v).mp hv
  have htarget : labels.target address Argument.selfReference = .ok address := if_pos rfl
  have hreference : Mode.reference (some .relative) address address = -2 := by
    show (address : Int) - address - 2 = -2
    omega
  have hmodified : modified ⟨m, .label Argument.selfReference, some (.offset (v + 2)),
      .pending .relative⟩ (-2) = .ok v := by
    have happly : (Modifier.offset (v + 2)).apply (-2) = some v := by
      show Signed64.check (-2 + (v + 2)) = some v
      rw [show -2 + (v + 2) = v by omega]
      exact if_pos ⟨by unfold Signed64.least; omega, by unfold Signed64.greatest; omega⟩
    simp only [modified, happly]
  have htakes : Mode.relative.TakesLabel (some (.offset (v + 2))) := by
    refine ⟨.inl rfl, fun x hx hbyte => ?_⟩
    cases hx
    cases hbyte
  have hresolve : resolve ⟨m, .label Argument.selfReference, some (.offset (v + 2)),
      .pending .relative⟩ (Mode.reference (some .relative) address address) =
      .ok ⟨m, .label Argument.selfReference, some (.offset (v + 2)), .settled .relative (some v)⟩ := by
    rw [hreference, resolve_waiting htakes, hmodified]
    exact if_pos hv
  show (labels.target address Argument.selfReference >>= _) = _
  rw [htarget]
  simp only [bind, Except.bind, mode?, Operand.mode?, hresolve]
  rfl

/-- An instruction, if the statement is one, is as a constructor leaves it. -/
def Statement.Unresolved (s : Statement) : Prop := ∀ i, s = instruction i → i.Unresolved

theorem Block.Fresh.unresolved {b : Block} (h : b.Fresh) : ∀ s ∈ b.leaves, s.Unresolved := by
  intro s hs i hi
  subst hi
  exact (h i hs).unresolved

/-- Spelling changes no bytes. -/
theorem Statement.emit_spelled {labels : SymbolTable} {address : Nat} {s : Statement} {e : Emitted}
    (hs : s.Unresolved) (h : s.emit labels address = .ok e) :
    ∃ e', s.spelled.emit labels address = .ok e' ∧ e'.bytes = e.bytes := by
  cases s with
  | instruction i =>
    by_cases hmode : i.mode? = some .relative
    · cases hs i rfl with
      | bare => cases hmode
      | waiting _ _ => exact ⟨e, h, rfl⟩
      | @plain m a mode hsupports hlabel hv =>
        cases hmode
        cases a with
        | label name => cases hlabel
        | none => cases hv
        | literal v =>
          obtain ⟨enc, _, hencode⟩ := Instruction.encode_settled hsupports
          have hself : Instruction.resolveAt labels address
              ⟨m, .literal v, none, .settled .relative (some v)⟩ = .ok _ := rfl
          have hsettled := emit_instruction hself (hencode _ _ _)
          have hspelled := emit_instruction (Instruction.resolveAt_spelled hv labels address)
            (hencode _ _ _)
          cases hsettled.symm.trans h
          exact ⟨_, hspelled, rfl⟩
    · refine ⟨e, ?_, rfl⟩
      show emit labels address (instruction i.spelled) = _
      rw [Instruction.spelled_of_ne hmode, h]
  | _ => exact ⟨e, h, rfl⟩

/-- What spells alike has the same bytes. -/
theorem Emits.bytes_eq {b c : Block} (hb : ∀ s ∈ b.leaves, s.Unresolved)
    (hc : ∀ s ∈ c.leaves, s.Unresolved) (hbc : b.spelled = c.spelled) {labels : SymbolTable}
    {address : Nat} {out out' : Outline Scope (Placed Emitted)}
    (hout : Emits labels (b.placed address) out) (hout' : Emits labels (c.placed address) out') :
    (out.leaves.flatMap fun e => e.content.bytes) = out'.leaves.flatMap fun e => e.content.bytes := by
  induction b generalizing c labels address out out' with
  | nil =>
    cases c with
    | nil =>
      cases hout
      cases hout'
      rfl
    | _ => cases hbc
  | item s rest ih =>
    cases c with
    | item t rest' =>
      obtain ⟨hst, hrest⟩ := Outline.item.inj hbc
      have hnext : t.stopAt address = s.stopAt address := by
        rw [← t.stopAt_spelled, ← s.stopAt_spelled, hst]
      cases hout with
      | item he hr =>
        cases hout' with
        | item he' hr' =>
          obtain ⟨e₁, hspelled, hbytes⟩ := Statement.emit_spelled (hb s (List.mem_cons_self ..)) he
          obtain ⟨e₂, hspelled', hbytes'⟩ := Statement.emit_spelled (hc t (List.mem_cons_self ..)) he'
          rw [hst] at hspelled
          cases hspelled.symm.trans hspelled'
          rw [hnext] at hr'
          have hbehind := ih (fun s hs => hb s (List.mem_cons_of_mem _ hs))
            (fun s hs => hc s (List.mem_cons_of_mem _ hs)) hrest hr hr'
          simp only [Outline.leaves, List.flatMap_cons, hbehind, ← hbytes, ← hbytes']
    | _ => cases hbc
  | group _ inner rest ihi ihr =>
    cases c with
    | group _ inner' rest' =>
      obtain ⟨_, hinner, hrest⟩ := Outline.group.inj hbc
      have hnext : Block.stopAt address inner' = Block.stopAt address inner := by
        rw [← Block.stopAt_spelled, ← Block.stopAt_spelled _ inner]
        exact congrArg _ hinner.symm
      have hlabels : Block.labelsAt address inner' = Block.labelsAt address inner := by
        rw [← Block.labelsAt_spelled, ← Block.labelsAt_spelled _ inner]
        exact congrArg _ hinner.symm
      cases hout with
      | group hi hr =>
        cases hout' with
        | group hi' hr' =>
          change Emits (Block.labelsAt address inner') _ _ at hi'
          rw [hlabels] at hi'
          rw [hnext] at hr'
          have hinside := ihi (fun s hs => hb s (List.mem_append_left _ hs))
            (fun s hs => hc s (List.mem_append_left _ hs)) hinner hi hi'
          have hbehind := ihr (fun s hs => hb s (List.mem_append_right _ hs))
            (fun s hs => hc s (List.mem_append_right _ hs)) hrest hr hr'
          simp only [Outline.leaves, List.flatMap_append, hinside, hbehind]
    | _ => cases hbc

/-! ### Legibility of what links -/

/-- What is emitted of a block is emitted of each of its statements. -/
theorem Emits.of_leaf {b : Block} {address : Nat} {own : List (Placed Statement)}
    {out : Outline Scope (Placed Emitted)} (h : Emits (labelsOf own) (b.placed address) out) :
    ∀ s ∈ b.leaves, ∃ own address e, s.emit (labelsOf own) address = .ok e := by
  induction b generalizing own address out with
  | nil =>
    intro s hs
    cases hs
  | item s rest ih =>
    cases h with
    | item he hr => exact List.forall_mem_cons.mpr ⟨⟨own, address, _, he⟩, ih hr⟩
  | group _ inner rest ihi ihr =>
    cases h with
    | group hi hr =>
      exact fun s hs => (List.mem_append.mp hs).elim (ihi hi s) (ihr hr s)

/-- A label that means an address is a name. -/
theorem isName_of_target {own : List (Placed Statement)} {address target : Nat} {name : String}
    (h : (labelsOf own).target address name = .ok target) : IsName name := by
  unfold SymbolTable.target at h
  rw [address?_labelsOf] at h
  split at h
  · exact .inl ‹_›
  · split at h
    · rename_i definition hdefinition
      obtain ⟨p, hp, _⟩ := Option.map_eq_some_iff.mp hdefinition
      have hdefines : p.content.defines = some name := by simpa using List.find?_some hp
      cases hcontent : p.content with
      | label l =>
        rw [hcontent] at hdefines
        cases hdefines
        exact .inr l.valid
      | _ =>
        rw [hcontent] at hdefines
        cases hdefines
    · cases h

theorem Instruction.Unresolved.legible_spelled {own : List (Placed Statement)} {address : Nat}
    {i : Instruction} {e : Emitted} (hi : i.Unresolved)
    (h : (Statement.instruction i).emit (labelsOf own) address = .ok e) : i.spelled.Legible := by
  cases hi with
  | bare => cases h
  | @waiting m name mode x hs ht =>
    obtain ⟨j, hj, _⟩ := bind_eq_ok.mp h
    obtain ⟨_, hl | hr⟩ | ⟨name', target, hl, htarget, _⟩ := resolveAt_cases hj
    · cases hl
    · cases hr
    · cases hl
      exact .reference hs ht (isName_of_target htarget)
  | @plain m a mode hs hl hv =>
    cases a with
    | label name => cases hl
    | none =>
      rw [spelled_of_ne]
      · exact .plain hs (operandSize_of_accepts_none hv)
      · intro hmode
        cases hmode
        cases hv
    | literal v =>
      by_cases hmode : mode = .relative
      · subst hmode
        refine .reference hs ⟨.inl rfl, fun x hx hbyte => ?_⟩ (.inl rfl)
        cases hx
        cases hbyte
      · rw [spelled_of_ne]
        · exact .number hs hv hmode
        · exact fun hrelative => hmode (Option.some.inj hrelative)

/-- A block that links is legible once it is spelled, if no label reads as an instruction. -/
theorem Block.LinksTo.legible_spelled {b : Block} (hb : b.Fresh)
    (hlabels : ∀ l, Statement.label l ∈ b.leaves → l.NoOperation) {address : Nat} {p : Program}
    (h : b.LinksTo address p) : b.spelled.Legible := by
  intro s hs
  rw [Block.spelled, Outline.leaves_map] at hs
  obtain ⟨t, ht, rfl⟩ := List.mem_map.mp hs
  cases t with
  | instruction i =>
    obtain ⟨own, address, e, he⟩ := h.emits.of_leaf _ ht
    exact Instruction.Unresolved.legible_spelled (hb i ht).unresolved he
  | label l => exact hlabels l ht
  | align _ => trivial
  | data _ => trivial

/-! ### Programs -/

/-- **A listing decides the program.** -/
theorem source_determines {b c : Block} (hb : b.Fresh) (hc : c.Fresh)
    (hlb : ∀ l, Statement.label l ∈ b.leaves → l.NoOperation)
    (hlc : ∀ l, Statement.label l ∈ c.leaves → l.NoOperation) {origin : Int} {p q : Program}
    (hp : b.link origin = .ok p) (hq : c.link origin = .ok q) (h : b.source = c.source) :
    p.origin = q.origin ∧ p.stop = q.stop ∧ p.code = q.code ∧ p.labels = q.labels := by
  obtain ⟨_, _, hlp⟩ := linksTo_of_link hp
  obtain ⟨_, _, hlq⟩ := linksTo_of_link hq
  have hbc : b.spelled = c.spelled := by
    refine (hlp.legible_spelled hb hlb).eq_of_source (hlq.legible_spelled hc hlc) ?_
    rw [b.source_spelled, c.source_spelled, h]
  have hstart : c.startFor origin.toNat = b.startFor origin.toNat := by
    rw [← c.startFor_spelled, ← hbc, b.startFor_spelled]
  rw [hstart] at hlq
  have hlabels : c.labelsAt (b.startFor origin.toNat) = b.labelsAt (b.startFor origin.toNat) := by
    rw [← c.labelsAt_spelled, ← hbc, b.labelsAt_spelled]
  have hstop : c.stopAt (b.startFor origin.toNat) = b.stopAt (b.startFor origin.toNat) := by
    rw [← c.stopAt_spelled, ← hbc, b.stopAt_spelled]
  have hscope : p.scope = q.scope := by rw [hlp.scope, hlq.scope, hlabels, hstop]
  have hemits := hlq.emits
  rw [hlabels] at hemits
  have hcode : p.code = q.code := hlp.emits.bytes_eq hb.unresolved hc.unresolved hbc hemits
  exact ⟨congrArg Scope.origin hscope, congrArg Scope.stop hscope, hcode,
    congrArg Scope.labels hscope⟩

/-- A loop that the given branch closes from a block of its own. -/
def Block.loopBy (branch : Instruction) : Block :=
  .item (.label ⟨"again", by decide⟩) <|
  .item (.instruction ⟨.dex, .none, none, .settled .implied none⟩) <|
  .group () (.item (.instruction branch) .nil) <|
  .item (.data (Data.ofBytes [1, 0xff])) .nil

theorem Block.loopBy_fresh {branch : Instruction} (h : branch.Fresh) : (loopBy branch).Fresh := by
  have hdex : Instruction.infer .dex .none none =
      .ok ⟨.dex, .none, none, .settled .implied none⟩ := rfl
  intro i hi
  simp only [loopBy, Outline.leaves, List.cons_append, List.nil_append, List.mem_cons,
    Statement.instruction.injEq, reduceCtorEq, false_or, or_false, List.not_mem_nil] at hi
  rcases hi with rfl | rfl
  · exact .inferred hdex
  · exact h

/-- No instruction has a name of five letters. -/
theorem Block.loopBy_labels (branch : Instruction) :
    ∀ l, Statement.label l ∈ (loopBy branch).leaves → l.NoOperation := by
  intro l hl m _ hname
  simp only [loopBy, Outline.leaves, List.cons_append, List.nil_append, List.mem_cons,
    Statement.label.injEq, reduceCtorEq, or_false, List.not_mem_nil] at hl
  subst hl
  have hlength := m.length_name
  rw [← hname] at hlength
  cases hlength

/-- A branch back by three bytes, and one to the address before itself. -/
theorem loop_source_determines : ∃ (b c : Block) (p q : Program), b ≠ c ∧ b.source = c.source ∧
    c.source = [".block", "again", "dex", ".block", "bne *-1", ".bend", ".byte $01,$ff", ".bend"] ∧
    b.link 0x1000 = .ok p ∧ c.link 0x1000 = .ok q ∧ p.origin = q.origin ∧ p.stop = q.stop ∧
    p.code = q.code ∧ q.code = [0xca, 0xd0, 0xfd, 0x01, 0xff] ∧ p.labels = q.labels := by
  have hdistance : Instruction.inMode .bne .relative (.literal (-3)) none =
      .ok ⟨.bne, .literal (-3), none, .settled .relative (some (-3))⟩ := rfl
  have hself : Instruction.infer .bne (.label "*") (some (.offset (-1))) =
      .ok ⟨.bne, .label "*", some (.offset (-1)), .pending .relative⟩ := rfl
  have hb := Block.loopBy_fresh (.inMode hdistance)
  have hc := Block.loopBy_fresh (.inferred hself)
  obtain ⟨p, hp⟩ : ∃ p, (Block.loopBy ⟨.bne, .literal (-3), none, .settled .relative (some (-3))⟩).link
      0x1000 = .ok p := ⟨_, rfl⟩
  obtain ⟨q, hq, hcode⟩ : ∃ q, (Block.loopBy ⟨.bne, .label "*", some (.offset (-1)),
      .pending .relative⟩).link 0x1000 = .ok q ∧ q.code = [0xca, 0xd0, 0xfd, 0x01, 0xff] :=
    ⟨_, rfl, rfl⟩
  have hsource : (Block.loopBy ⟨.bne, .literal (-3), none, .settled .relative (some (-3))⟩).source =
      (Block.loopBy ⟨.bne, .label "*", some (.offset (-1)), .pending .relative⟩).source := by decide
  obtain ⟨horigin, hstop, hsame, hlabels⟩ := source_determines hb hc (Block.loopBy_labels _)
    (Block.loopBy_labels _) hp hq hsource
  exact ⟨_, _, p, q, by decide, hsource, by decide, hp, hq, horigin, hstop, hsame, hcode, hlabels⟩

end Asm6502

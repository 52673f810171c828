import Asm6502.Demo.HelloWorld
import Asm6502.Proofs.ChainReach
import Asm6502.Proofs.DataEncoding
import Asm6502.Proofs.Extension
import Asm6502.Proofs.MacroCalls

/-! The demo that prints a message.

A call lays down the same statements for every message, `frame`, and the message as data behind them
(`call_eq`). The frame is linked once and for all (`linkFrom_frame`): its leading alignment, inside the
block of the BASIC line, decides the origin, so the address of the message does not depend on what was
asked for (`link_data`). What is left is the text alone, which needs a code for each character and has
to end inside the memory. `program_carries` says what becomes of any message. -/
namespace Asm6502.HelloWorld

/-! ### The bytes in front of the message -/

/-- The BASIC line `10 SYS 49152` in memory from `$0801` on. -/
def sysLine : List UInt8 :=
  [0x0d, 0x08, 0x0a, 0x00, 0x9e, 0x20, 0x34, 0x39, 0x31, 0x35, 0x32, 0x00, 0x00, 0x00]

/-- The zeroes behind the line, up to `$c000`. -/
def padding : List UInt8 := List.replicate (0xc000 - 0x080f) 0

/-- The routine at `$c000`, which reads the message from `$c014` on. -/
def routine : List UInt8 :=
  [0x20, 0x44, 0xe5,
   0xa2, 0x00,
   0xbd, 0x14, 0xc0,
   0xc9, 0x23,
   0xf0, 0x07,
   0x20, 0xd2, 0xff,
   0xe8,
   0x4c, 0x05, 0xc0,
   0x60]

/-! ### The call -/

/-- The block of the BASIC line. -/
def sysBlock : Block := .item (.align ⟨0x0801⟩) (Block.single (.data (Data.ofBytes sysLine)))

theorem stub_eq : Machine.stub "10 SYS 49152" = .ok sysBlock := by
  have htokens : BasicV2.Tokenized.ofListing "10 SYS 49152" BasicV2.start true =
      .ok ⟨"10 SYS 49152", 0x0801, true, sysLine⟩ := by decide +kernel
  rw [Machine.stub, htokens]
  rfl

/-- The demo without its message. -/
def frame : Block :=
  .group () sysBlock <|
  .item (.align ⟨0xc000⟩) <|
  .item (.instruction ⟨.jsr, .literal 0xe544, none, .settled .absolute (some 0xe544)⟩) <|
  .item (.instruction ⟨.ldx, .literal 0, none, .settled .immediate (some 0)⟩) <|
  .item (.label ⟨"load", by decide⟩) <|
  .item (.instruction ⟨.lda, .label "msg", none, .pending .absoluteX⟩) <|
  .item (.instruction ⟨.cmp, .literal 0x23, none, .settled .immediate (some 0x23)⟩) <|
  .item (.instruction ⟨.beq, .label "finish", none, .pending .relative⟩) <|
  .item (.instruction ⟨.jsr, .literal 0xffd2, none, .settled .absolute (some 0xffd2)⟩) <|
  .item (.instruction ⟨.inx, .none, none, .settled .implied none⟩) <|
  .item (.instruction ⟨.jmp, .label "load", none, .pending .absolute⟩) <|
  .item (.label ⟨"finish", by decide⟩) <|
  .item (.instruction ⟨.rts, .none, none, .settled .implied none⟩) <|
  .item (.label ⟨"msg", by decide⟩) .nil

/-- The variables of a call with a message. -/
def saying (s : String) : Variables := .ofList [("message", .text s)]

/-- A procedure that has laid down the frame goes on with the message. -/
theorem printMessage_eq (s : String) : printMessage sysBlock (.fresh (saying s)) =
    Build.data (.text s) .plain ⟨frame, ["load", "finish", "msg"], saying s⟩ := rfl

/-- The macro of the demo. -/
def demo : Macro := ⟨saying "HELLO WORLD#", [printMessage sysBlock]⟩

theorem program_eq : program = .ok demo := by
  rw [program, stub_eq]
  rfl

theorem override_saying (s : String) : demo.defaults.override (saying s) = .ok (saying s) := by
  have hmerge : demo.defaults.merge (saying s) = saying s := by
    show (⟨Variables.insertEntry "message" (.text s) [("message", .text "HELLO WORLD#")], _⟩ :
      Variables) = ⟨[("message", .text s)], _⟩
    simp only [Variables.insertEntry, String.lt_irrefl, if_false, if_true]
  have hnames : ∀ name ∈ (saying s).names, name ∈ demo.defaults.names := fun _ h => h
  rw [Variables.override_eq, if_pos (Variables.undeclared_eq_nil.mpr hnames), hmerge]

/-- **A call** puts the message behind the frame, or is refused for it. -/
theorem call_eq (s : String) : demo.call (saying s) =
    ((Data.ofContent (.text s) .plain).mapError .directive).map fun d => frame.push (.data d) := by
  rw [Macro.call_eq_result (override_saying s), demo, Macro.runAll_singleton, printMessage_eq]
  unfold Build.data
  cases Data.ofContent (.text s) .plain <;> rfl

/-! ### Linking -/

/-- The frame linked from `$0801` on. -/
def framed : Program where
  scope := ⟨0x0801, 0xc014, ⟨[⟨"load", 0xc005⟩, ⟨"finish", 0xc013⟩, ⟨"msg", 0xc014⟩]⟩⟩
  body :=
    .group ⟨0x0801, 0x080f, .empty⟩ (
      .item ⟨0x0801, ⟨.align ⟨0x0801⟩, []⟩⟩ <|
      .item ⟨0x0801, ⟨.data (Data.ofBytes sysLine), sysLine⟩⟩ .nil) <|
    .item ⟨0x080f, ⟨.align ⟨0xc000⟩, padding⟩⟩ <|
    .item ⟨0xc000, ⟨.instruction ⟨.jsr, .literal 0xe544, none, .settled .absolute (some 0xe544)⟩,
      [0x20, 0x44, 0xe5]⟩⟩ <|
    .item ⟨0xc003, ⟨.instruction ⟨.ldx, .literal 0, none, .settled .immediate (some 0)⟩,
      [0xa2, 0x00]⟩⟩ <|
    .item ⟨0xc005, ⟨.label ⟨"load", by decide⟩, []⟩⟩ <|
    .item ⟨0xc005, ⟨.instruction ⟨.lda, .label "msg", none, .settled .absoluteX (some 0xc014)⟩,
      [0xbd, 0x14, 0xc0]⟩⟩ <|
    .item ⟨0xc008, ⟨.instruction ⟨.cmp, .literal 0x23, none, .settled .immediate (some 0x23)⟩,
      [0xc9, 0x23]⟩⟩ <|
    .item ⟨0xc00a, ⟨.instruction ⟨.beq, .label "finish", none, .settled .relative (some 7)⟩,
      [0xf0, 0x07]⟩⟩ <|
    .item ⟨0xc00c, ⟨.instruction ⟨.jsr, .literal 0xffd2, none, .settled .absolute (some 0xffd2)⟩,
      [0x20, 0xd2, 0xff]⟩⟩ <|
    .item ⟨0xc00f, ⟨.instruction ⟨.inx, .none, none, .settled .implied none⟩, [0xe8]⟩⟩ <|
    .item ⟨0xc010, ⟨.instruction ⟨.jmp, .label "load", none, .settled .absolute (some 0xc005)⟩,
      [0x4c, 0x05, 0xc0]⟩⟩ <|
    .item ⟨0xc013, ⟨.label ⟨"finish", by decide⟩, []⟩⟩ <|
    .item ⟨0xc013, ⟨.instruction ⟨.rts, .none, none, .settled .implied none⟩, [0x60]⟩⟩ <|
    .item ⟨0xc014, ⟨.label ⟨"msg", by decide⟩, []⟩⟩ .nil
  warnings := []

theorem emit_padding (labels : SymbolTable) :
    (Statement.align ⟨0xc000⟩).emit labels 0x080f = .ok ⟨.align ⟨0xc000⟩, padding⟩ := rfl

theorem emit_branch :
    (Statement.instruction ⟨.beq, .label "finish", none, .pending .relative⟩).emit framed.labels 0xc00a =
      .ok ⟨.instruction ⟨.beq, .label "finish", none, .settled .relative (some 7)⟩, [0xf0, 0x07]⟩ := rfl

theorem emits_frame : Emits framed.labels (frame.placed 0x0801) framed.body :=
  .group (.item rfl (.item rfl .nil)) <|
    .item (emit_padding _) <| .item rfl <| .item rfl <| .item rfl <| .item rfl <| .item rfl <|
    .item emit_branch <| .item rfl <| .item rfl <| .item rfl <| .item rfl <| .item rfl <|
    .item rfl .nil

theorem linkFrom_frame : frame.linkFrom 0x0801 = .ok framed := by
  apply linkFrom_eq_ok.mpr
  constructor
  case fits => exact .inl (by decide)
  case faultless => rfl
  case scope => rfl
  case warnings => rfl
  case emits => exact emits_frame

theorem code_framed : framed.code = sysLine ++ padding ++ routine := by
  simp only [Program.code, framed, Outline.leaves, List.flatMap_cons, List.cons_append, List.nil_append,
    List.flatMap_nil, List.append_assoc]
  rfl

/-- **The frame and data behind it** make a program at `$0801`, whatever origin is asked for, unless
the data do not fit behind `$c014`. -/
theorem link_data (d : Data) {origin : Int} (h : 0 ≤ origin ∧ origin ≤ 0xffff) :
    (frame.push (.data d)).link origin =
      if d.bytes.length ≤ 0x3fec then .ok (framed.withData d)
      else .error (.programOverflow (0xc014 + d.bytes.length)) := by
  have hfits : framed.stop + d.bytes.length ≤ memorySize ↔ d.bytes.length ≤ 0x3fec := by
    show 0xc014 + d.bytes.length ≤ memorySize ↔ _
    unfold memorySize
    omega
  rw [link_of_origin h]
  show (frame.push (.data d)).linkFrom 0x0801 = _
  rw [Block.linkFrom_push_data (by decide) linkFrom_frame]
  simp only [hfits]
  rfl

/-! ### The message -/

/-- The character has a PETSCII code. -/
def Printable (c : Char) : Prop := (Charset.petscii.encodeChar c).isSome = true

theorem exists_data {s : String} (h : ∀ c ∈ s.toList, Printable c) :
    ∃ d, Data.ofContent (.text s) .plain = .ok d := by
  have hall : ∀ x ∈ (Content.text s).elements, x.Encodable .plain := by
    intro x hx
    obtain ⟨c, hc, rfl⟩ := List.mem_map.mp hx
    exact h c hc
  exact ⟨⟨.text s, .plain, _, Content.encode_eq_ok.mpr ⟨.inl rfl, hall, rfl⟩⟩,
    Data.ofContent_eq_ok.mpr ⟨rfl, rfl⟩⟩

/-- The data of a message are the codes of its characters. -/
theorem codes_of_data {s : String} {d : Data} (h : Data.ofContent (.text s) .plain = .ok d) :
    (∀ c ∈ s.toList, Printable c) ∧ d.bytes.map some = s.toList.map Charset.petscii.encodeChar := by
  have hencode : Content.encode (.text s) .plain = .ok d.bytes := by
    obtain ⟨hcontent, hmode⟩ := Data.ofContent_eq_ok.mp h
    rw [← hcontent, ← hmode]
    exact d.encoded
  obtain ⟨-, hall, hbytes⟩ := Content.encode_eq_ok.mp hencode
  have hchars : ∀ c ∈ s.toList, (Element.character c).Encodable .plain := fun c hc =>
    hall _ (List.mem_map_of_mem hc)
  refine ⟨hchars, ?_⟩
  rw [hbytes]
  exact Element.map_some_codes hchars

theorem length_data {s : String} {d : Data} (h : Data.ofContent (.text s) .plain = .ok d) :
    d.bytes.length = s.length := by
  have hlength := congrArg List.length (codes_of_data h).2
  rw [List.length_map, List.length_map, String.length_toList] at hlength
  exact hlength

/-- The first character without a code is the one that a call is refused for. -/
theorem call_refused {s : String} {before after : List Char} {c : Char}
    (hs : s.toList = before ++ c :: after) (hbefore : ∀ d ∈ before, Printable d) (hc : ¬ Printable c) :
    demo.call (saying s) = .error (.directive (.invalidCharacter c .petscii)) := by
  have hsplit : (Content.text s).elements =
      before.map Element.character ++ .character c :: after.map .character := by
    rw [Content.elements, hs, List.map_append, List.map_cons]
  have helements : ∀ x ∈ before.map Element.character, x.Encodable .plain := by
    intro x hx
    obtain ⟨d, hd, rfl⟩ := List.mem_map.mp hx
    exact hbefore d hd
  have hplain : (Content.text s).Supports .plain := .inl rfl
  have hrefused : Data.ofContent (.text s) .plain = .error (.invalidCharacter c .petscii) :=
    Data.ofContent_eq_error.mpr (Content.encode_eq_error hplain hsplit helements hc)
  rw [call_eq, hrefused]
  rfl

/-- A call that is not refused has its message behind the frame. -/
theorem call_eq_ok {s : String} {b : Block} : demo.call (saying s) = .ok b ↔
    ∃ d, Data.ofContent (.text s) .plain = .ok d ∧ b = frame.push (.data d) := by
  rw [call_eq]
  cases Data.ofContent (.text s) .plain with
  | error e => simp [Except.mapError, Except.map]
  | ok d => simp [Except.mapError, Except.map, eq_comm]

/-! ### The demo -/

/-- The program of the demo for a message. -/
structure Carries (p : Program) (s : String) : Prop where
  origin : p.origin = 0x0801
  message : p.labels.address? "msg" = some 0xc014
  stop : p.stop = 0xc014 + s.length
  warnings : p.warnings = []
  /-- Only the codes at the end depend on the message. -/
  code : ∃ codes : List UInt8, codes.map some = s.toList.map Charset.petscii.encodeChar ∧
    p.code = sysLine ++ padding ++ routine ++ codes

theorem carries_withData {s : String} {d : Data} (h : Data.ofContent (.text s) .plain = .ok d) :
    Carries (framed.withData d) s where
  origin := rfl
  message := rfl
  stop := congrArg (0xc014 + ·) (length_data h)
  warnings := rfl
  code := ⟨d.bytes, (codes_of_data h).2, by rw [Program.code_withData, code_framed]⟩

/-- What a macro makes of a message, at every origin that can be asked for. -/
structure CarriesExactly (m : Macro) (s : String) : Prop where
  /-- There is a program if the characters have codes and the last one is inside the memory. -/
  linked : ∀ origin : Int, 0 ≤ origin → origin ≤ 0xffff →
    ((∃ b p, m.call (saying s) = .ok b ∧ b.link origin = .ok p) ↔
      (∀ c ∈ s.toList, Printable c) ∧ s.length ≤ 0x3fec)
  /-- Then it is the same at all of them. -/
  carried : ∀ b origin p, m.call (saying s) = .ok b → b.link origin = .ok p → Carries p s
  /-- A message that cannot be encoded is refused for its first such character. -/
  refused : ∀ before c after, s.toList = before ++ c :: after → (∀ d ∈ before, Printable d) →
    ¬ Printable c → m.call (saying s) = .error (.directive (.invalidCharacter c .petscii))
  /-- A message that is too long is called with, and overflows the memory when it is linked. -/
  overflow : (∀ c ∈ s.toList, Printable c) → 0x3fec < s.length →
    ∃ b, m.call (saying s) = .ok b ∧ ∀ origin : Int, 0 ≤ origin → origin ≤ 0xffff →
      b.link origin = .error (.programOverflow (0xc014 + s.length))

/-- **The demo carries every message** that can be encoded and fits behind its code. -/
theorem program_carries : ∃ m, program = .ok m ∧ ∀ s, CarriesExactly m s := by
  refine ⟨demo, program_eq, fun s => ?_⟩
  constructor
  case linked =>
    intro origin hlow hhigh
    constructor
    · rintro ⟨b, p, hcall, hlink⟩
      obtain ⟨d, hd, rfl⟩ := call_eq_ok.mp hcall
      rw [link_data d ⟨hlow, hhigh⟩, length_data hd] at hlink
      refine ⟨(codes_of_data hd).1, ?_⟩
      by_contra hlong
      rw [if_neg hlong] at hlink
      cases hlink
    · rintro ⟨hchars, hfits⟩
      obtain ⟨d, hd⟩ := exists_data hchars
      refine ⟨_, framed.withData d, call_eq_ok.mpr ⟨d, hd, rfl⟩, ?_⟩
      rw [link_data d ⟨hlow, hhigh⟩, length_data hd, if_pos hfits]
  case carried =>
    intro b origin p hcall hlink
    obtain ⟨d, hd, rfl⟩ := call_eq_ok.mp hcall
    rw [link_data d (linksTo_of_link hlink).1] at hlink
    split at hlink
    · cases hlink
      exact carries_withData hd
    · cases hlink
  case refused =>
    intro before c after hs hbefore hc
    exact call_refused hs hbefore hc
  case overflow =>
    intro hchars hlong
    obtain ⟨d, hd⟩ := exists_data hchars
    refine ⟨_, call_eq_ok.mpr ⟨d, hd, rfl⟩, fun origin hlow hhigh => ?_⟩
    rw [link_data d ⟨hlow, hhigh⟩, length_data hd, if_neg (Nat.not_le.mpr hlong)]

example : sysLine.length = 14 ∧ routine.length = 20 ∧
    0 ≤ Block.defaultOrigin ∧ Block.defaultOrigin ≤ 0xffff := by decide

end Asm6502.HelloWorld

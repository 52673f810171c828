import Asm6502.Demo.Machine
import Asm6502.Macro.Call

/-! A demo with colour bars that move by interrupt while a text is typed onto the screen. -/
namespace Asm6502.RasterBars

/-! ### Variables in the zero page -/

def barStart : Int := 0x20
def barEnd : Int := 0x21
def rasterMode : Int := 0x22
def lineOffset : Int := 0x23
def counter : Int := 0x26
def textPointer : Int := 0x27

/-- The column at which typing starts. -/
def charOffset : Int := 39

/-- The column at which the first character ends up. -/
def endPosition : Int := 16

/-! ### Routines -/

open Build Machine in
/-- Waits until the counter of frames reaches the value in X. -/
def wait : Macro where
  defaults := .empty
  procedures := [do
    label "wl"
    ins .cpx counter
    ins .bne "wl"
    imm .lda 0
    ins .sta counter
    ins .rts .none]

open Build Machine in
/-- Types the text behind the text pointer onto the screen, a character per frame. -/
def textGun : Macro where
  defaults := .empty
  procedures := [do
    imm .ldx endPosition
    ins .stx lineOffset
    imm .ldx charOffset
    imm .ldy 0

    label "wpre"
    ins .lda counter
    imm .cmp 1
    ins .bne "wpre"

    -- The cursor
    imm .lda 0x20
    label "uno"
    insMode .sta .absoluteX screen none

    label "wpo"
    ins .lda counter
    imm .cmp 1
    ins .bne "wpo"
    ins .dex .none

    label "put_char"
    insMode .lda .indirectIndexedY textPointer none
    ins .bmi "end"
    imm .cmp 0x20
    ins .beq "skip_char"
    imm .cmp newline
    ins .beq "next_line"
    label "dos"
    insMode .sta .absoluteX screen none
    ins .cpx lineOffset
    ins .bne "end_char"
    ins .inc lineOffset
    imm .ldx charOffset
    ins .iny .none

    label "end_char"
    imm .lda 0
    ins .sta counter
    ins .jmp "wpre"

    label "skip_char"
    ins .inc lineOffset
    imm .ldx charOffset
    ins .iny .none
    imm .lda 0
    ins .sta counter
    ins .jmp "wpre"

    -- The bars go down a line and the screen pointers a row
    label "next_line"
    ins .txa .none
    ins .pha .none
    imm .ldx 7
    label "rbardown"
    ins .lda counter
    imm .cmp 1
    ins .bne "rbardown"
    imm .lda 0
    ins .sta counter
    ins .inc barEnd
    ins .dex .none
    ins .bpl "rbardown"
    ins .pla .none
    ins .tax .none

    insMod .lda "uno" (.offset 1)
    ins .clc .none
    imm .adc 40
    ins .bcc "skip_high"
    ins .pha .none
    insMod .lda "uno" (.offset 2)
    ins .clc .none
    imm .adc 1
    insMod .sta "uno" (.offset 2)
    insMod .sta "dos" (.offset 2)
    ins .pla .none
    label "skip_high"
    insMod .sta "uno" (.offset 1)
    insMod .sta "dos" (.offset 1)

    imm .lda endPosition
    ins .sta lineOffset
    imm .ldx charOffset
    ins .iny .none
    imm .lda 0
    ins .sta counter
    ins .jmp "wpre"

    label "end"
    ins .rts .none]

open Build Machine in
/-- Switches the colours at the top and at the bottom of the bar. -/
def rasterInterrupt : Macro where
  defaults := .ofList [("top_color", .number 0), ("bar_color", .number 1)]
  procedures := [do
    ins .ldx raster
    ins .inx .none
    ins .stx raster
    insMod .lda "rtr_sync" .lowByte
    ins .sta irqVector
    ins .asl videoIrqStatus
    ins .cli .none
    Macro.runAll (List.replicate 10 (ins .nop .none))

    -- The raster is made stable
    label "rtr_sync"
    ins .nop .none
    ins .cpx raster
    insMod .bne "*" (.offset 2)

    ins .lda rasterMode
    ins .bne "rtr_mode_e"

    let topColor ← number "top_color"
    imm .lda 1
    ins .sta rasterMode
    imm .lda topColor
    ins .sta borderColor
    ins .sta backgroundColor
    ins .lda barStart
    ins .sta raster
    ins .jmp "rtr_end"

    let barColor ← number "bar_color"
    label "rtr_mode_e"
    imm .lda 0
    ins .sta rasterMode
    imm .lda barColor
    ins .sta borderColor
    ins .sta backgroundColor
    ins .lda barEnd
    ins .sta raster

    label "rtr_end"
    ins .inc counter
    ins .asl videoIrqStatus
    ins .pla .none
    ins .tay .none
    ins .pla .none
    ins .tax .none
    ins .pla .none
    ins .rti .none]

/-! ### The program -/

/-- The lines that are typed. -/
def lines : List String :=
  ["#this is a test#", "#", "of some data test#", "test @ test.com 123#"]

open Build Machine in
/-- Everything behind the BASIC line. -/
def barsMain : Build Unit := do
  imm .lda 140
  ins .sta barStart
  imm .lda 149
  ins .sta barEnd
  imm .lda 0
  ins .sta rasterMode
  ins .sta counter
  ins .sta lineOffset
  ins .jsr clearScreen

  imm .lda 0x1b
  ins .sta videoControl
  imm .lda 0x08
  ins .sta 0xd016
  imm .lda 0x14
  ins .sta 0xd018

  -- No interrupt but that of the raster
  ins .sei .none
  imm .lda 0x7f
  ins .sta 0xdc0d
  ins .sta 0xdd0d
  ins .lda videoIrqEnable
  imm .ora 1
  ins .sta videoIrqEnable
  insMod .lda "rtr_int" .lowByte
  ins .sta irqVector
  insMod .lda "rtr_int" .highByte
  ins .sta (irqVector + 1 : Int)
  ins .lda videoControl
  imm .and 0x7f
  ins .sta videoControl
  ins .lda barStart
  ins .sta raster
  ins .cli .none

  label "start"
  imm .ldx 10
  ins .jsr "sub_wait"
  label "barup"
  imm .ldx 1
  ins .jsr "sub_wait"
  ins .dec barStart
  ins .dec barEnd
  ins .lda barStart
  imm .cmp 49
  ins .bne "barup"

  imm .ldx 8
  ins .jsr "sub_wait"
  insMod .lda "textdata" .lowByte
  ins .sta textPointer
  insMod .lda "textdata" .highByte
  ins .sta (textPointer + 1 : Int)
  ins .jsr "textgun"
  label "infloop"
  ins .jmp "infloop"

  label "textgun"
  block (← ofExcept (textGun.call .empty))
  label "sub_wait"
  block (← ofExcept (wait.call .empty))

  label "textdata"
  Macro.runAll (lines.map fun line => data (.text line) .screen)
  data (.numbers [0xff]) .plain

  align 0x4000
  label "rtr_int"
  let topColor ← number "top_color"
  let barColor ← number "bar_color"
  let colors := .ofList [("top_color", .number topColor), ("bar_color", .number barColor)]
  block (← ofExcept (rasterInterrupt.call colors))

/-- Bars in the colours of the variables `top_color` and `bar_color`. The code starts right behind
its BASIC line. -/
def program : Except BasicV2.BasicError Macro := do
  let stub ← Machine.stub "10 SYS 2062"
  return ⟨.ofList [("top_color", .number 0), ("bar_color", .number 1)],
    [Build.block stub, barsMain]⟩

end Asm6502.RasterBars

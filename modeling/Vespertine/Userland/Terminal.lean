import Vespertine.Library.Raster
import Vespertine.Library.Transition

/-!
# The terminal

The parser of escape sequences calls `print` for a character, `execute` for a control character and
`csi_dispatch` for a sequence.  They change the grid of cells and, each for itself, the pixels of
the framebuffer: characters are drawn from the font, cleared cells are filled, and `scroll` moves
the lines of the picture.

`FONT_DATA` is a parameter: four bytes, and then sixteen for each character.
-/

namespace Vespertine
namespace Terminal

abbrev Color := BitVec 32

/-- Ways in which a callback does not return. -/
inductive Fault where
  /-- The panic of a slice. -/
  | indexOutOfBounds
  /-- A pixel is written outside the mapping. -/
  | outsideMapping
  deriving DecidableEq

def PADDING_X : Nat := 12
def PADDING_Y : Nat := 12

structure Cell where
  char : Char
  fg : Color
  bg : Color
  deriving DecidableEq

structure FramebufferInfo where
  width : Nat
  height : Nat
  pitch : Nat

structure Framebuffer where
  info : FramebufferInfo
  /-- The mapping, as `pixels_mut` gives it. -/
  pixels : List Color

structure TerminalGrid where
  widthChars : Nat
  heightChars : Nat
  cursorX : Nat
  cursorY : Nat
  currentFg : Color
  currentBg : Color
  cells : List Cell
  fb : Framebuffer
  /-- What was written to the shell. -/
  replies : List String

/-- `slice[index]`. -/
def index {α : Type} (slice : List α) (index : Nat) : Except Fault α :=
  match slice[index]? with
  | some value => .ok value
  | none => .error .indexOutOfBounds

/-- `slice[index] = value`. -/
def assign {α : Type} (slice : List α) (index : Nat) (value : α) : Except Fault (List α) :=
  if index < slice.length then .ok (slice.set index value) else .error .indexOutOfBounds

/-- `slice.copy_within(start..stop, place)`. -/
def moveWithin {α : Type} (slice : List α) (start stop place : Nat) : Except Fault (List α) :=
  if start ≤ stop ∧ stop ≤ slice.length ∧ place + (stop - start) ≤ slice.length then
    .ok (copyWithin slice start stop place)
  else
    .error .indexOutOfBounds

namespace Framebuffer

/-- `pitch / 4`: the words of a line. -/
def screenWords (fb : Framebuffer) : Nat := fb.info.pitch / 4

def writePixel (fb : Framebuffer) (x y : Nat) (color : Color) : Except Fault Framebuffer :=
  if x < fb.info.width ∧ y < fb.info.height then
    let offset := y * fb.screenWords + x
    if offset < fb.pixels.length then
      .ok { fb with pixels := fb.pixels.set offset color }
    else
      .error .outsideMapping
  else
    .ok fb

/-- The loops of `draw_cell` and `clear_cell` over the pixels of a cell, line by line. -/
def blit (fb : Framebuffer) (xStart yStart : Nat)
    (scanline : Nat → Except Fault (Nat → Color)) : Except Fault Framebuffer :=
  (List.range 16).foldlM (fun fb y => do
    let color ← scanline y
    (List.range 8).foldlM (fun fb x => fb.writePixel (xStart + x) (yStart + y) (color x)) fb) fb

end Framebuffer

/-- Offset of a character in the font. -/
def glyphOffset (char : Char) : Nat := 4 + char.toNat * 16

/-- The colour of a pixel of a cell, by a byte of the font. -/
def Cell.color (cell : Cell) (fontByte : BitVec 8) (x : Nat) : Color :=
  if fontByte &&& ((0x80 : BitVec 8) >>> x) ≠ 0 then cell.fg else cell.bg

/-- A line of a cell. -/
def Cell.scanline (fontData : List (BitVec 8)) (cell : Cell) (y : Nat) :
    Except Fault (Nat → Color) := do
  let fontByte ← index fontData (glyphOffset cell.char + y)
  .ok (cell.color fontByte)

def translateAnsiColor : Nat → Color
  | 0 => 0x1a1a1a
  | 1 => 0xc85d5d
  | 2 => 0x5a7548
  | 3 => 0xf0ca93
  | 4 => 0x5276b5
  | 5 => 0x7d4c68
  | 6 => 0xad687d
  | _ => 0xe0ddd8

namespace TerminalGrid

/-- A character in the current colours. -/
def colored (grid : TerminalGrid) (c : Char) : Cell := ⟨c, grid.currentFg, grid.currentBg⟩

def blank (grid : TerminalGrid) : Cell := grid.colored ' '

def drawCell (fontData : List (BitVec 8)) (grid : TerminalGrid) (col row : Nat) :
    Except Fault TerminalGrid := do
  let cell ← index grid.cells (row * grid.widthChars + col)
  let fb ← grid.fb.blit (PADDING_X + col * 8) (PADDING_Y + row * 16) (cell.scanline fontData)
  .ok { grid with fb }

def clearCell (grid : TerminalGrid) (col row : Nat) : Except Fault TerminalGrid := do
  let cells ← assign grid.cells (row * grid.widthChars + col) grid.blank
  let fb ← grid.fb.blit (PADDING_X + col * 8) (PADDING_Y + row * 16) fun _ =>
    .ok fun _ => grid.currentBg
  .ok { grid with cells, fb }

/-- The grid has a row, so `height_chars - 1` does not wrap. -/
def scroll (grid : TerminalGrid) : Except Fault TerminalGrid := do
  let shifted ← moveWithin grid.cells grid.widthChars grid.cells.length 0
  let lastRowStart := (grid.heightChars - 1) * grid.widthChars
  let cells := fillFrom shifted lastRowStart grid.blank
  let screenWords := grid.fb.screenWords
  let dstStart := PADDING_Y * screenWords
  let srcStart := (PADDING_Y + 16) * screenWords
  let count := (grid.heightChars - 1) * 16 * screenWords
  let moved ← moveWithin grid.fb.pixels srcStart (srcStart + count) dstStart
  let startWord := (grid.heightChars - 1) * 16 * screenWords
  let pixels := fillFrom moved startWord grid.currentBg
  .ok { grid with cells, fb := { grid.fb with pixels } }

def newline (grid : TerminalGrid) : Except Fault TerminalGrid :=
  if grid.cursorY < grid.heightChars - 1 then
    .ok { grid with cursorY := grid.cursorY + 1 }
  else
    grid.scroll

def clearScreen (grid : TerminalGrid) : TerminalGrid :=
  { grid with
    cells := fillFrom grid.cells 0 grid.blank
    fb := { grid.fb with pixels := fillFrom grid.fb.pixels 0 grid.currentBg }
    cursorX := 0
    cursorY := 0 }

def print (fontData : List (BitVec 8)) (grid : TerminalGrid) (c : Char) :
    Except Fault TerminalGrid := do
  let grid ←
    (if grid.widthChars ≤ grid.cursorX then newline { grid with cursorX := 0 } else .ok grid)
  let idx := grid.cursorY * grid.widthChars + grid.cursorX
  let cells ← assign grid.cells idx (grid.colored c)
  let grid ← drawCell fontData { grid with cells } grid.cursorX grid.cursorY
  .ok { grid with cursorX := grid.cursorX + 1 }

/-- A line feed, and the cursor goes to the first column. -/
def nextLine (grid : TerminalGrid) : Except Fault TerminalGrid := do
  let grid ← grid.newline
  .ok { grid with cursorX := 0 }

def execute (grid : TerminalGrid) (byte : UInt8) : Except Fault TerminalGrid :=
  if byte = 0x0a then
    grid.nextLine
  else if byte = 0x0d then
    .ok { grid with cursorX := 0 }
  else if byte = 0x08 then
    if 0 < grid.cursorX then
      clearCell { grid with cursorX := grid.cursorX - 1 } (grid.cursorX - 1) grid.cursorY
    else
      .ok grid
  else
    .ok grid

/-- One parameter of `m`, with its subparameters. -/
def selectColor (grid : TerminalGrid) : List Nat → TerminalGrid
  | [param] =>
      if param = 0 then
        { grid with currentFg := 0xe0ddd8, currentBg := 0x11080d }
      else if 30 ≤ param ∧ param ≤ 37 then
        { grid with currentFg := translateAnsiColor (param - 30) }
      else if 40 ≤ param ∧ param ≤ 47 then
        { grid with currentBg := translateAnsiColor (param - 40) }
      else
        grid
  | _ => grid

/-- One parameter of `n`. -/
def report (grid : TerminalGrid) (param : List Nat) : TerminalGrid :=
  if param = [6] then
    let reply := "\x1b[" ++ toString (grid.cursorY + 1) ++ ";" ++ toString (grid.cursorX + 1) ++ "R"
    { grid with replies := grid.replies ++ [reply] }
  else
    grid

def csiDispatch (grid : TerminalGrid) (params : List (List Nat)) (action : Char) :
    Except Fault TerminalGrid :=
  match action with
  | 'm' => .ok (params.foldl selectColor grid)
  | 'J' => .ok grid.clearScreen
  | 'N' => if 0 < grid.cursorX then grid.nextLine else .ok grid
  | 'n' => .ok (params.foldl report grid)
  | _ => .ok grid

end TerminalGrid

def FG_COLOR : Color := 0xe0ddd8
def BG_COLOR : Color := 0x11080d

/-- The grid that `main` makes for a framebuffer. -/
def start (fb : Framebuffer) : TerminalGrid :=
  let widthChars := (fb.info.width - 2 * PADDING_X) / 8
  let heightChars := (fb.info.height - 2 * PADDING_Y) / 16
  { widthChars, heightChars, cursorX := 0, cursorY := 0
    currentFg := FG_COLOR
    currentBg := BG_COLOR
    cells := List.replicate (widthChars * heightChars) ⟨' ', FG_COLOR, BG_COLOR⟩
    fb, replies := [] }

/-- What the parser calls. -/
inductive Callback where
  | print (c : Char)
  | execute (byte : UInt8)
  /-- Intermediates and the flag for ignored ones are not looked at. -/
  | csiDispatch (params : List (List Nat)) (intermediates : List UInt8) (ignored : Bool)
      (action : Char)

def step (fontData : List (BitVec 8)) (grid : TerminalGrid) :
    Callback → Except Fault TerminalGrid
  | .print c => grid.print fontData c
  | .execute byte => grid.execute byte
  | .csiDispatch params _ _ action => grid.csiDispatch params action

end Terminal
end Vespertine

import Vespertine.Userland.Terminal

/-!
# Cells and pixels

A cell is shown when the pixels of its area have the colours that the glyph of its character gives
them.  What draws or clears a cell is described by what it does to the cells and to the pixels in
coordinates: a repainted cell leaves every other area alone.

A scroll moves the lines of all rows up by sixteen.  It then fills the picture from a line that is
`PADDING_Y` too high, and so the row above the last loses its lines from the fourth on.
-/

namespace Vespertine
namespace Terminal

/-!
### Painting
-/

namespace Framebuffer

/-- The pixel of a column and a line. -/
def pixel (fb : Framebuffer) (x y : Nat) : Option Color :=
  Raster.pixel fb.pixels fb.screenWords x y

/-- A line is as long as the screen is wide, and there are as many as it is high. -/
structure Roomy (fb : Framebuffer) : Prop where
  line : fb.info.width ≤ fb.screenWords
  lines : fb.info.height * fb.screenWords ≤ fb.pixels.length

variable {fb before mid after : Framebuffer} {area more : Nat → Nat → Prop}
  {color : Nat → Nat → Color} {x y : Nat}

theorem Roomy.inside (roomy : Roomy fb) (x_lt : x < fb.screenWords) (y_lt : y < fb.info.height) :
    y * fb.screenWords + x < fb.pixels.length :=
  lt_of_lt_of_le ((Raster.place_lt_iff x_lt _).mpr y_lt) roomy.lines

/-- The pixels of an area got their colours, and the others are as before. -/
structure Painted (before after : Framebuffer) (area : Nat → Nat → Prop)
    (color : Nat → Nat → Color) : Prop where
  info_eq : after.info = before.info
  length_eq : after.pixels.length = before.pixels.length
  inside : ∀ x y, x < before.screenWords → area x y → after.pixel x y = some (color x y)
  outside : ∀ x y, x < before.screenWords → ¬ area x y → after.pixel x y = before.pixel x y

namespace Painted

theorem screenWords_eq (painted : Painted before after area color) :
    after.screenWords = before.screenWords := by
  rw [screenWords, painted.info_eq, screenWords]

theorem roomy (painted : Painted before after area color) (roomy : Roomy before) :
    Roomy after := by
  obtain ⟨line, lines⟩ := roomy
  rw [← painted.info_eq, ← painted.screenWords_eq] at line lines
  exact ⟨line, painted.length_eq ▸ lines⟩

/-- Nothing is painted yet. -/
theorem none (nowhere : ∀ x y, ¬ area x y) : Painted fb fb area color where
  info_eq := rfl
  length_eq := rfl
  inside x y _ here := absurd here (nowhere x y)
  outside _ _ _ _ := rfl

/-- A second area painted after the first. -/
theorem trans (first : Painted before mid area color) (second : Painted mid after more color)
    {whole : Nat → Nat → Prop} (whole_iff : ∀ x y, whole x y ↔ area x y ∨ more x y) :
    Painted before after whole color where
  info_eq := second.info_eq.trans first.info_eq
  length_eq := second.length_eq.trans first.length_eq
  inside := by
    intro x y x_lt here
    have x_lt' : x < mid.screenWords := first.screenWords_eq ▸ x_lt
    by_cases later : more x y
    · exact second.inside x y x_lt' later
    · rw [second.outside x y x_lt' later]
      exact first.inside x y x_lt (((whole_iff x y).mp here).resolve_right later)
  outside := by
    intro x y x_lt elsewhere
    have not_either := (not_congr (whole_iff x y)).mp elsewhere
    rw [second.outside x y (first.screenWords_eq ▸ x_lt) fun later => not_either (.inr later)]
    exact first.outside x y x_lt fun earlier => not_either (.inl earlier)

end Painted

theorem writePixel_spec (roomy : Roomy fb) (x_lt : x < fb.info.width) (y_lt : y < fb.info.height) :
    ∃ after, fb.writePixel x y (color x y) = .ok after ∧
      Painted fb after (fun column line => column = x ∧ line = y) color := by
  have place_lt : x < fb.screenWords := lt_of_lt_of_le x_lt roomy.line
  have inside := roomy.inside place_lt y_lt
  refine ⟨{ fb with pixels := fb.pixels.set (y * fb.screenWords + x) (color x y) }, ?_, rfl, ?_,
    ?_, ?_⟩
  · rw [writePixel, if_pos ⟨x_lt, y_lt⟩, if_pos inside]
  · exact List.length_set
  · rintro column line column_lt ⟨rfl, rfl⟩
    exact (Raster.pixel_set column_lt place_lt inside _).trans (if_pos ⟨rfl, rfl⟩)
  · intro column line column_lt elsewhere
    exact (Raster.pixel_set column_lt place_lt inside _).trans (if_neg elsewhere)

/-- A rectangle. -/
def Area (xStart width yStart height x y : Nat) : Prop :=
  xStart ≤ x ∧ x < xStart + width ∧ yStart ≤ y ∧ y < yStart + height

variable {xStart yStart : Nat}

theorem line_spec (color : Nat → Nat → Color) (roomy : Roomy fb)
    (columns_fit : xStart + 8 ≤ fb.info.width) (y_lt : y < fb.info.height) :
    ∃ after, (List.range 8).foldlM (fun fb x =>
        fb.writePixel (xStart + x) y (color (xStart + x) y)) fb = .ok after ∧
      Painted fb after (Area xStart 8 y 1) color := by
  apply foldlM_range_ok fun done after => Painted fb after (Area xStart done y 1) color
  · apply Painted.none
    unfold Area
    omega
  · intro x x_lt state painted
    have width_eq : state.info.width = fb.info.width := congrArg _ painted.info_eq
    have height_eq : state.info.height = fb.info.height := congrArg _ painted.info_eq
    obtain ⟨next, next_eq, one⟩ := writePixel_spec (painted.roomy roomy)
      (by omega : xStart + x < state.info.width) (by omega : y < state.info.height)
    refine ⟨next, next_eq, painted.trans one fun column line => ?_⟩
    unfold Area
    omega

/-- A cell is painted, line after line. -/
theorem blit_spec (roomy : Roomy fb) (columns_fit : xStart + 8 ≤ fb.info.width)
    (rows_fit : yStart + 16 ≤ fb.info.height) {scanline : Nat → Except Fault (Nat → Color)}
    {line : Nat → Nat → Color} (scanline_eq : ∀ y < 16, scanline y = .ok (line y)) :
    ∃ after, fb.blit xStart yStart scanline = .ok after ∧
      Painted fb after (Area xStart 8 yStart 16) fun x y => line (y - yStart) (x - xStart) := by
  apply foldlM_range_ok fun done after => Painted fb after (Area xStart 8 yStart done)
    fun x y => line (y - yStart) (x - xStart)
  · apply Painted.none
    unfold Area
    omega
  · intro y y_lt state painted
    have width_eq : state.info.width = fb.info.width := congrArg _ painted.info_eq
    have height_eq : state.info.height = fb.info.height := congrArg _ painted.info_eq
    obtain ⟨next, next_eq, one⟩ := line_spec (fun x y => line (y - yStart) (x - xStart))
      (painted.roomy roomy) (by omega : xStart + 8 ≤ state.info.width)
      (by omega : yStart + y < state.info.height)
    refine ⟨next, ?_, painted.trans one fun column line => ?_⟩
    · exact bind_eq_ok.mpr ⟨line y, scanline_eq y y_lt, by simpa using next_eq⟩
    · unfold Area
      omega

end Framebuffer

/-!
### Cells and their pictures
-/

variable {fontData : List (BitVec 8)} {grid before after : TerminalGrid} {cell : Cell}
  {col row : Nat}

/-- What a pixel of a cell is to show. -/
def glyphColor (fontData : List (BitVec 8)) (cell : Cell) (x y : Nat) : Option Color :=
  fontData[glyphOffset cell.char + y]?.map (cell.color · x)

/-- The sixteen bytes of a character lie in the font. -/
def HasGlyph (fontData : List (BitVec 8)) (char : Char) : Prop :=
  glyphOffset char + 16 ≤ fontData.length

/-- The glyph of the space is empty. -/
def BlankSpace (fontData : List (BitVec 8)) : Prop :=
  ∀ y < 16, fontData[glyphOffset ' ' + y]? = some 0

/-- The glyph of the cell's character, in its colours. -/
def Pictured (fontData : List (BitVec 8)) (cell : Cell) (picture : Nat → Nat → Option Color) :
    Prop :=
  ∀ x < 8, ∀ y < 16, ∃ color, glyphColor fontData cell x y = some color ∧
    picture x y = some color

/-- The picture in the area of a cell. -/
def TerminalGrid.picture (grid : TerminalGrid) (col row x y : Nat) : Option Color :=
  grid.fb.pixel (PADDING_X + col * 8 + x) (PADDING_Y + row * 16 + y)

/-- The area of a cell shows the cell. -/
def ShowsCell (fontData : List (BitVec 8)) (grid : TerminalGrid) (col row : Nat) : Prop :=
  ∃ cell, grid.cells[row * grid.widthChars + col]? = some cell ∧
    Pictured fontData cell (grid.picture col row)

/-- The cursor is in the grid, or behind the end of a row, and the screen shows every cell. -/
structure Shown (fontData : List (BitVec 8)) (grid : TerminalGrid) : Prop where
  cursor_y : grid.cursorY < grid.heightChars
  cursor_x : grid.cursorX ≤ grid.widthChars
  shows : ∀ col < grid.widthChars, ∀ row < grid.heightChars, ShowsCell fontData grid col row

/-- The cells fit the framebuffer, with the padding before them. -/
structure Fits (grid : TerminalGrid) : Prop where
  some_column : 0 < grid.widthChars
  some_row : 0 < grid.heightChars
  cells_length : grid.cells.length = grid.heightChars * grid.widthChars
  columns_fit : PADDING_X + grid.widthChars * 8 ≤ grid.fb.info.width
  rows_fit : PADDING_Y + grid.heightChars * 16 ≤ grid.fb.info.height
  /-- A line of the framebuffer holds its width. -/
  line : grid.fb.info.width ≤ grid.fb.info.pitch / 4
  mapped : grid.fb.pixels.length = grid.fb.info.pitch * grid.fb.info.height / 4

namespace Fits

theorem roomy (fits : Fits grid) : grid.fb.Roomy where
  line := fits.line
  lines := by
    rw [fits.mapped, Framebuffer.screenWords, Nat.le_div_iff_mul_le (by decide), Nat.mul_assoc,
      Nat.mul_comm]
    exact Nat.mul_le_mul_right _ (Nat.div_mul_le_self _ _)

/-- A grid of the same shape fits too. -/
theorem congr (fits : Fits before) (width_eq : after.widthChars = before.widthChars)
    (height_eq : after.heightChars = before.heightChars)
    (cells_eq : after.cells.length = before.cells.length) (info_eq : after.fb.info = before.fb.info)
    (pixels_eq : after.fb.pixels.length = before.fb.pixels.length) : Fits after := by
  obtain ⟨some_column, some_row, cells_length, columns_fit, rows_fit, line, mapped⟩ := fits
  rw [← width_eq] at some_column columns_fit cells_length
  rw [← height_eq] at some_row rows_fit cells_length
  rw [← info_eq] at columns_fit rows_fit line mapped
  exact ⟨some_column, some_row, cells_eq.trans cells_length, columns_fit, rows_fit, line,
    pixels_eq.trans mapped⟩

/-- The grid of `main` fits, if the screen has room for a cell between the paddings. -/
theorem start {fb : Framebuffer} (wide : 2 * PADDING_X + 8 ≤ fb.info.width)
    (high : 2 * PADDING_Y + 16 ≤ fb.info.height) (line : fb.info.width ≤ fb.info.pitch / 4)
    (mapped : fb.pixels.length = fb.info.pitch * fb.info.height / 4) :
    Fits (Terminal.start fb) where
  some_column := Nat.div_pos (by omega) (by decide)
  some_row := Nat.div_pos (by omega) (by decide)
  cells_length := List.length_replicate.trans (Nat.mul_comm _ _)
  columns_fit := by
    have := Nat.div_mul_le_self (fb.info.width - 2 * PADDING_X) 8
    simp only [Terminal.start]
    omega
  rows_fit := by
    have := Nat.div_mul_le_self (fb.info.height - 2 * PADDING_Y) 16
    simp only [Terminal.start]
    omega
  line := line
  mapped := mapped

theorem index_lt (fits : Fits grid) (col_lt : col < grid.widthChars)
    (row_lt : row < grid.heightChars) : row * grid.widthChars + col < grid.cells.length := by
  rw [fits.cells_length]
  exact (Raster.place_lt_iff col_lt _).mpr row_lt

/-- The columns of a cell lie in the lines of the framebuffer. -/
theorem column_lt (fits : Fits grid) (col_lt : col < grid.widthChars) {x : Nat} (x_lt : x < 8) :
    PADDING_X + col * 8 + x < grid.fb.screenWords := by
  have columns_fit := fits.columns_fit
  have line := fits.roomy.line
  omega

end Fits

/-!
### One cell painted
-/

/-- A cell is stored, and its area painted. -/
structure Redrawn (fontData : List (BitVec 8)) (before after : TerminalGrid) (col row : Nat)
    (cell : Cell) : Prop where
  after_eq : after = { before with
    cells := before.cells.set (row * before.widthChars + col) cell
    fb := after.fb }
  painted : ∃ color, Framebuffer.Painted before.fb after.fb
    (Framebuffer.Area (PADDING_X + col * 8) 8 (PADDING_Y + row * 16) 16) color
  shows : ShowsCell fontData after col row

namespace Redrawn

section Same

variable (redrawn : Redrawn fontData before after col row cell)
include redrawn

theorem widthChars_eq : after.widthChars = before.widthChars := by rw [redrawn.after_eq]

theorem heightChars_eq : after.heightChars = before.heightChars := by rw [redrawn.after_eq]

theorem cursorX_eq : after.cursorX = before.cursorX := by rw [redrawn.after_eq]

theorem cursorY_eq : after.cursorY = before.cursorY := by rw [redrawn.after_eq]

end Same

theorem fits (redrawn : Redrawn fontData before after col row cell) (fits : Fits before) :
    Fits after := by
  obtain ⟨color, painted⟩ := redrawn.painted
  refine fits.congr redrawn.widthChars_eq redrawn.heightChars_eq ?_ painted.info_eq
    painted.length_eq
  rw [redrawn.after_eq]
  exact List.length_set

/-- The other cells are shown as before. -/
theorem showsCell_iff (redrawn : Redrawn fontData before after col row cell) (fits : Fits before)
    (col_lt : col < before.widthChars) {otherCol otherRow : Nat}
    (other_lt : otherCol < before.widthChars) (ne : otherCol ≠ col ∨ otherRow ≠ row) :
    ShowsCell fontData after otherCol otherRow ↔ ShowsCell fontData before otherCol otherRow := by
  have cells_eq : after.cells[otherRow * before.widthChars + otherCol]? =
      before.cells[otherRow * before.widthChars + otherCol]? := by
    rw [redrawn.after_eq]
    apply List.getElem?_set_ne
    intro eq
    obtain ⟨rfl, rfl⟩ := Raster.place_inj col_lt other_lt eq
    rcases ne with ne | ne <;> exact ne rfl
  obtain ⟨color, painted⟩ := redrawn.painted
  have picture_eq : ∀ x < 8, ∀ y < 16,
      after.picture otherCol otherRow x y = before.picture otherCol otherRow x y := by
    intro x x_lt y y_lt
    apply painted.outside _ _ (fits.column_lt other_lt x_lt)
    unfold Framebuffer.Area
    omega
  rw [ShowsCell, ShowsCell, redrawn.widthChars_eq, cells_eq]
  refine exists_congr fun other => and_congr_right fun _ => ?_
  refine forall₂_congr fun x x_lt => forall₂_congr fun y y_lt => ?_
  rw [picture_eq x x_lt y y_lt]

/-- If all other cells were shown, the whole grid is. -/
theorem shows_all (redrawn : Redrawn fontData before after col row cell) (fits : Fits before)
    (col_lt : col < before.widthChars)
    (shows : ∀ col < before.widthChars, ∀ row < before.heightChars,
      ShowsCell fontData before col row) :
    ∀ col < after.widthChars, ∀ row < after.heightChars, ShowsCell fontData after col row := by
  intro otherCol other_lt otherRow otherRow_lt
  rw [redrawn.widthChars_eq] at other_lt
  rw [redrawn.heightChars_eq] at otherRow_lt
  by_cases here : otherCol = col ∧ otherRow = row
  · obtain ⟨rfl, rfl⟩ := here
    exact redrawn.shows
  · rw [redrawn.showsCell_iff fits col_lt other_lt (not_and_or.mp here)]
    exact shows otherCol other_lt otherRow otherRow_lt

end Redrawn

/-- The loops over the area of a cell leave its picture. -/
theorem redraw (fits : Fits grid) (col_lt : col < grid.widthChars) (row_lt : row < grid.heightChars)
    {scanline : Nat → Except Fault (Nat → Color)} {line : Nat → Nat → Color}
    (scanline_eq : ∀ y < 16, scanline y = .ok (line y))
    (glyph_eq : ∀ x < 8, ∀ y < 16, glyphColor fontData cell x y = some (line y x)) :
    ∃ fb, grid.fb.blit (PADDING_X + col * 8) (PADDING_Y + row * 16) scanline = .ok fb ∧
      Redrawn fontData grid { grid with
        cells := grid.cells.set (row * grid.widthChars + col) cell
        fb } col row cell := by
  have columns_fit := fits.columns_fit
  have rows_fit := fits.rows_fit
  obtain ⟨fb, fb_eq, painted⟩ := Framebuffer.blit_spec fits.roomy
    (by omega : PADDING_X + col * 8 + 8 ≤ grid.fb.info.width)
    (by omega : PADDING_Y + row * 16 + 16 ≤ grid.fb.info.height) scanline_eq
  refine ⟨fb, fb_eq, rfl, ⟨_, painted⟩, cell, ?_, fun x x_lt y y_lt => ?_⟩
  · exact List.getElem?_set_self (fits.index_lt col_lt row_lt)
  · refine ⟨line y x, glyph_eq x x_lt y y_lt, ?_⟩
    have pixel_eq := painted.inside (PADDING_X + col * 8 + x) (PADDING_Y + row * 16 + y)
      (fits.column_lt col_lt x_lt) (by unfold Framebuffer.Area; omega)
    simpa [TerminalGrid.picture] using pixel_eq

theorem glyphColor_eq_some {x y : Nat} {color : Color} :
    glyphColor fontData cell x y = some color ↔
      ∃ fontByte, fontData[glyphOffset cell.char + y]? = some fontByte ∧
        cell.color fontByte x = color := by
  rw [glyphColor, Option.map_eq_some_iff]

/-- A space shows the background. -/
theorem glyphColor_blank (blank : BlankSpace fontData) (grid : TerminalGrid) {x y : Nat}
    (y_lt : y < 16) : glyphColor fontData grid.blank x y = some grid.currentBg :=
  glyphColor_eq_some.mpr ⟨0, blank y y_lt, by
    simp [Cell.color, TerminalGrid.blank, TerminalGrid.colored]⟩

theorem index_eq_ok {α : Type} {slice : List α} {place : Nat} {value : α} :
    index slice place = .ok value ↔ slice[place]? = some value := by
  rw [index]
  split
  next found eq => simp [eq]
  next eq => simp [eq]

theorem clearCell_spec (blank : BlankSpace fontData) (fits : Fits grid)
    (col_lt : col < grid.widthChars) (row_lt : row < grid.heightChars) :
    ∃ after, grid.clearCell col row = .ok after ∧
      Redrawn fontData grid after col row grid.blank := by
  let scanline : Nat → Except Fault (Nat → Color) := fun _ => .ok fun _ => grid.currentBg
  have scanline_eq : ∀ y < 16, scanline y = .ok fun _ => grid.currentBg := fun _ _ => rfl
  obtain ⟨fb, fb_eq, redrawn⟩ := redraw fits col_lt row_lt scanline_eq
    fun x _ y y_lt => glyphColor_blank blank grid y_lt
  refine ⟨_, ?_, redrawn⟩
  rw [TerminalGrid.clearCell, assign, if_pos (fits.index_lt col_lt row_lt)]
  exact bind_eq_ok.mpr ⟨_, rfl, bind_eq_ok.mpr ⟨fb, fb_eq, rfl⟩⟩

/-- `print` without the wrap before and the cursor after. -/
def put (fontData : List (BitVec 8)) (grid : TerminalGrid) (c : Char) :
    Except Fault TerminalGrid := do
  let idx := grid.cursorY * grid.widthChars + grid.cursorX
  let cells ← assign grid.cells idx (grid.colored c)
  TerminalGrid.drawCell fontData { grid with cells } grid.cursorX grid.cursorY

/-- `print` goes to the next row behind the end of a row. -/
def wrap (grid : TerminalGrid) : Except Fault TerminalGrid :=
  if grid.widthChars ≤ grid.cursorX then { grid with cursorX := 0 }.newline else .ok grid

theorem print_eq_ok {c : Char} : grid.print fontData c = .ok after ↔
    ∃ wrapped drawn, wrap grid = .ok wrapped ∧ put fontData wrapped c = .ok drawn ∧
      after = { drawn with cursorX := drawn.cursorX + 1 } := by
  constructor
  · intro print_eq
    obtain ⟨wrapped, wrap_eq, print_eq⟩ := bind_eq_ok.mp print_eq
    obtain ⟨cells, cells_eq, print_eq⟩ := bind_eq_ok.mp print_eq
    obtain ⟨drawn, drawn_eq, print_eq⟩ := bind_eq_ok.mp print_eq
    exact ⟨wrapped, drawn, wrap_eq, bind_eq_ok.mpr ⟨cells, cells_eq, drawn_eq⟩,
      (Except.ok.inj print_eq).symm⟩
  · rintro ⟨wrapped, drawn, wrap_eq, put_eq, rfl⟩
    obtain ⟨cells, cells_eq, drawn_eq⟩ := bind_eq_ok.mp put_eq
    exact bind_eq_ok.mpr ⟨wrapped, wrap_eq, bind_eq_ok.mpr ⟨cells, cells_eq,
      bind_eq_ok.mpr ⟨drawn, drawn_eq, rfl⟩⟩⟩

theorem HasGlyph.byte_eq {c : Char} (hasGlyph : HasGlyph fontData c) (y : Nat) (y_lt : y < 16) :
    fontData[glyphOffset c + y]? = some (fontData[glyphOffset c + y]?.getD 0) := by
  have font_lt : glyphOffset c + y < fontData.length := by
    unfold HasGlyph at hasGlyph
    omega
  rw [List.getElem?_eq_getElem font_lt, Option.getD_some]

theorem scanline_eq (hasGlyph : HasGlyph fontData cell.char) (y : Nat) (y_lt : y < 16) :
    cell.scanline fontData y =
      .ok (cell.color (fontData[glyphOffset cell.char + y]?.getD 0)) :=
  bind_eq_ok.mpr ⟨_, index_eq_ok.mpr (hasGlyph.byte_eq y y_lt), rfl⟩

theorem glyphColor_eq (hasGlyph : HasGlyph fontData cell.char) (x y : Nat) (y_lt : y < 16) :
    glyphColor fontData cell x y =
      some (cell.color (fontData[glyphOffset cell.char + y]?.getD 0) x) :=
  glyphColor_eq_some.mpr ⟨_, hasGlyph.byte_eq y y_lt, rfl⟩

theorem drawCell_spec (cell : Cell) (fits : Fits grid) (col_lt : col < grid.widthChars)
    (row_lt : row < grid.heightChars) (hasGlyph : HasGlyph fontData cell.char) :
    ∃ after, TerminalGrid.drawCell fontData { grid with
        cells := grid.cells.set (row * grid.widthChars + col) cell } col row = .ok after ∧
      Redrawn fontData grid after col row cell := by
  obtain ⟨fb, fb_eq, redrawn⟩ := redraw fits col_lt row_lt (scanline_eq hasGlyph)
    fun x _ y y_lt => glyphColor_eq hasGlyph x y y_lt
  refine ⟨_, ?_, redrawn⟩
  have stored := index_eq_ok.mpr (List.getElem?_set_self (a := cell) (fits.index_lt col_lt row_lt))
  exact bind_eq_ok.mpr ⟨cell, stored, bind_eq_ok.mpr ⟨fb, fb_eq, rfl⟩⟩

section Put

variable {c : Char} (fits : Fits grid) (col_lt : grid.cursorX < grid.widthChars)
  (row_lt : grid.cursorY < grid.heightChars)
include fits col_lt row_lt

theorem put_spec (hasGlyph : HasGlyph fontData c) :
    ∃ after, put fontData grid c = .ok after ∧
      Redrawn fontData grid after grid.cursorX grid.cursorY (grid.colored c) := by
  have inside := fits.index_lt col_lt row_lt
  obtain ⟨after, after_eq, redrawn⟩ := drawCell_spec (grid.colored c) fits col_lt row_lt hasGlyph
  refine ⟨after, ?_, redrawn⟩
  rw [put, assign, if_pos inside]
  exact after_eq

/-- A character that is drawn has its bytes in the font. -/
theorem hasGlyph_of_put (put_eq : put fontData grid c = .ok after) : HasGlyph fontData c := by
  have inside := fits.index_lt col_lt row_lt
  obtain ⟨cells, cells_eq, draw_eq⟩ := bind_eq_ok.mp put_eq
  rw [assign, if_pos inside] at cells_eq
  obtain rfl := Except.ok.inj cells_eq
  obtain ⟨cell, cell_eq, draw_eq⟩ := bind_eq_ok.mp draw_eq
  obtain rfl := Option.some.inj
    ((List.getElem?_set_self inside).symm.trans (index_eq_ok.mp cell_eq))
  obtain ⟨fb, blit_eq, -⟩ := bind_eq_ok.mp draw_eq
  have last_mem : 15 ∈ List.range 16 := by decide
  obtain ⟨state, next, last_eq⟩ := ok_of_foldlM_ok blit_eq last_mem
  obtain ⟨line, line_eq, -⟩ := bind_eq_ok.mp last_eq
  obtain ⟨fontByte, byte_eq, -⟩ := bind_eq_ok.mp line_eq
  obtain ⟨font_lt, -⟩ := List.getElem?_eq_some_iff.mp (index_eq_ok.mp byte_eq)
  exact font_lt

end Put

/-!
### Scrolling
-/

theorem moveWithin_eq {α : Type} {slice : List α} {start stop place : Nat}
    (fits : CopyFits slice start stop place) :
    moveWithin slice start stop place = .ok (copyWithin slice start stop place) :=
  if_pos ⟨fits.ordered, fits.source, fits.destination⟩

/-- The cells of all rows but the first are moved by `scroll`. -/
theorem Fits.copy_cells (fits : Fits grid) :
    CopyFits grid.cells (1 * grid.widthChars) (grid.heightChars * grid.widthChars)
      (0 * grid.widthChars) := by
  have := Nat.mul_le_mul_right grid.widthChars fits.some_row
  rw [Nat.one_mul] at this
  refine ⟨by omega, fits.cells_length.ge, ?_⟩
  rw [fits.cells_length]
  omega

/-- The lines of all rows but the first are moved by `scroll`. -/
theorem Fits.copy_lines (fits : Fits grid) :
    CopyFits grid.fb.pixels ((PADDING_Y + 16) * grid.fb.screenWords)
      ((PADDING_Y + 16 + (grid.heightChars - 1) * 16) * grid.fb.screenWords)
      (PADDING_Y * grid.fb.screenWords) := by
  have rows_fit := fits.rows_fit
  have some_row := fits.some_row
  have source := (Nat.mul_le_mul_right grid.fb.screenWords (by omega :
    PADDING_Y + 16 + (grid.heightChars - 1) * 16 ≤ grid.fb.info.height)).trans fits.roomy.lines
  refine ⟨Nat.mul_le_mul_right _ (by omega), source, ?_⟩
  rw [← Nat.sub_mul, ← Nat.add_mul]
  exact (Nat.mul_le_mul_right _ (by omega)).trans source

/-- The grid that `scroll` leaves. -/
def scrolled (grid : TerminalGrid) : TerminalGrid :=
  { grid with
    cells := fillFrom
      (copyWithin grid.cells (1 * grid.widthChars) (grid.heightChars * grid.widthChars)
        (0 * grid.widthChars))
      ((grid.heightChars - 1) * grid.widthChars) grid.blank
    fb := { grid.fb with
      pixels := fillFrom
        (copyWithin grid.fb.pixels ((PADDING_Y + 16) * grid.fb.screenWords)
          ((PADDING_Y + 16 + (grid.heightChars - 1) * 16) * grid.fb.screenWords)
          (PADDING_Y * grid.fb.screenWords))
        ((grid.heightChars - 1) * 16 * grid.fb.screenWords) grid.currentBg } }

theorem scroll_eq (fits : Fits grid) : grid.scroll = .ok (scrolled grid) := by
  have cells_eq := moveWithin_eq fits.copy_cells
  have pixels_eq := moveWithin_eq fits.copy_lines
  rw [Nat.one_mul, Nat.zero_mul, ← fits.cells_length] at cells_eq
  rw [Nat.add_mul _ ((grid.heightChars - 1) * 16)] at pixels_eq
  refine bind_eq_ok.mpr ⟨_, cells_eq, bind_eq_ok.mpr ⟨_, pixels_eq, ?_⟩⟩
  simp only [scrolled, Nat.one_mul, Nat.zero_mul, fits.cells_length, Nat.add_mul]

section Scrolled

variable (fits : Fits grid)
include fits

theorem fits_scrolled : Fits (scrolled grid) := by
  refine fits.congr rfl rfl ?_ rfl ?_
  · rw [scrolled, length_fillFrom, length_copyWithin fits.copy_cells]
  · rw [scrolled, length_fillFrom, length_copyWithin fits.copy_lines]

/-- The rows but the last hold the rows below them. -/
theorem cells_scrolled (col_lt : col < grid.widthChars) (row_lt : row + 1 < grid.heightChars) :
    (scrolled grid).cells[row * grid.widthChars + col]? =
      grid.cells[(row + 1) * grid.widthChars + col]? := by
  have inside := fits.index_lt col_lt (by omega : row < grid.heightChars)
  rw [← length_copyWithin fits.copy_cells] at inside
  have unfilled := Raster.pixel_fillFrom (grid.heightChars - 1) col_lt inside grid.blank
  rw [if_neg (by omega), Raster.pixel_copyWithin fits.copy_cells col_lt, if_pos (by omega)]
    at unfilled
  rw [scrolled, Nat.add_comm row 1]
  exact unfilled

/-- The last row is blank. -/
theorem cells_scrolled_last (col_lt : col < grid.widthChars) :
    (scrolled grid).cells[(grid.heightChars - 1) * grid.widthChars + col]? = some grid.blank := by
  have some_row := fits.some_row
  have inside := fits.index_lt col_lt (by omega : grid.heightChars - 1 < grid.heightChars)
  rw [← length_copyWithin fits.copy_cells] at inside
  have filled := Raster.pixel_fillFrom (grid.heightChars - 1) col_lt inside grid.blank
  rwa [if_pos le_rfl] at filled

variable {x y : Nat}

/-- Lines above the fill hold the lines sixteen below them. -/
theorem pixel_scrolled (x_lt : x < grid.fb.screenWords) (padding : PADDING_Y ≤ y)
    (above : y < (grid.heightChars - 1) * 16) :
    (scrolled grid).fb.pixel x y = grid.fb.pixel x (y + 16) := by
  have rows_fit := fits.rows_fit
  have inside := fits.roomy.inside x_lt (by omega : y < grid.fb.info.height)
  rw [← length_copyWithin fits.copy_lines] at inside
  have unfilled := Raster.pixel_fillFrom ((grid.heightChars - 1) * 16) x_lt inside grid.currentBg
  rw [if_neg (by omega), Raster.pixel_copyWithin fits.copy_lines x_lt, if_pos (by omega)]
    at unfilled
  rw [(by omega : PADDING_Y + 16 + (y - PADDING_Y) = y + 16)] at unfilled
  exact unfilled

/-- The fill begins `PADDING_Y` lines above the last row. -/
theorem pixel_scrolled_filled (x_lt : x < grid.fb.screenWords) (y_lt : y < grid.fb.info.height)
    (below : (grid.heightChars - 1) * 16 ≤ y) :
    (scrolled grid).fb.pixel x y = some grid.currentBg := by
  have inside := fits.roomy.inside x_lt y_lt
  rw [← length_copyWithin fits.copy_lines] at inside
  have filled := Raster.pixel_fillFrom ((grid.heightChars - 1) * 16) x_lt inside grid.currentBg
  rwa [if_pos below] at filled

/-- The last row is shown, for it was filled. -/
theorem showsCell_scrolled_last (blank : BlankSpace fontData) (col_lt : col < grid.widthChars) :
    ShowsCell fontData (scrolled grid) col (grid.heightChars - 1) := by
  have rows_fit := fits.rows_fit
  have some_row := fits.some_row
  refine ⟨grid.blank, cells_scrolled_last fits col_lt, fun x x_lt y y_lt => ?_⟩
  refine ⟨grid.currentBg, glyphColor_blank blank grid y_lt, ?_⟩
  exact pixel_scrolled_filled fits (fits.column_lt col_lt x_lt) (by omega) (by omega)

/-- Above the fill, an area shows what the area below it showed. -/
theorem picture_scrolled (col_lt : col < grid.widthChars) (x_lt : x < 8)
    (above : PADDING_Y + row * 16 + y < (grid.heightChars - 1) * 16) :
    (scrolled grid).picture col row x y = grid.picture col (row + 1) x y := by
  have moved := pixel_scrolled fits (fits.column_lt col_lt x_lt)
    (by omega : PADDING_Y ≤ PADDING_Y + row * 16 + y) above
  rw [TerminalGrid.picture, moved, TerminalGrid.picture]
  congr 1
  omega

/-- The rows above the fill are shown if the rows below them were. -/
theorem showsCell_scrolled (col_lt : col < grid.widthChars) (row_lt : row + 2 < grid.heightChars)
    (shows : ShowsCell fontData grid col (row + 1)) :
    ShowsCell fontData (scrolled grid) col row := by
  obtain ⟨cell, cell_eq, pictured⟩ := shows
  refine ⟨cell, ?_, fun x x_lt y y_lt => ?_⟩
  · rw [← cell_eq]
    exact cells_scrolled fits col_lt (by omega)
  · rw [picture_scrolled fits col_lt x_lt (by unfold PADDING_Y; omega)]
    exact pictured x x_lt y y_lt

/-- In the row above the last, only what was background from the fourth line on is still shown. -/
theorem showsCell_scrolled_above (col_lt : col < grid.widthChars)
    (row_eq : row + 2 = grid.heightChars) (shows : ShowsCell fontData grid col (row + 1)) :
    ShowsCell fontData (scrolled grid) col row ↔
      ∀ cell, grid.cells[(row + 1) * grid.widthChars + col]? = some cell →
        ∀ x < 8, ∀ y < 16, 4 ≤ y → glyphColor fontData cell x y = some grid.currentBg := by
  have rows_fit := fits.rows_fit
  have cells_eq := cells_scrolled fits col_lt (by omega : row + 1 < grid.heightChars)
  have filled : ∀ x < 8, ∀ y < 16, 4 ≤ y →
      (scrolled grid).picture col row x y = some grid.currentBg := by
    intro x x_lt y y_lt erased
    apply pixel_scrolled_filled fits (fits.column_lt col_lt x_lt)
    · omega
    · unfold PADDING_Y
      omega
  constructor
  · rintro ⟨kept, kept_eq, pictured⟩ cell cell_eq x x_lt y y_lt erased
    obtain rfl := Option.some.inj (kept_eq.symm.trans (cells_eq.trans cell_eq))
    obtain ⟨color, glyph_eq, picture_eq⟩ := pictured x x_lt y y_lt
    rw [filled x x_lt y y_lt erased] at picture_eq
    rw [glyph_eq, picture_eq]
  · intro background
    obtain ⟨cell, cell_eq, pictured⟩ := shows
    refine ⟨cell, cells_eq.trans cell_eq, fun x x_lt y y_lt => ?_⟩
    rcases Nat.lt_or_ge y 4 with kept | erased
    · rw [picture_scrolled fits col_lt x_lt (by unfold PADDING_Y; omega)]
      exact pictured x x_lt y y_lt
    · exact ⟨_, background cell cell_eq x x_lt y y_lt erased, filled x x_lt y y_lt erased⟩

end Scrolled

end Terminal
end Vespertine

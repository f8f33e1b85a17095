import Vespertine.Userland.TerminalPicture

/-!
# What the screen shows

The cells and the pixels change in different code.  Each callback comes down to a character drawn, a
line fed, or a step that leaves what is shown.  The screen goes on to show the grid as long as every
character has a glyph and no scroll erases a part of one, and no longer.
-/

namespace Vespertine
namespace Terminal

variable {fontData : List (BitVec 8)} {grid before after : TerminalGrid} {col row : Nat}

/-!
### When the screen stays right
-/

/-- From the fourth line on, the last row is to show the background. -/
def LastRowClear (fontData : List (BitVec 8)) (grid : TerminalGrid) : Prop :=
  ∀ col < grid.widthChars, ∀ cell,
    grid.cells[(grid.heightChars - 1) * grid.widthChars + col]? = some cell →
      ∀ x < 8, ∀ y < 16, 4 ≤ y → glyphColor fontData cell x y = some grid.currentBg

/-- A line feed does not scroll, or there is no row above the last, or the scroll erases nothing
in it. -/
def ScrollsClean (fontData : List (BitVec 8)) (grid : TerminalGrid) : Prop :=
  grid.cursorY + 1 < grid.heightChars ∨ grid.heightChars = 1 ∨ LastRowClear fontData grid

/-- A printed character has its bytes in the font, and where a callback feeds a line, that is
clean. -/
def Harmless (fontData : List (BitVec 8)) (grid : TerminalGrid) : Callback → Prop
  | .print c =>
      HasGlyph fontData c ∧ (grid.widthChars ≤ grid.cursorX → ScrollsClean fontData grid)
  | .execute byte => byte = 0x0a → ScrollsClean fontData grid
  | .csiDispatch _ _ _ action => action = 'N' → 0 < grid.cursorX → ScrollsClean fontData grid

/-- The terminal, with harmless callbacks permitted. -/
def machine (fontData : List (BitVec 8)) : Machine TerminalGrid Callback Fault :=
  ⟨step fontData, Harmless fontData⟩

/-- The grid fits, and the cursor is in it or behind the end of a row. -/
structure Placed (grid : TerminalGrid) : Prop where
  fits : Fits grid
  cursor_y : grid.cursorY < grid.heightChars
  cursor_x : grid.cursorX ≤ grid.widthChars

/-- The grid after `newline`. -/
def lineFed (grid : TerminalGrid) : TerminalGrid :=
  if grid.cursorY + 1 < grid.heightChars then
    { grid with cursorY := grid.cursorY + 1 }
  else
    scrolled grid

@[simp] theorem lineFed_widthChars (grid : TerminalGrid) :
    (lineFed grid).widthChars = grid.widthChars := by
  rw [lineFed]
  split <;> rfl

@[simp] theorem lineFed_heightChars (grid : TerminalGrid) :
    (lineFed grid).heightChars = grid.heightChars := by
  rw [lineFed]
  split <;> rfl

@[simp] theorem lineFed_cursorX (grid : TerminalGrid) :
    (lineFed grid).cursorX = grid.cursorX := by
  rw [lineFed]
  split <;> rfl

section LineFeed

variable (placed : Placed grid)
include placed

theorem newline_eq : grid.newline = .ok (lineFed grid) := by
  rw [TerminalGrid.newline, lineFed]
  split
  next room => rw [if_pos (by omega)]
  next full => rw [if_neg (by omega), scroll_eq placed.fits]

theorem placed_lineFed : Placed (lineFed grid) := by
  rw [lineFed]
  split
  next room => exact ⟨placed.fits.congr rfl rfl rfl rfl rfl, room, placed.cursor_x⟩
  next => exact ⟨fits_scrolled placed.fits, placed.cursor_y, placed.cursor_x⟩

/-- What a clean line feed leaves is shown. -/
theorem showsCell_lineFed (blank : BlankSpace fontData) (clean : ScrollsClean fontData grid)
    (shows : ∀ col < grid.widthChars, ∀ row < grid.heightChars, ShowsCell fontData grid col row)
    (col_lt : col < grid.widthChars) (row_lt : row < grid.heightChars) :
    ShowsCell fontData (lineFed grid) col row := by
  rw [lineFed]
  split
  next => exact shows col col_lt row row_lt
  next full =>
    rcases (by omega : row + 2 < grid.heightChars ∨ row + 2 = grid.heightChars ∨
      row = grid.heightChars - 1) with upper | above | rfl
    · exact showsCell_scrolled placed.fits col_lt upper (shows col col_lt _ (by omega))
    · rw [showsCell_scrolled_above placed.fits col_lt above (shows col col_lt _ (by omega))]
      have clear : LastRowClear fontData grid := by
        rcases clean with room | one | clear
        · exact absurd room full
        · omega
        · exact clear
      have last_eq : row + 1 = grid.heightChars - 1 := by omega
      rw [last_eq]
      exact clear col col_lt
    · exact showsCell_scrolled_last placed.fits blank col_lt

/-- What another line feed leaves is not all shown; and it is not the row of the cursor. -/
theorem not_showsCell_lineFed (unclean : ¬ ScrollsClean fontData grid)
    (shows : ∀ col < grid.widthChars, ∀ row < grid.heightChars, ShowsCell fontData grid col row) :
    ∃ col < grid.widthChars, ∃ row < grid.heightChars, row ≠ (lineFed grid).cursorY ∧
      ¬ ShowsCell fontData (lineFed grid) col row := by
  obtain ⟨full, unclear⟩ := not_or.mp unclean
  obtain ⟨not_one, unclear⟩ := not_or.mp unclear
  have cursor_y := placed.cursor_y
  have above : grid.heightChars - 2 + 2 = grid.heightChars := by omega
  have last_eq : grid.heightChars - 2 + 1 = grid.heightChars - 1 := by omega
  rw [lineFed, if_neg full]
  by_contra all_shown
  apply unclear
  intro col col_lt
  rw [← last_eq]
  apply (showsCell_scrolled_above placed.fits col_lt above (shows col col_lt _ (by omega))).mp
  by_contra hidden
  refine all_shown ⟨col, col_lt, grid.heightChars - 2, by omega, ?_, hidden⟩
  change grid.heightChars - 2 ≠ grid.cursorY
  omega

theorem nextLine_eq : grid.nextLine = .ok { lineFed grid with cursorX := 0 } :=
  bind_eq_ok.mpr ⟨_, newline_eq placed, rfl⟩

theorem nextLine_iff (blank : BlankSpace fontData) (shown : Shown fontData grid) :
    (∃ next, grid.nextLine = .ok next ∧ Shown fontData next) ↔ ScrollsClean fontData grid := by
  constructor
  · rintro ⟨next, next_eq, next_shown⟩
    obtain rfl := Except.ok.inj ((nextLine_eq placed).symm.trans next_eq)
    by_contra unclean
    obtain ⟨col, col_lt, row, row_lt, -, hidden⟩ :=
      not_showsCell_lineFed placed unclean shown.shows
    apply hidden
    exact next_shown.shows col (by simpa using col_lt) row (by simpa using row_lt)
  · intro clean
    refine ⟨_, nextLine_eq placed, (placed_lineFed placed).cursor_y, Nat.zero_le _, ?_⟩
    intro col col_lt row row_lt
    apply showsCell_lineFed placed blank clean shown.shows
    · simpa using col_lt
    · simpa using row_lt

end LineFeed

/-!
### The callbacks
-/

/-- What `print` draws on. -/
def wrapped (grid : TerminalGrid) : TerminalGrid :=
  if grid.widthChars ≤ grid.cursorX then lineFed { grid with cursorX := 0 } else grid

/-- Before the end of a row the cursor may be put anywhere. -/
theorem Placed.column (placed : Placed grid) {cursorX : Nat}
    (cursor_x : cursorX ≤ grid.widthChars) : Placed { grid with cursorX } :=
  ⟨placed.fits.congr rfl rfl rfl rfl rfl, placed.cursor_y, cursor_x⟩

theorem wrap_eq (placed : Placed grid) : wrap grid = .ok (wrapped grid) := by
  rw [wrap, wrapped]
  split
  next => exact newline_eq (placed.column (Nat.zero_le _))
  next => rfl

theorem placed_wrapped (placed : Placed grid) :
    Placed (wrapped grid) ∧ (wrapped grid).cursorX < (wrapped grid).widthChars := by
  rw [wrapped]
  split
  next =>
    refine ⟨placed_lineFed (placed.column (Nat.zero_le _)), ?_⟩
    simpa using placed.fits.some_column
  next before => exact ⟨placed, Nat.not_le.mp before⟩

theorem showsCell_wrapped (blank : BlankSpace fontData) (placed : Placed grid)
    (shown : Shown fontData grid)
    (clean : grid.widthChars ≤ grid.cursorX → ScrollsClean fontData grid) :
    ∀ col < (wrapped grid).widthChars, ∀ row < (wrapped grid).heightChars,
      ShowsCell fontData (wrapped grid) col row := by
  rw [wrapped]
  split
  next behind =>
    intro col col_lt row row_lt
    apply showsCell_lineFed (placed.column (Nat.zero_le _)) blank (clean behind) shown.shows
    · simpa using col_lt
    · simpa using row_lt
  next => exact shown.shows

theorem not_showsCell_wrapped (placed : Placed grid) (shown : Shown fontData grid)
    (behind : grid.widthChars ≤ grid.cursorX) (unclean : ¬ ScrollsClean fontData grid) :
    ∃ col < (wrapped grid).widthChars, ∃ row < (wrapped grid).heightChars,
      row ≠ (wrapped grid).cursorY ∧ ¬ ShowsCell fontData (wrapped grid) col row := by
  rw [wrapped, if_pos behind, lineFed_widthChars, lineFed_heightChars]
  exact not_showsCell_lineFed (placed.column (Nat.zero_le _)) unclean shown.shows

/-- A `print` that returns has drawn the character at the cursor. -/
theorem drawn_of_print {c : Char} (placed : Placed grid)
    (print_eq : grid.print fontData c = .ok after) :
    HasGlyph fontData c ∧ ∃ drawn, Redrawn fontData (wrapped grid) drawn (wrapped grid).cursorX
      (wrapped grid).cursorY ((wrapped grid).colored c) ∧
        after = { drawn with cursorX := drawn.cursorX + 1 } := by
  obtain ⟨⟨fits, cursor_y, -⟩, col_lt⟩ := placed_wrapped placed
  obtain ⟨start, drawn, start_eq, put_eq, after_eq⟩ := print_eq_ok.mp print_eq
  obtain rfl := Except.ok.inj ((wrap_eq placed).symm.trans start_eq)
  have hasGlyph := hasGlyph_of_put fits col_lt cursor_y put_eq
  obtain ⟨other, other_eq, redrawn⟩ := put_spec fits col_lt cursor_y hasGlyph
  obtain rfl := Except.ok.inj (put_eq.symm.trans other_eq)
  exact ⟨hasGlyph, drawn, redrawn, after_eq⟩

theorem print_iff {c : Char} (blank : BlankSpace fontData) (placed : Placed grid)
    (shown : Shown fontData grid) :
    (∃ next, grid.print fontData c = .ok next ∧ Shown fontData next) ↔
      HasGlyph fontData c ∧ (grid.widthChars ≤ grid.cursorX → ScrollsClean fontData grid) := by
  obtain ⟨⟨fits, cursor_y, -⟩, col_lt⟩ := placed_wrapped placed
  constructor
  · rintro ⟨next, next_eq, next_shown⟩
    obtain ⟨hasGlyph, drawn, redrawn, rfl⟩ := drawn_of_print placed next_eq
    refine ⟨hasGlyph, fun behind => ?_⟩
    by_contra unclean
    obtain ⟨col, other_lt, row, row_lt, ne, hidden⟩ :=
      not_showsCell_wrapped placed shown behind unclean
    apply hidden
    rw [← redrawn.showsCell_iff fits col_lt other_lt (.inr ne)]
    apply next_shown.shows
    · simpa [redrawn.widthChars_eq] using other_lt
    · simpa [redrawn.heightChars_eq] using row_lt
  · rintro ⟨hasGlyph, clean⟩
    obtain ⟨drawn, put_eq, redrawn⟩ := put_spec fits col_lt cursor_y hasGlyph
    refine ⟨_, print_eq_ok.mpr ⟨_, drawn, wrap_eq placed, put_eq, rfl⟩, ?_, ?_, ?_⟩
    · simpa [redrawn.cursorY_eq, redrawn.heightChars_eq] using cursor_y
    · simpa [redrawn.cursorX_eq, redrawn.widthChars_eq] using Nat.succ_le_of_lt col_lt
    · exact redrawn.shows_all fits col_lt (showsCell_wrapped blank placed shown clean)

theorem placed_print {c : Char} (placed : Placed grid)
    (print_eq : grid.print fontData c = .ok after) : Placed after := by
  obtain ⟨⟨fits, cursor_y, -⟩, col_lt⟩ := placed_wrapped placed
  obtain ⟨-, drawn, redrawn, rfl⟩ := drawn_of_print placed print_eq
  refine ⟨(redrawn.fits fits).congr rfl rfl rfl rfl rfl, ?_, ?_⟩
  · simpa [redrawn.cursorY_eq, redrawn.heightChars_eq] using cursor_y
  · simpa [redrawn.cursorX_eq, redrawn.widthChars_eq] using Nat.succ_le_of_lt col_lt

/-- The cell before the cursor is cleared by a backspace. -/
theorem backspace (blank : BlankSpace fontData) (placed : Placed grid)
    (some_column : 0 < grid.cursorX) :
    ∃ after, TerminalGrid.clearCell { grid with cursorX := grid.cursorX - 1 } (grid.cursorX - 1)
        grid.cursorY = .ok after ∧
      Placed after ∧ (Shown fontData grid → Shown fontData after) := by
  have cursor_x := placed.cursor_x
  have moved := placed.column (by omega : grid.cursorX - 1 ≤ grid.widthChars)
  have col_lt : grid.cursorX - 1 < grid.widthChars := by omega
  obtain ⟨after, after_eq, redrawn⟩ := clearCell_spec blank moved.fits col_lt moved.cursor_y
  have cursor_y' : after.cursorY < after.heightChars := by
    simpa [redrawn.cursorY_eq, redrawn.heightChars_eq] using moved.cursor_y
  have cursor_x' : after.cursorX ≤ after.widthChars := by
    simpa [redrawn.cursorX_eq, redrawn.widthChars_eq] using moved.cursor_x
  refine ⟨after, after_eq, ⟨redrawn.fits moved.fits, cursor_y', cursor_x'⟩, fun shown => ?_⟩
  exact ⟨cursor_y', cursor_x', redrawn.shows_all moved.fits col_lt shown.shows⟩

/-- Only the colours to come and the replies have changed. -/
def SameScreen (before after : TerminalGrid) : Prop :=
  ∃ currentFg currentBg replies, after = { before with currentFg, currentBg, replies }

namespace SameScreen

theorem refl (grid : TerminalGrid) : SameScreen grid grid := ⟨_, _, _, rfl⟩

theorem placed (same : SameScreen before after) (placed : Placed before) : Placed after := by
  obtain ⟨currentFg, currentBg, replies, rfl⟩ := same
  exact ⟨placed.fits.congr rfl rfl rfl rfl rfl, placed.cursor_y, placed.cursor_x⟩

theorem shown (same : SameScreen before after) (shown : Shown fontData before) :
    Shown fontData after := by
  obtain ⟨currentFg, currentBg, replies, rfl⟩ := same
  exact ⟨shown.cursor_y, shown.cursor_x, shown.shows⟩

/-- Parameter after parameter. -/
theorem foldl {change : TerminalGrid → List Nat → TerminalGrid}
    (same : ∀ grid param, SameScreen grid (change grid param)) (params : List (List Nat))
    (grid : TerminalGrid) : SameScreen grid (params.foldl change grid) := by
  induction params generalizing grid with
  | nil => exact refl grid
  | cons param params ih =>
      obtain ⟨currentFg, currentBg, replies, later⟩ := ih (change grid param)
      obtain ⟨_, _, _, first⟩ := same grid param
      refine ⟨currentFg, currentBg, replies, ?_⟩
      rw [List.foldl_cons, later, first]

end SameScreen

theorem sameScreen_selectColor (grid : TerminalGrid) (param : List Nat) :
    SameScreen grid (grid.selectColor param) := by
  unfold TerminalGrid.selectColor
  split
  · split_ifs <;> exact ⟨_, _, _, rfl⟩
  · exact .refl grid

theorem sameScreen_report (grid : TerminalGrid) (param : List Nat) :
    SameScreen grid (grid.report param) := by
  unfold TerminalGrid.report
  split_ifs
  · exact ⟨_, _, _, rfl⟩
  · exact .refl grid

section Clear

variable (fits : Fits grid)
include fits

theorem placed_clearScreen : Placed grid.clearScreen where
  fits := fits.congr rfl rfl (length_fillFrom _ _) rfl (length_fillFrom _ _)
  cursor_y := fits.some_row
  cursor_x := Nat.zero_le _

theorem shown_clearScreen (blank : BlankSpace fontData) : Shown fontData grid.clearScreen where
  cursor_y := fits.some_row
  cursor_x := Nat.zero_le _
  shows := by
    intro col (col_lt : col < grid.widthChars) row (row_lt : row < grid.heightChars)
    have rows_fit := fits.rows_fit
    have index_lt := fits.index_lt col_lt row_lt
    refine ⟨grid.blank, ?_, fun x x_lt y y_lt => ?_⟩
    · exact (getElem?_fillFrom _ _ 0).trans (if_pos ⟨Nat.zero_le _, index_lt⟩)
    · refine ⟨grid.currentBg, glyphColor_blank blank grid y_lt, ?_⟩
      have place_lt := fits.roomy.inside (fits.column_lt col_lt x_lt)
        (by omega : PADDING_Y + row * 16 + y < grid.fb.info.height)
      exact (getElem?_fillFrom _ _ 0).trans (if_pos ⟨Nat.zero_le _, place_lt⟩)

end Clear

/-- The callback returns, and what was shown still is. -/
def Kept (fontData : List (BitVec 8)) (grid : TerminalGrid)
    (outcome : Except Fault TerminalGrid) : Prop :=
  ∃ after, outcome = .ok after ∧ Placed after ∧ (Shown fontData grid → Shown fontData after)

theorem SameScreen.kept (same : SameScreen grid after) (placed : Placed grid) :
    Kept fontData grid (.ok after) :=
  ⟨after, rfl, same.placed placed, same.shown⟩

/-- What a callback comes down to. -/
inductive Effect (fontData : List (BitVec 8)) (grid : TerminalGrid) : Callback → Prop where
  | draws (c : Char) : Effect fontData grid (.print c)
  | feeds {callback : Callback} (step_eq : step fontData grid callback = grid.nextLine)
      (harmless_iff : Harmless fontData grid callback ↔ ScrollsClean fontData grid) :
      Effect fontData grid callback
  | keeps {callback : Callback} (kept : Kept fontData grid (step fontData grid callback))
      (harmless : Harmless fontData grid callback) : Effect fontData grid callback

theorem execute_effect (blank : BlankSpace fontData) (placed : Placed grid) (byte : UInt8) :
    Effect fontData grid (.execute byte) := by
  by_cases feed : byte = 0x0a
  · exact .feeds (if_pos feed) ⟨fun harmless => harmless feed, fun clean _ => clean⟩
  · refine .keeps ?_ fun eq => absurd eq feed
    change Kept fontData grid (grid.execute byte)
    rw [TerminalGrid.execute, if_neg feed]
    split_ifs with carriage back some_column
    · exact ⟨_, rfl, placed.column (Nat.zero_le _),
        fun shown => ⟨shown.cursor_y, Nat.zero_le _, shown.shows⟩⟩
    · exact backspace blank placed some_column
    · exact (SameScreen.refl grid).kept placed
    · exact (SameScreen.refl grid).kept placed

theorem csiDispatch_effect (blank : BlankSpace fontData) (placed : Placed grid)
    (params : List (List Nat)) (intermediates : List UInt8) (ignored : Bool) (action : Char) :
    Effect fontData grid (.csiDispatch params intermediates ignored action) := by
  by_cases feed : action = 'N' ∧ 0 < grid.cursorX
  · obtain ⟨rfl, some_column⟩ := feed
    exact .feeds (if_pos some_column)
      ⟨fun harmless => harmless rfl some_column, fun clean _ _ => clean⟩
  · refine .keeps ?_ fun action_eq some_column => absurd ⟨action_eq, some_column⟩ feed
    change Kept fontData grid (grid.csiDispatch params action)
    unfold TerminalGrid.csiDispatch
    split
    · exact (SameScreen.foldl sameScreen_selectColor params grid).kept placed
    · exact ⟨_, rfl, placed_clearScreen placed.fits, fun _ => shown_clearScreen placed.fits blank⟩
    · rw [if_neg fun some_column => feed ⟨rfl, some_column⟩]
      exact (SameScreen.refl grid).kept placed
    · exact (SameScreen.foldl sameScreen_report params grid).kept placed
    · exact (SameScreen.refl grid).kept placed

theorem effect (blank : BlankSpace fontData) (placed : Placed grid) (callback : Callback) :
    Effect fontData grid callback := by
  cases callback with
  | print c => exact .draws c
  | execute byte => exact execute_effect blank placed byte
  | csiDispatch params intermediates ignored action =>
      exact csiDispatch_effect blank placed params intermediates ignored action

/-- A callback that returns leaves a grid that fits, with its cursor in place. -/
theorem placed_step (blank : BlankSpace fontData) (placed : Placed grid) {callback : Callback}
    (step_eq : (machine fontData).step grid callback = .ok after) : Placed after := by
  cases effect blank placed callback with
  | draws c => exact placed_print placed step_eq
  | feeds feeds_eq =>
      obtain rfl := Except.ok.inj ((nextLine_eq placed).symm.trans (feeds_eq.symm.trans step_eq))
      exact (placed_lineFed placed).column (Nat.zero_le _)
  | keeps kept =>
      obtain ⟨next, next_eq, next_placed, -⟩ := kept
      obtain rfl := Except.ok.inj (next_eq.symm.trans step_eq)
      exact next_placed

/-- From a grid that is shown, a callback returns one that is exactly if it is harmless. -/
theorem step_iff (blank : BlankSpace fontData) (placed : Placed grid)
    (shown : Shown fontData grid) (callback : Callback) :
    (∃ next, step fontData grid callback = .ok next ∧ Shown fontData next) ↔
      Harmless fontData grid callback := by
  cases effect blank placed callback with
  | draws c => exact print_iff blank placed shown
  | feeds step_eq harmless_iff =>
      rw [step_eq, harmless_iff]
      exact nextLine_iff placed blank shown
  | keeps kept harmless =>
      obtain ⟨next, next_eq, -, next_shown⟩ := kept
      exact iff_of_true ⟨next, next_eq, next_shown shown⟩ harmless

/-- From a cleared screen, the callbacks all return and the screen shows the grid after each of them
exactly if each is harmless where it comes. -/
theorem screen_shows_grid_iff (blank : BlankSpace fontData) (fits : Fits grid)
    (callbacks : List Callback) :
    ((∃ final, (machine fontData).run grid.clearScreen callbacks = .ok final) ∧
      (machine fontData).Always (Shown fontData) grid.clearScreen callbacks) ↔
      (machine fontData).Permits grid.clearScreen callbacks :=
  (machine fontData).returns_always_iff_permits
    (fun _ _ _ placed step_eq => placed_step blank placed step_eq)
    (fun _ callback placed shown => step_iff blank placed shown callback)
    (placed_clearScreen fits) (shown_clearScreen fits blank)

/-- A font of the length of the one that is built in, with its `A`; the space is empty there too. -/
def letterFont : List (BitVec 8) :=
  List.replicate (glyphOffset 'A') 0 ++
    ([0x00, 0x00, 0x00, 0x18, 0x24, 0x24, 0x42, 0x42, 0x7e, 0x42, 0x42, 0x42, 0x42, 0x00, 0x00,
      0x00] ++ List.replicate 9574 0)

/-- One column and two rows on a screen of 32 by 56 pixels. -/
def smallGrid : TerminalGrid :=
  ⟨1, 2, 0, 0, 0xe0ddd8, 0x11080d, List.replicate 2 ⟨' ', 0xe0ddd8, 0x11080d⟩,
    ⟨⟨32, 56, 128⟩, List.replicate 1792 0⟩, []⟩

theorem fits_smallGrid : Fits smallGrid where
  some_column := by decide
  some_row := by decide
  cells_length := rfl
  columns_fit := by decide
  rows_fit := by decide
  line := by decide
  mapped := List.length_replicate

theorem blankSpace_letterFont : BlankSpace letterFont := by
  unfold BlankSpace
  decide +kernel

theorem length_letterFont : letterFont.length = 10634 := by
  rw [letterFont, List.length_append, List.length_append, List.length_replicate,
    List.length_replicate]
  rfl

/-- A line feed, and a letter in the last row. -/
theorem screen_shows_grid_iff_letter :
    (∃ final, (machine letterFont).run smallGrid.clearScreen [.execute 0x0a, .print 'A'] =
        .ok final) ∧
      (machine letterFont).Always (Shown letterFont) smallGrid.clearScreen
        [.execute 0x0a, .print 'A'] := by
  rw [screen_shows_grid_iff blankSpace_letterFont fits_smallGrid]
  refine (machine letterFont).permits_cons (fun _ => .inl (by decide)) rfl ?_
  refine ⟨⟨?_, fun behind => ?_⟩, fun _ _ => trivial⟩
  · rw [HasGlyph, length_letterFont]
    decide
  · exact absurd behind (by decide)

/-- A harmless callback that returns leaves a screen that is shown. -/
theorem shown_step (blank : BlankSpace fontData) (placed : Placed grid)
    (shown : Shown fontData grid) {callback : Callback}
    (harmless : Harmless fontData grid callback)
    (step_eq : (machine fontData).step grid callback = .ok after) : Shown fontData after := by
  obtain ⟨next, next_eq, next_shown⟩ := (step_iff blank placed shown callback).mpr harmless
  obtain rfl := Except.ok.inj (next_eq.symm.trans step_eq)
  exact next_shown

/-- The cursor in the second row of a cleared screen. -/
def secondRow : TerminalGrid := { smallGrid.clearScreen with cursorY := 1 }

/-- The letter is in the last row of the grid and on the screen. -/
theorem letter_in_last_row : ∃ grid,
    (machine letterFont).run smallGrid.clearScreen [.execute 0x0a, .print 'A'] = .ok grid ∧
      Placed grid ∧ Shown letterFont grid ∧ ¬ ScrollsClean letterFont grid := by
  have cleared := placed_clearScreen fits_smallGrid
  have cleared_shown := shown_clearScreen fits_smallGrid blankSpace_letterFont
  have fed : (machine letterFont).step smallGrid.clearScreen (.execute 0x0a) = .ok secondRow := rfl
  have clean : Harmless letterFont smallGrid.clearScreen (.execute 0x0a) :=
    fun _ => .inl (by decide)
  have placed := placed_step blankSpace_letterFont cleared fed
  have shown := shown_step blankSpace_letterFont cleared cleared_shown clean fed
  have hasGlyph : HasGlyph letterFont 'A' := by
    rw [HasGlyph, length_letterFont]
    decide
  have before_end : ¬ secondRow.widthChars ≤ secondRow.cursorX := by decide
  obtain ⟨drawn, put_eq, redrawn⟩ :=
    put_spec placed.fits (Nat.not_le.mp before_end) placed.cursor_y hasGlyph
  have printed : (machine letterFont).step secondRow (.print 'A') =
      .ok { drawn with cursorX := drawn.cursorX + 1 } :=
    print_eq_ok.mpr ⟨secondRow, drawn, if_neg before_end, put_eq, rfl⟩
  have harmless : Harmless letterFont secondRow (.print 'A') :=
    ⟨hasGlyph, fun behind => absurd behind before_end⟩
  refine ⟨_, ((machine letterFont).run_cons_ok _ fed).trans
    ((machine letterFont).run_cons_ok [] printed), placed_step blankSpace_letterFont placed printed,
    shown_step blankSpace_letterFont placed shown harmless printed, ?_⟩
  rw [redrawn.after_eq]
  rintro (room | one | clear)
  · exact Nat.lt_irrefl 2 room
  · exact absurd one (by decide : ¬ 2 = 1)
  · have background := clear 0 Nat.one_pos (smallGrid.colored 'A') rfl 1 (by decide) 6 (by decide)
      (by decide)
    exact absurd background (by decide +kernel : ¬ glyphColor letterFont (smallGrid.colored 'A') 1 6
      = some 0x11080d)

/-- The second line feed scrolls: the letter goes to the first row and loses all but its head.  And
a character without bytes in the font is not drawn at all. -/
theorem scroll_erases_letter :
    (∃ final, (machine letterFont).run smallGrid.clearScreen
        [.execute 0x0a, .print 'A', .execute 0x0a] = .ok final ∧ ¬ Shown letterFont final) ∧
      ∀ final, (machine letterFont).run smallGrid.clearScreen [.print (Char.ofNat 664)] ≠
        .ok final := by
  constructor
  · obtain ⟨grid, run_eq, placed, shown, unclean⟩ := letter_in_last_row
    have fed : (machine letterFont).step grid (.execute 0x0a) = .ok _ := nextLine_eq placed
    have whole_eq := (machine letterFont).run_append_ok [.execute 0x0a] run_eq
    refine ⟨_, whole_eq.trans ((machine letterFont).run_cons_ok [] fed), fun final_shown => ?_⟩
    exact unclean ((nextLine_iff placed blankSpace_letterFont shown).mp
      ⟨_, nextLine_eq placed, final_shown⟩)
  · intro final run_eq
    obtain ⟨next, print_eq, -⟩ := (machine letterFont).run_cons_eq_ok run_eq
    have hasGlyph := (drawn_of_print (placed_clearScreen fits_smallGrid) print_eq).1
    rw [HasGlyph, length_letterFont] at hasGlyph
    exact absurd hasGlyph (by decide)

end Terminal
end Vespertine

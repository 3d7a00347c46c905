import EmbBoard.Support.Canvas
import Mathlib.Data.BitVec

/-!
# Windows of the graphics library

A window is a rectangle of the display with a border; what is drawn goes into
the frame buffer, whose cells are numbered from its address on.  Coordinates
are integers.  They agree with the 32 bits of `INT_32` for coordinates of
sixteen bits on displays of up to 1024 by 1024 pixels, where the largest values,
the differences of coordinates scaled by the size of the display, stay below
2 ^ 27.  A division by zero has no result.
-/

namespace EmbBoard.Swim

open Canvas

/-- `COLOR_T` -/
abbrev Color := BitVec 16

/-- The frame buffer, from its address on. -/
abbrev FrameBuffer := ℤ → Color

/-- `FONT_T`.  The tables are memory, which can be read anywhere. -/
structure Font where
  fontHeight : BitVec 16
  firstChar : BitVec 8
  lastChar : BitVec 8
  fontTable : ℤ → BitVec 16
  fontWidthTable : ℤ → BitVec 8

/-- `SWIM_WINDOW_T`, without its frame buffer. -/
structure Window where
  xpsize : ℤ
  ypsize : ℤ
  xpmin : ℤ
  ypmin : ℤ
  xpmax : ℤ
  ypmax : ℤ
  xvsize : ℤ
  yvsize : ℤ
  xpvmin : ℤ
  ypvmin : ℤ
  xpvmax : ℤ
  ypvmax : ℤ
  xvpos : ℤ
  yvpos : ℤ
  pen : Color
  bkg : Color
  fill : Color
  font : Font
  tfont : Bool

/-- `*(win->fb + x + (y * win->xpsize)) = c` -/
def Window.put (w : Window) (x y : ℤ) (c : Color) (fb : FrameBuffer) :
    FrameBuffer :=
  Function.update fb (x + y * w.xpsize) c

/-! ## Lines -/

/-- The loop of a line with the resolution raised to the size of the display:
one pass for each pixel of the longer side, and none from the first pixel on
that is not inside. -/
def lineLoop (w : Window) (inside : ℤ → ℤ → Bool) (xinc yinc : ℤ) :
    ℕ → ℤ → ℤ → FrameBuffer → FrameBuffer
  | 0, _, _, fb => fb
  | n + 1, x1, y1, fb =>
      let xv := x1.tdiv w.xpsize
      let yv := y1.tdiv w.ypsize
      if inside xv yv then
        lineLoop w inside xinc yinc n (x1 + xinc) (y1 + yinc)
          (w.put xv yv w.pen fb)
      else fb

/-- A line to the right and down, along its longer side. -/
def traceLine (w : Window) (inside : ℤ → ℤ → Bool) (x1 y1 x2 y2 : ℤ)
    (fb : FrameBuffer) : Option FrameBuffer :=
  let xinc := x2 - x1
  let yinc := y2 - y1
  if w.xpsize = 0 ∨ w.ypsize = 0 ∨ (xinc ≤ yinc ∧ yinc = 0) then none
  else if xinc > yinc then
    some (lineLoop w inside w.xpsize ((w.ypsize * yinc).tdiv xinc)
      (x2 - x1 + 1).toNat (x1 * w.xpsize) (y1 * w.ypsize) fb)
  else
    some (lineLoop w inside ((w.xpsize * xinc).tdiv yinc) w.ypsize
      (y2 - y1 + 1).toNat (x1 * w.xpsize) (y1 * w.ypsize) fb)

/-- The physical display. -/
def Window.onDisplay (w : Window) (xv yv : ℤ) : Bool :=
  0 ≤ xv && 0 ≤ yv && xv ≤ w.xpsize - 1 && yv ≤ w.ypsize - 1

/-- The draw area. -/
def Window.inArea (w : Window) (xv yv : ℤ) : Bool :=
  w.xpvmin ≤ xv && w.ypvmin ≤ yv && xv ≤ w.xpvmax && yv ≤ w.ypvmax

/-- `swim_put_line_raw`.  The smaller coordinates become the start, so that
every line runs to the right and down. -/
def putLineRaw (w : Window) (x1 y1 x2 y2 : ℤ) (fb : FrameBuffer) :
    Option FrameBuffer :=
  let (x1, x2) := if x1 > x2 then (x2, x1) else (x1, x2)
  let (y1, y2) := if y1 > y2 then (y2, y1) else (y1, y2)
  traceLine w w.onDisplay x1 y1 x2 y2 fb

/-- The four lines of a box, or of one ring of a border. -/
def putEdges (w : Window) (x1 y1 x2 y2 : ℤ) (fb : FrameBuffer) :
    Option FrameBuffer := do
  let fb ← putLineRaw w x1 y1 x2 y1 fb
  let fb ← putLineRaw w x2 y1 x2 y2 fb
  let fb ← putLineRaw w x2 y2 x1 y2 fb
  putLineRaw w x1 y2 x1 y1 fb

/-- `swim_put_line` -/
def putLine (w : Window) (x1 y1 x2 y2 : ℤ) (fb : FrameBuffer) :
    Option FrameBuffer :=
  let (x1, x2) := if x1 > x2 then (x2, x1) else (x1, x2)
  let (y1, y2) := if y1 > y2 then (y2, y1) else (y1, y2)
  let x1 := x1 + w.xpvmin
  let x2 := x2 + w.xpvmin
  let y1 := y1 + w.ypvmin
  let y2 := y2 + w.ypvmin
  if x2 - x1 = 0 ∧ y2 - y1 = 0 then some (w.put x1 y1 w.pen fb)
  else traceLine w w.inArea x1 y1 x2 y2 fb

/-! ## Pixels, areas and boxes -/

/-- `swim_put_pixel`.  The physical position has sixteen bits. -/
def putPixel (w : Window) (x1 y1 : ℤ) (fb : FrameBuffer) : FrameBuffer :=
  let realx := (BitVec.ofInt 16 (w.xpvmin + x1)).toInt
  let realy := (BitVec.ofInt 16 (w.ypvmin + y1)).toInt
  if realx ≤ w.xpvmax ∧ realy ≤ w.ypvmax then w.put realx realy w.pen fb
  else fb

/-- `swim_clear_screen` -/
def clearScreen (w : Window) (colr : Color) (fb : FrameBuffer) : FrameBuffer :=
  forUp (fun y => forUp (fun x => w.put x y colr) w.xpvmin w.xpvmax)
    w.ypvmin w.ypvmax fb

/-- `swim_put_box` -/
def putBox (w : Window) (x1 y1 x2 y2 : ℤ) (fb : FrameBuffer) :
    Option FrameBuffer := do
  let (x1, x2) := if x1 > x2 then (x2, x1) else (x1, x2)
  let (y1, y2) := if y1 > y2 then (y2, y1) else (y1, y2)
  let x1 := x1 + w.xpvmin
  let x2 := x2 + w.xpvmin
  let y1 := y1 + w.ypvmin
  let y2 := y2 + w.ypvmin
  let x1 := if x1 < w.xpvmin then w.xpvmin else x1
  let y1 := if y1 < w.ypvmin then w.ypvmin else y1
  let x2 := if x2 > w.xpvmax then w.xpvmax else x2
  let y2 := if y2 > w.ypvmax then w.ypvmax else y2
  let fb ← putEdges w x1 y1 x2 y2 fb
  return forUp (fun x => forUp (fun y => w.put x y w.fill) (y1 + 1) (y2 - 1))
    (x1 + 1) (x2 - 1) fb

/-! ## Opening a window -/

/-- The sizes and colours that `swim_window_open_p` stores first. -/
def Window.sized (w : Window)
    (xsize ysize xwinMin ywinMin xwinMax ywinMax borderWidth : ℤ)
    (pcolor bkcolor fcolor : Color) : Window :=
  { w with
    xpsize := xsize, ypsize := ysize
    xpmin := xwinMin, ypmin := ywinMin, xpmax := xwinMax, ypmax := ywinMax
    pen := pcolor, bkg := bkcolor, fill := fcolor
    xpvmin := xwinMin + borderWidth, ypvmin := ywinMin + borderWidth
    xpvmax := xwinMax - borderWidth, ypvmax := ywinMax - borderWidth
    xvsize := xwinMax - xwinMin - 2 * borderWidth
    yvsize := ywinMax - ywinMin - 2 * borderWidth }

/-- The font and the position that it stores last. -/
def Window.started (w : Window) (font : Font) : Window :=
  { w with font := font, xvpos := w.xpvmin, yvpos := w.ypvmin }

/-- `swim_window_open_p`, with the tables of the default font.  When it fails
the window is as it was. -/
def windowOpenP (w : Window) (fontHelvr10 : Font)
    (xsize ysize xwinMin ywinMin xwinMax ywinMax borderWidth : ℤ)
    (pcolor bkcolor fcolor : Color) (clear : Bool) (fb : FrameBuffer) :
    Option (Bool × Window × FrameBuffer) :=
  if 0 ≤ xwinMin ∧ 0 ≤ ywinMin ∧ xwinMax < xsize ∧ ywinMax < ysize then
    let w := w.sized xsize ysize xwinMin ywinMin xwinMax ywinMax borderWidth
      pcolor bkcolor fcolor
    (forUp (fun i fb => fb.bind
        (putEdges w (xwinMin + i) (ywinMin + i) (xwinMax - i) (ywinMax - i)))
      0 (borderWidth - 1) (some fb)).map fun fb =>
        (true, w.started fontHelvr10,
          if clear then clearScreen w bkcolor fb else fb)
  else some (false, w, fb)

/-- `swim_window_open`: with a cleared draw area and a solid background of the
font. -/
def windowOpen (w : Window) (fontHelvr10 : Font)
    (xsize ysize xwinMin ywinMin xwinMax ywinMax borderWidth : ℤ)
    (pcolor bkcolor fcolor : Color) (fb : FrameBuffer) :
    Option (Bool × Window × FrameBuffer) :=
  (windowOpenP w fontHelvr10 xsize ysize xwinMin ywinMin xwinMax ywinMax
    borderWidth pcolor bkcolor fcolor true fb).map fun (init, w, fb) =>
      (init, { w with tfont := true }, fb)

end EmbBoard.Swim

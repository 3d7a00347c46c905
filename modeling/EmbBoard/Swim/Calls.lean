import EmbBoard.Swim.Page

/-!
# Programs that draw in a window

The calls of a program on an open window, what they do on the page behind it,
and the rules a program has to keep to.  In every run that keeps to them the
window shows the page, and nothing outside the draw area changes.
-/

namespace EmbBoard.Swim

open Canvas

/-- The calls on a window. -/
inductive Call
  | setXy (x y : ℤ)
  | putChar (c : Char8)
  | putNewline
  | putText (text : List Char8)
  | putTextXy (text : List Char8) (x y : ℤ)
  | putLtext (text : List Char8)
  | setFont (font : Font)
  | setFontTransparency (trans : Bool)
  | setPenColor (c : Color)
  | setFillColor (c : Color)
  | setBkgColor (c : Color)
  | clearScreen (colr : Color)
  | putPixel (x y : ℤ)
  | putLine (x1 y1 x2 y2 : ℤ)
  | putBox (x1 y1 x2 y2 : ℤ)
  | setTitle (title : Option (List Char8)) (ttlbkcolor : Color)

/-- A call; there is no result after a division by zero. -/
def Screen.call (s : Screen) : Call → Option Screen
  | .setXy x y => some (setXy s x y)
  | .putChar c => some (putChar s c)
  | .putNewline => some (putNewline s)
  | .putText text => some (putText s text)
  | .putTextXy text x y => some (putTextXy s text x y)
  | .putLtext text => some (putLtext s text)
  | .setFont font => some (setFont s font)
  | .setFontTransparency t => some (setFontTransparency s t)
  | .setPenColor c => some (setPenColor s c)
  | .setFillColor c => some (setFillColor s c)
  | .setBkgColor c => some (setBkgColor s c)
  | .clearScreen colr => some { s with fb := clearScreen s.win colr s.fb }
  | .putPixel x y => some { s with fb := putPixel s.win x y s.fb }
  | .putLine x1 y1 x2 y2 =>
      (putLine s.win x1 y1 x2 y2 s.fb).map fun fb => { s with fb := fb }
  | .putBox x1 y1 x2 y2 =>
      (putBox s.win x1 y1 x2 y2 s.fb).map fun fb => { s with fb := fb }
  | .setTitle title ttlbkcolor => setTitle s title ttlbkcolor

def Screen.run (s : Screen) : List Call → Option Screen
  | [] => some s
  | call :: calls => (s.call call).bind fun s => s.run calls

/-! ## The same on the page -/

namespace Page

/-- The window, when the page has not moved. -/
def area (p : Page) : Set (ℤ × ℤ) :=
  rect p.left p.upper p.right p.lower

noncomputable def strokes (p : Page) (ks : List Stroke) : Page :=
  ks.foldl stroke p

def moveTo (p : Page) (x y : ℤ) : Page :=
  { p with
    col := limit (x + p.left) p.left p.right
    line := limit (y + p.upper) p.upper p.lower + p.top }

/-- Colours a set of pixels of the window. -/
noncomputable def colour (p : Page) (R : Set (ℤ × ℤ)) (c : Color) : Page :=
  { p with ink := paint { q | (q.1, q.2 - p.top) ∈ R } (fun _ => c) p.ink }

/-- A line to the right and down: nothing if it starts outside the window, and
otherwise what is in the window. -/
noncomputable def putLine (p : Page) (x1 y1 x2 y2 : ℤ) : Page :=
  let left := min x1 x2 + p.left
  let upper := min y1 y2 + p.upper
  p.colour { q | (left, upper) ∈ p.area ∧ q ∈ p.area ∧
    q ∈ p.raster left upper (max x1 x2 + p.left) (max y1 y2 + p.upper) } p.pen

/-- The columns of the left and the right edge of a box in the window. -/
def boxColumns (p : Page) (x1 x2 : ℤ) : ℤ × ℤ :=
  (max (min x1 x2 + p.left) p.left, min (max x1 x2 + p.left) p.right)

/-- The rows of the upper and the lower edge. -/
def boxRows (p : Page) (y1 y2 : ℤ) : ℤ × ℤ :=
  (max (min y1 y2 + p.upper) p.upper, min (max y1 y2 + p.upper) p.lower)

/-- An edge in the colour of the pen around the fill colour. -/
noncomputable def putBox (p : Page) (x1 y1 x2 y2 : ℤ) : Page :=
  let (left, right) := p.boxColumns x1 x2
  let (upper, lower) := p.boxRows y1 y2
  (p.colour (frame left upper right lower) p.pen).colour
    (rect (left + 1) (upper + 1) (right - 1) (lower - 1)) p.fill

noncomputable def titleBar (p : Page) (ttlbkcolor : Color) : Page :=
  let bar := { p with pen := ttlbkcolor, fill := ttlbkcolor, bkg := ttlbkcolor }
  { bar.putBox 0 0 (p.right - p.left) (4 + p.font.height - 2) with
    pen := p.pen, fill := p.fill, bkg := p.bkg }

noncomputable def titleText (p : Page) (title : List Char8) : Page :=
  let start := { p with
    solid := false, col := p.left + 2, line := p.upper + 1 + p.top }
  { start.strokes (textStrokes p.font title) with solid := p.solid }

noncomputable def titleLine (p : Page) : Page :=
  p.putLine 0 (4 + p.font.height - 1) p.right (4 + p.font.height - 1)

def belowTitle (p : Page) : Page :=
  { p with
    upper := p.upper + p.font.height + 4
    col := p.left
    line := p.upper + p.font.height + 4 + p.top }

/-- A bar with the title, a line below it, and the window below that. -/
noncomputable def setTitle (p : Page) (title : List Char8)
    (ttlbkcolor : Color) : Page :=
  ((p.titleBar ttlbkcolor).titleText title).titleLine.belowTitle

/-- There is room for a title and for a line below it. -/
def TitleRoom (p : Page) : Prop :=
  p.left < p.right ∧
    p.font.Fits (p.right - p.left) (p.lower - (p.upper + p.font.height + 4))

noncomputable def call (p : Page) : Call → Page
  | .setXy x y => p.moveTo x y
  | .putChar c => p.stroke (if c = ch '\n' then .newline else .char c)
  | .putNewline => p.newline
  | .putText text => p.strokes (textStrokes p.font text)
  | .putTextXy text x y => (p.moveTo x y).strokes (textStrokes p.font text)
  | .putLtext text => p.strokes (ltextStrokes p.font false text)
  | .setFont font => makeRoom { p with font := font }
  | .setFontTransparency t => { p with solid := t }
  | .setPenColor c => { p with pen := c }
  | .setFillColor c => { p with fill := c }
  | .setBkgColor c => { p with bkg := c }
  | .clearScreen colr => p.colour p.area colr
  | .putPixel x y =>
      p.colour ({(x + p.left, y + p.upper)} ∩ p.area) p.pen
  | .putLine x1 y1 x2 y2 => p.putLine x1 y1 x2 y2
  | .putBox x1 y1 x2 y2 => p.putBox x1 y1 x2 y2
  | .setTitle none _ => p
  | .setTitle (some title) ttlbkcolor => p.setTitle title ttlbkcolor

/-- A text position leaves room for a line. -/
def LineRoom (p : Page) (y : ℤ) : Prop :=
  limit (y + p.upper) p.upper p.lower + p.font.height ≤ p.lower

/-- A line of one point is in the window. -/
def PointInside (p : Page) (x1 y1 x2 y2 : ℤ) : Prop :=
  x1 = x2 → y1 = y2 → (x1 + p.left, y1 + p.upper) ∈ p.area

/-- A box has a width and a height in the window. -/
def BoxInside (p : Page) (x1 y1 x2 y2 : ℤ) : Prop :=
  (p.boxColumns x1 x2).1 < (p.boxColumns x1 x2).2 ∧
    (p.boxRows y1 y2).1 < (p.boxRows y1 y2).2

/-- The rules: coordinates have sixteen bits, a text position leaves room for a
line, a character is one of the font, a font fits into the window, a pixel has
no negative coordinate, a line of one point is in the window, a box has a width
and a height in the window, and there is room for a line below a title. -/
def Accepts (p : Page) : Call → Prop
  | .setXy x y | .putTextXy _ x y => Short [x, y] ∧ p.LineRoom y
  | .putChar c => c = ch '\n' ∨ p.font.has c
  | .setFont font => font.Fits (p.right - p.left) (p.lower - p.upper)
  | .putPixel x y => 0 ≤ x ∧ 0 ≤ y ∧ Short [x + p.left, y + p.upper]
  | .putBox x1 y1 x2 y2 => Short [x1, y1, x2, y2] ∧ p.BoxInside x1 y1 x2 y2
  | .putLine x1 y1 x2 y2 => Short [x1, y1, x2, y2] ∧ p.PointInside x1 y1 x2 y2
  | .setTitle (some _) _ => p.TitleRoom
  | _ => True

noncomputable def run (p : Page) (calls : List Call) : Page :=
  calls.foldl call p

/-- A run in which every call keeps to the rules. -/
def AcceptsAll (p : Page) : List Call → Prop
  | [] => True
  | c :: calls => p.Accepts c ∧ (p.call c).AcceptsAll calls

end Page

/-! ## Each call -/

section

variable {s : Screen} {p : Page}

/-- Another text position that leaves room for a line. -/
theorem place_shows (h : Shows s p) {x y : ℤ} (hx : s.win.xpvmin ≤ x)
    (hy : s.win.ypvmin ≤ y) (hroom : y + s.win.font.height ≤ s.win.ypvmax) :
    let s' : Screen := { s with win := { s.win with xvpos := x, yvpos := y } }
    Shows s' { p with col := x, line := y + p.top } ∧ Keeps s s' := by
  have hpage := h.page
  have hvalid := h.valid
  refine ⟨⟨⟨?_, { hvalid with }, h.xvsize, h.yvsize, h.fits, hx, hy, h.ink⟩,
    hroom⟩, rfl, subset_rfl, fun _ _ => rfl⟩
  rw [hpage]
  rfl

theorem le_limit {v low high : ℤ} (hle : low ≤ high) : low ≤ limit v low high := by
  rw [limit]
  split
  · exact le_refl low
  · split
    · exact hle
    · rename_i hlow _
      exact not_lt.mp hlow

theorem setXy_shows (h : Shows s p) {x y : ℤ} (hroom : p.LineRoom y) :
    Shows (setXy s x y) (p.moveTo x y) ∧ Keeps s (setXy s x y) := by
  have hpage := h.page
  rw [hpage] at hroom
  have hplace := place_shows h (le_limit (v := x + s.win.xpvmin)
    h.valid.xpvmin_le) (le_limit (v := y + s.win.ypvmin) h.valid.ypvmin_le) hroom
  rw [hpage] at hplace ⊢
  exact hplace

theorem putText_shows (h : Shows s p) (text : List Char8) :
    Shows (putText s text) (p.strokes (textStrokes p.font text)) ∧
      Keeps s (putText s text) := by
  have hfont : p.font = s.win.font := congrArg Page.font h.page
  rw [putText_eq, hfont]
  exact strokes_shows h (textStrokes_accepted _ _)

theorem putLtext_shows (h : Shows s p) (text : List Char8) :
    Shows (putLtext s text) (p.strokes (ltextStrokes p.font false text)) ∧
      Keeps s (putLtext s text) := by
  have hfont : p.font = s.win.font := congrArg Page.font h.page
  rw [putLtext_eq, hfont]
  exact strokes_shows h (h.fits.ltextStrokes_accepted false text)

theorem setFont_shows (h : Shows s p) {font : Font}
    (hfits : p.Accepts (.setFont font)) :
    Shows (setFont s font) (Page.makeRoom { p with font := font }) ∧
      Keeps s (setFont s font) := by
  have hpage := h.page
  have hvalid := h.valid
  have hheight := h.fits.height_nonneg
  have hroom := h.room
  rw [hpage] at hfits
  have haligned : Aligned { s with win := { s.win with font := font } }
      { p with font := font } := by
    refine ⟨?_, { hvalid with }, h.xvsize, h.yvsize, hfits, h.xvpos_ge,
      h.yvpos_ge, h.ink⟩
    rw [hpage]
    rfl
  have hshows := makeRoom_shows haligned
    (show s.win.yvpos ≤ s.win.ypvmax by omega)
  exact ⟨hshows.1, hshows.2.xpsize, hshows.2.area, hshows.2.outside⟩

/-- Colouring the pixels of a set in the window. -/
theorem colour_shows (h : Shows s p) {R : Set (ℤ × ℤ)} (hR : R ⊆ s.win.area)
    (c : Color) :
    let s' : Screen := { s with fb := draw s.win.xpsize R (fun _ => c) s.fb }
    Shows s' (p.colour R c) ∧ Keeps s s' := by
  intro s'
  have hmoved : ∀ q : ℤ × ℤ, (q.1, q.2 + p.top) ∈
      { q : ℤ × ℤ | (q.1, q.2 - p.top) ∈ R } ↔ q ∈ R := by
    intro q
    simp only [Set.mem_ofPred_eq, add_sub_cancel_right, Prod.mk.eta]
  have haligned := h.toAligned.draw R (fun _ => c)
    (paint { q | (q.1, q.2 - p.top) ∈ R } (fun _ => c) p.ink)
    (fun q _ hq => paint_of_mem ((hmoved q).mpr hq) _ _)
    (fun q _ hq => paint_of_notMem (fun hq' => hq ((hmoved q).mp hq')) _ _)
  exact ⟨⟨haligned, h.room⟩, keeps_draw s hR _⟩

/-- The page has the window of the screen. -/
theorem Shows.area (h : Shows s p) : p.area = s.win.area := by
  rw [h.page]
  rfl

theorem clearScreen_shows (h : Shows s p) (colr : Color) :
    let s' : Screen := { s with fb := clearScreen s.win colr s.fb }
    Shows s' (p.colour p.area colr) ∧ Keeps s s' := by
  simp only [clearScreen_eq h.valid, h.area]
  exact colour_shows h subset_rfl colr

theorem Short.toInt_ofInt {vs : List ℤ} (h : Short vs) {v : ℤ} (hv : v ∈ vs) :
    (BitVec.ofInt 16 v).toInt = v := by
  have hrange := h v hv
  rw [BitVec.toInt_ofInt]
  exact Int.bmod_eq_of_le (by omega) (by omega)

theorem putPixel_shows (h : Shows s p) {x y : ℤ}
    (hin : p.Accepts (.putPixel x y)) :
    let s' : Screen := { s with fb := putPixel s.win x y s.fb }
    Shows s' (p.call (.putPixel x y)) ∧ Keeps s s' := by
  have hpage := h.page
  have hvalid := h.valid
  rw [hpage] at hin
  obtain ⟨hx, hy, hshort⟩ := hin
  simp only [Screen.page] at hshort
  have hxmin := hvalid.xpvmin_nonneg
  have hxmax := hvalid.xpvmax_lt
  have hymin := hvalid.ypvmin_nonneg
  have hpixel : putPixel s.win x y s.fb =
      draw s.win.xpsize ({(x + s.win.xpvmin, y + s.win.ypvmin)} ∩ s.win.area)
        (fun _ => s.win.pen) s.fb := by
    rw [putPixel, add_comm s.win.xpvmin, add_comm s.win.ypvmin,
      hshort.toInt_ofInt (by simp), hshort.toInt_ofInt (by simp)]
    split
    · rename_i hle
      rw [Window.put_eq (by omega) (by omega), Set.inter_eq_left.mpr]
      rw [Set.singleton_subset_iff]
      exact ⟨by simp only; omega, hle.1, by simp only; omega, hle.2⟩
    · rename_i hout
      rw [Set.singleton_inter_eq_empty.mpr, draw_empty]
      rintro ⟨_, hright, _, hlower⟩
      exact hout ⟨hright, hlower⟩
  have hpen : p.pen = s.win.pen := congrArg Page.pen hpage
  have hleft : p.left = s.win.xpvmin := congrArg Page.left hpage
  have hupper : p.upper = s.win.ypvmin := congrArg Page.upper hpage
  simp only [hpixel, Page.call, hpen, hleft, hupper, h.area]
  exact colour_shows h Set.inter_subset_right _

theorem putLine_shows (h : Shows s p) (x1 y1 x2 y2 : ℤ)
    (hin : p.PointInside x1 y1 x2 y2) :
    ∃ fb, putLine s.win x1 y1 x2 y2 s.fb = some fb ∧
      Shows { s with fb := fb } (p.putLine x1 y1 x2 y2) ∧
      Keeps s { s with fb := fb } := by
  have hpage := h.page
  have hpen : p.pen = s.win.pen := congrArg Page.pen hpage
  have hleft : p.left = s.win.xpvmin := congrArg Page.left hpage
  have hupper : p.upper = s.win.ypvmin := congrArg Page.upper hpage
  have hraster : p.raster = raster s.win.xpsize s.win.ypsize :=
    congrArg Page.raster hpage
  simp only [Page.PointInside, hleft, hupper, h.area] at hin
  refine ⟨_, putLine_eq h.valid s.fb ?_, ?_⟩
  · rintro rfl rfl
    rw [min_self, min_self]
    exact hin rfl rfl
  · simp only [Page.putLine, hpen, hleft, hupper, hraster, h.area]
    exact colour_shows h (fun q hq => hq.2.1) _

theorem putBox_shows (h : Shows s p) (x1 y1 x2 y2 : ℤ)
    (hin : p.BoxInside x1 y1 x2 y2) :
    ∃ fb, putBox s.win x1 y1 x2 y2 s.fb = some fb ∧
      Shows { s with fb := fb } (p.putBox x1 y1 x2 y2) ∧
      Keeps s { s with fb := fb } := by
  have hpage := h.page
  have hpen : p.pen = s.win.pen := congrArg Page.pen hpage
  have hfill : p.fill = s.win.fill := congrArg Page.fill hpage
  rw [hpage] at hin
  obtain ⟨hx, hy⟩ := hin
  simp only [Page.boxColumns, Page.boxRows, Screen.page] at hx hy
  refine ⟨_, putBox_drawn h.valid s.fb hx hy, ?_⟩
  generalize hleft : max (min x1 x2 + s.win.xpvmin) s.win.xpvmin = left at hx ⊢
  generalize hright : min (max x1 x2 + s.win.xpvmin) s.win.xpvmax = right
    at hx ⊢
  generalize hupper : max (min y1 y2 + s.win.ypvmin) s.win.ypvmin = upper
    at hy ⊢
  generalize hlower : min (max y1 y2 + s.win.ypvmin) s.win.ypvmax = lower
    at hy ⊢
  have hbox : p.putBox x1 y1 x2 y2 =
      (p.colour (frame left upper right lower) s.win.pen).colour
        (rect (left + 1) (upper + 1) (right - 1) (lower - 1)) s.win.fill := by
    have hcolumns : p.boxColumns x1 x2 = (left, right) := by
      rw [hpage, ← hleft, ← hright]
      rfl
    have hrows : p.boxRows y1 y2 = (upper, lower) := by
      rw [hpage, ← hupper, ← hlower]
      rfl
    rw [Page.putBox, hcolumns, hrows, hpen, hfill]
  have hedge : frame left upper right lower ⊆ s.win.area := by
    intro q hq
    simp only [frame, Set.mem_union, rect, Set.mem_ofPred_eq] at hq
    exact ⟨by omega, by omega, by omega, by omega⟩
  have hinside : rect (left + 1) (upper + 1) (right - 1) (lower - 1) ⊆
      s.win.area := by
    rintro q ⟨hq1, hq2, hq3, hq4⟩
    exact ⟨by omega, by omega, by omega, by omega⟩
  have hframe := colour_shows h hedge s.win.pen
  have hfilled := colour_shows hframe.1 hinside s.win.fill
  rw [hbox]
  exact ⟨hfilled.1, hframe.2.trans hfilled.2⟩

/-- The colours and the background of the font change nothing that is drawn. -/
theorem restyle_shows (h : Shows s p) (pen fill bkg : Color) (tfont : Bool) :
    let s' : Screen := { s with win := { s.win with
      pen := pen, fill := fill, bkg := bkg, tfont := tfont } }
    Shows s' { p with pen := pen, fill := fill, bkg := bkg, solid := tfont } ∧
      Keeps s s' := by
  have hpage := h.page
  have hvalid := h.valid
  refine ⟨⟨⟨?_, { hvalid with }, h.xvsize, h.yvsize, h.fits, h.xvpos_ge,
    h.yvpos_ge, h.ink⟩, h.room⟩, rfl, subset_rfl, fun _ _ => rfl⟩
  rw [hpage]
  rfl

theorem setFontTransparency_shows (h : Shows s p) (tfont : Bool) :
    Shows (setFontTransparency s tfont) { p with solid := tfont } ∧
      Keeps s (setFontTransparency s tfont) := by
  have hpage := h.page
  have hstyle := restyle_shows h s.win.pen s.win.fill s.win.bkg tfont
  rw [hpage] at hstyle ⊢
  exact hstyle

theorem Page.titleBar_cases (p : Page) (ttlbkcolor : Color) :
    ∃ ink, p.titleBar ttlbkcolor = { p with ink := ink } :=
  ⟨(p.titleBar ttlbkcolor).ink, rfl⟩

theorem Page.titleText_cases (p : Page) (title : List Char8) :
    ∃ top col line ink, p.titleText title =
      { p with top := top, col := col, line := line, ink := ink } := by
  obtain ⟨top, col, line, ink, hstrokes⟩ := Page.strokes_cases
    { p with solid := false, col := p.left + 2, line := p.upper + 1 + p.top }
    (textStrokes p.font title)
  refine ⟨top, col, line, ink, ?_⟩
  rw [Page.titleText, Page.strokes, hstrokes]

theorem titleBar_shows (h : Shows s p) (hroom : p.TitleRoom)
    (ttlbkcolor : Color) :
    ∃ s', titleBar s ttlbkcolor = some s' ∧ Shows s' (p.titleBar ttlbkcolor) ∧
      Keeps s s' := by
  have hpage := h.page
  obtain ⟨hwide, hfits⟩ := hroom
  have hnonneg := hfits.height_nonneg
  have hle := hfits.height_le
  have hbar := restyle_shows h ttlbkcolor ttlbkcolor ttlbkcolor s.win.tfont
  obtain ⟨fb, hbox, hboxed⟩ := putBox_shows hbar.1 0 0 (p.right - p.left)
    (4 + p.font.height - 2) (by
      simp only [Page.BoxInside, Page.boxColumns, Page.boxRows]
      omega)
  have hstyle := restyle_shows hboxed.1 s.win.pen s.win.fill s.win.bkg
    s.win.tfont
  have hcode : titleBar s ttlbkcolor = some { s with fb := fb } := by
    have hxvsize : p.right - p.left = s.win.xvsize := by
      rw [h.xvsize, hpage]
      rfl
    rw [hxvsize, hpage] at hbox
    exact congrArg (Option.map fun fb => ({ s with fb := fb } : Screen)) hbox
  have hdrawn : p.titleBar ttlbkcolor = { p with
      ink := (Page.putBox { p with
        pen := ttlbkcolor, fill := ttlbkcolor, bkg := ttlbkcolor
        solid := s.win.tfont } 0 0 (p.right - p.left)
        (4 + p.font.height - 2)).ink
      pen := s.win.pen, fill := s.win.fill, bkg := s.win.bkg
      solid := s.win.tfont } := by
    rw [hpage]
    rfl
  refine ⟨_, hcode, ?_, hboxed.2.xpsize, hboxed.2.area, hboxed.2.outside⟩
  rw [hdrawn]
  exact hstyle.1

theorem titleText_shows (h : Shows s p) (hroom : p.TitleRoom)
    (title : List Char8) :
    Shows (titleText s title) (p.titleText title) ∧
      Keeps s (titleText s title) := by
  have hpage := h.page
  have hnonneg := hroom.2.height_nonneg
  have hle := hroom.2.height_le
  have hleft : p.left = s.win.xpvmin := congrArg Page.left hpage
  have hupper : p.upper = s.win.ypvmin := congrArg Page.upper hpage
  have hlower : p.lower = s.win.ypvmax := congrArg Page.lower hpage
  have hfont : p.font = s.win.font := congrArg Page.font hpage
  rw [hfont, hlower, hupper] at hle
  rw [hfont] at hnonneg
  have hclear := setFontTransparency_shows h false
  have hplace := place_shows hclear.1 (x := s.win.xpvmin + 2)
    (y := s.win.ypvmin + 1)
    (show s.win.xpvmin ≤ s.win.xpvmin + 2 by omega)
    (show s.win.ypvmin ≤ s.win.ypvmin + 1 by omega)
    (show s.win.ypvmin + 1 + s.win.font.height ≤ s.win.ypvmax by omega)
  have htext := putText_shows hplace.1 title
  have hsolid := setFontTransparency_shows htext.1 s.win.tfont
  have hkeeps := hclear.2.trans (hplace.2.trans (htext.2.trans hsolid.2))
  have hdrawn : p.titleText title = { Page.strokes { p with
      solid := false, col := s.win.xpvmin + 2
      line := s.win.ypvmin + 1 + p.top } (textStrokes p.font title) with
        solid := s.win.tfont } := by
    rw [hpage]
    rfl
  rw [hdrawn]
  exact ⟨hsolid.1, hkeeps⟩

theorem titleLine_shows (h : Shows s p) (hroom : p.TitleRoom) :
    ∃ s', titleLine s = some s' ∧ Shows s' p.titleLine ∧ Keeps s s' := by
  have hpage := h.page
  have hxmin := h.valid.xpvmin_nonneg
  have hleft : p.left = s.win.xpvmin := congrArg Page.left hpage
  have hright : p.right = s.win.xpvmax := congrArg Page.right hpage
  have hfont : p.font = s.win.font := congrArg Page.font hpage
  have hwide := hroom.1
  obtain ⟨fb, hline, hshows⟩ := putLine_shows h 0 (4 + p.font.height - 1) p.right
    (4 + p.font.height - 1) (by
      simp only [Page.PointInside]
      omega)
  refine ⟨{ s with fb := fb }, ?_, hshows⟩
  rw [hright, hfont] at hline
  exact congrArg (Option.map fun fb => ({ s with fb := fb } : Screen)) hline

/-- The draw area gets smaller. -/
theorem belowTitle_shows (h : Shows s p) (hroom : p.TitleRoom) :
    let s' : Screen := { s with win := s.win.belowTitle }
    Shows s' p.belowTitle ∧ Keeps s s' := by
  have hpage := h.page
  have hvalid := h.valid
  have hyvsize := h.yvsize
  have hfits := hroom.2
  have hnonneg := hfits.height_nonneg
  have hle := hfits.height_le
  rw [hpage] at hfits hnonneg hle
  simp only [Screen.page] at hfits hnonneg hle
  have hymin := hvalid.ypvmin_nonneg
  have hsmaller : s.win.belowTitle.area ⊆ s.win.area := by
    rintro q ⟨hx, hx', hy, hy'⟩
    simp only [Window.belowTitle] at hx hx' hy hy'
    exact ⟨hx, hx', by omega, hy'⟩
  refine ⟨⟨⟨?_, { hvalid with ypvmin_nonneg := ?_, ypvmin_le := ?_ },
    h.xvsize, ?_, hfits, le_refl _, le_refl _,
    fun q hq => h.ink q (hsmaller hq)⟩, ?_⟩, rfl, hsmaller, fun _ _ => rfl⟩
  · rw [hpage]
    rfl
  all_goals
    simp only [Window.belowTitle]
    omega

theorem setTitle_shows (h : Shows s p) {title : List Char8} {ttlbkcolor : Color}
    (hroom : p.TitleRoom) :
    ∃ s', setTitle s (some title) ttlbkcolor = some s' ∧
      Shows s' (p.setTitle title ttlbkcolor) ∧ Keeps s s' := by
  obtain ⟨ink, hbar⟩ := p.titleBar_cases ttlbkcolor
  obtain ⟨top, col, line, ink', htext⟩ :=
    (p.titleBar ttlbkcolor).titleText_cases title
  obtain ⟨s1, hcode1, hshows1, hkeeps1⟩ := titleBar_shows h hroom ttlbkcolor
  obtain ⟨hshows2, hkeeps2⟩ := titleText_shows hshows1
    (by rw [hbar]; exact hroom) title
  obtain ⟨s3, hcode3, hshows3, hkeeps3⟩ := titleLine_shows hshows2
    (by rw [htext, hbar]; exact hroom)
  have hbelow := belowTitle_shows hshows3
    (by rw [htext, hbar]; exact hroom)
  have hguard : s.win.font.height < 4 + s.win.yvsize := by
    have hpage := h.page
    have hyvsize := h.yvsize
    have hle := hroom.2.height_le
    have hnonneg := hroom.2.height_nonneg
    rw [hpage] at hle hnonneg
    simp only [Screen.page] at hle hnonneg
    omega
  refine ⟨_, ?_, hbelow.1,
    hkeeps1.trans (hkeeps2.trans (hkeeps3.trans hbelow.2))⟩
  rw [setTitle, if_pos hguard, hcode1, Option.bind_eq_bind, Option.bind_some, hcode3]
  rfl

/-- A call that keeps to the rules has a result, which shows what the call does
on the page. -/
theorem call_shows (h : Shows s p) {c : Call} (hc : p.Accepts c) :
    ∃ s', s.call c = some s' ∧ Shows s' (p.call c) ∧ Keeps s s' := by
  have hpage := h.page
  have hstyle := restyle_shows h
  rw [hpage] at hstyle
  have hfont : p.font = s.win.font := congrArg Page.font hpage
  cases c with
  | setXy x y => exact ⟨_, rfl, setXy_shows h hc.2⟩
  | putChar c =>
      refine ⟨_, rfl, ?_⟩
      have hstroke : putChar s c =
          stroke s (if c = ch '\n' then .newline else .char c) := by
        split
        · rw [putChar, if_pos ‹_›]
          rfl
        · rfl
      rw [hstroke]
      refine stroke_shows h ?_
      split
      · trivial
      · rename_i hnl
        rw [← hfont]
        exact ⟨hnl, hc.resolve_left hnl⟩
  | putNewline => exact ⟨_, rfl, newline_shows h⟩
  | putText text => exact ⟨_, rfl, putText_shows h text⟩
  | putTextXy text x y =>
      have hmoved := setXy_shows h (x := x) hc.2
      have htext := putText_shows hmoved.1 text
      exact ⟨_, rfl, htext.1, hmoved.2.trans htext.2⟩
  | putLtext text => exact ⟨_, rfl, putLtext_shows h text⟩
  | setFont font => exact ⟨_, rfl, setFont_shows h hc⟩
  | setFontTransparency t =>
      exact ⟨_, rfl, setFontTransparency_shows h t⟩
  | setPenColor c =>
      refine ⟨_, rfl, ?_⟩
      rw [hpage]
      exact hstyle c s.win.fill s.win.bkg s.win.tfont
  | setFillColor c =>
      refine ⟨_, rfl, ?_⟩
      rw [hpage]
      exact hstyle s.win.pen c s.win.bkg s.win.tfont
  | setBkgColor c =>
      refine ⟨_, rfl, ?_⟩
      rw [hpage]
      exact hstyle s.win.pen s.win.fill c s.win.tfont
  | clearScreen colr => exact ⟨_, rfl, clearScreen_shows h colr⟩
  | putPixel x y => exact ⟨_, rfl, putPixel_shows h hc⟩
  | putLine x1 y1 x2 y2 =>
      obtain ⟨fb, hline, hshows⟩ := putLine_shows h x1 y1 x2 y2 hc.2
      refine ⟨{ s with fb := fb }, ?_, hshows⟩
      rw [Screen.call, hline]
      rfl
  | setTitle title ttlbkcolor =>
      cases title with
      | none => exact ⟨s, rfl, h, Keeps.refl s⟩
      | some title => exact setTitle_shows h hc
  | putBox x1 y1 x2 y2 =>
      obtain ⟨fb, hbox, hshows⟩ := putBox_shows h x1 y1 x2 y2 hc.2
      refine ⟨{ s with fb := fb }, ?_, hshows⟩
      rw [Screen.call, hbox]
      rfl

/-- In every run that keeps to the rules the window shows the page. -/
theorem run_shows (h : Shows s p) {calls : List Call}
    (hcalls : p.AcceptsAll calls) :
    ∃ s', s.run calls = some s' ∧ Shows s' (p.run calls) ∧ Keeps s s' := by
  induction calls generalizing s p with
  | nil => exact ⟨s, rfl, h, Keeps.refl s⟩
  | cons c calls ih =>
      obtain ⟨hfirst, hrest⟩ := hcalls
      obtain ⟨s', hcall, hshows, hkeeps⟩ := call_shows h hfirst
      obtain ⟨s'', hrun, hend, hkeeps'⟩ := ih hshows hrest
      refine ⟨s'', ?_, hend, hkeeps.trans hkeeps'⟩
      rw [Screen.run, hcall]
      exact hrun

end

/-! ## Programs from the opening of the window on -/

/-- The page behind a cleared window. -/
def Window.blankPage (w : Window) : Page where
  raster := raster w.xpsize w.ypsize
  left := w.xpvmin
  right := w.xpvmax
  upper := w.ypvmin
  lower := w.ypvmax
  top := 0
  col := w.xvpos
  line := w.yvpos
  pen := w.pen
  bkg := w.bkg
  fill := w.fill
  solid := w.tfont
  font := w.font
  ink := fun _ => w.bkg

/-- A window that `swim_window_open` has opened. -/
def Window.opened (w : Window) (fontHelvr10 : Font)
    (xsize ysize xmin ymin xmax ymax border : ℤ)
    (pcolor bkcolor fcolor : Color) : Window :=
  { (w.sized xsize ysize xmin ymin xmax ymax border pcolor bkcolor
      fcolor).started fontHelvr10 with tfont := true }

/-- The window is on a display that the controller can have, and inside its
border there is an area for the font. -/
structure Opens (fontHelvr10 : Font)
    (xsize ysize xmin ymin xmax ymax border : ℤ) : Prop where
  size_le : xsize ≤ 1024 ∧ ysize ≤ 1024
  border_nonneg : 0 ≤ border
  xmin_nonneg : 0 ≤ xmin
  xmax_lt : xmax < xsize
  ymin_nonneg : 0 ≤ ymin
  ymax_lt : ymax < ysize
  fits : fontHelvr10.Fits (xmax - border - (xmin + border))
    (ymax - border - (ymin + border))

theorem windowOpen_shows (w : Window) {fontHelvr10 : Font}
    {xsize ysize xmin ymin xmax ymax border : ℤ} (pcolor bkcolor fcolor : Color)
    (fb : FrameBuffer)
    (hopens : Opens fontHelvr10 xsize ysize xmin ymin xmax ymax border) :
    let w' := w.opened fontHelvr10 xsize ysize xmin ymin xmax ymax border pcolor
      bkcolor fcolor
    ∃ fb', windowOpen w fontHelvr10 xsize ysize xmin ymin xmax ymax border
        pcolor bkcolor fcolor fb = some (true, w', fb') ∧
      Shows ⟨w', fb'⟩ w'.blankPage ∧
      ∀ a, pixel xsize a ∉ w'.area →
        fb' a = draw xsize (rect xmin ymin xmax ymax) (fun _ => pcolor) fb a := by
  intro w'
  obtain ⟨hsize, hborder, hx, hx', hy, hy', hfits⟩ := hopens
  have hheight := hfits.height_nonneg
  have hroom := hfits.height_le
  have hblank := hfits.width_le _ hfits.accepted_blank.2
  obtain ⟨hvalid, hopen⟩ := windowOpenP_eq w fontHelvr10 pcolor bkcolor fcolor
    true fb hsize hborder hx hx' hy hy' (by omega) (by omega)
  rw [if_pos rfl] at hopen
  have hvalid' : w'.Valid := { hvalid with }
  refine ⟨_, by rw [windowOpen, hopen]; rfl, ⟨⟨?_, hvalid', ?_, ?_, hfits,
    le_refl _, le_refl _, fun q hq => ?_⟩, ?_⟩, fun a ha => ?_⟩
  · simp only [Window.blankPage, Screen.page, add_zero]
  · change xmax - xmin - 2 * border = xmax - border - (xmin + border)
    omega
  · change ymax - border - (ymin + border) ≤ ymax - ymin - 2 * border
    omega
  · change draw xsize w'.area (fun _ => bkcolor) _ (cell xsize q) = bkcolor
    exact draw_cell_of_mem (w := xsize) (hvalid'.inStrip hq) hq
  · change ymin + border + fontHelvr10.height ≤ ymax - border
    omega
  · have hborder : ∀ {p}, p ∉ w'.area → (p ∈ rect xmin ymin xmax ymax \ w'.area ↔
        p ∈ rect xmin ymin xmax ymax) := fun hp => and_iff_left hp
    refine (draw_of_notMem ha).trans ?_
    by_cases hin : pixel xsize a ∈ rect xmin ymin xmax ymax
    · rw [draw_of_mem hin]
      exact draw_of_mem ((hborder ha).mpr hin)
    · rw [draw_of_notMem hin]
      exact draw_of_notMem fun h => hin ((hborder ha).mp h)

/-- A program opens a window with an area for the font inside its border, and
then makes calls that keep to the rules.  Every such program runs to its end.
Then the draw area shows, row by row, the part of the page that the window has
moved to, around it there is the border in the first colour of the pen, and
outside the window the display is as it was. -/
theorem window_shows_page (w : Window) {fontHelvr10 : Font}
    {xsize ysize xmin ymin xmax ymax border : ℤ} (pcolor bkcolor fcolor : Color)
    (fb : FrameBuffer)
    (hopens : Opens fontHelvr10 xsize ysize xmin ymin xmax ymax border)
    (calls : List Call)
    (hcalls : (w.opened fontHelvr10 xsize ysize xmin ymin xmax ymax border
      pcolor bkcolor fcolor).blankPage.AcceptsAll calls) :
    let page := (w.opened fontHelvr10 xsize ysize xmin ymin xmax ymax border
      pcolor bkcolor fcolor).blankPage.run calls
    let area := rect (xmin + border) (ymin + border) (xmax - border)
      (ymax - border)
    page.area ⊆ area ∧ ∃ s,
      ((windowOpen w fontHelvr10 xsize ysize xmin ymin xmax ymax border pcolor
        bkcolor fcolor fb).bind fun (_, w, fb) => Screen.run ⟨w, fb⟩ calls) =
          some s ∧
      (∀ q ∈ page.area,
        s.fb (cell xsize q) = page.ink (q.1, q.2 + page.top)) ∧
      s.win.xvpos = page.col ∧ s.win.yvpos + page.top = page.line ∧
      ∀ a, pixel xsize a ∉ area →
        s.fb a = draw xsize (rect xmin ymin xmax ymax) (fun _ => pcolor) fb a := by
  intro page area
  obtain ⟨fb', hopen, hshows, houtside⟩ := windowOpen_shows w pcolor bkcolor
    fcolor fb hopens
  obtain ⟨s, hrun, hend, hkeeps⟩ := run_shows hshows hcalls
  have harea : s.win.area ⊆ area := hkeeps.area
  have hxpsize : s.win.xpsize = xsize := hkeeps.xpsize
  have hpage := hend.page
  have hink := hend.ink
  rw [← hend.area, hxpsize] at hink
  refine ⟨by rwa [← hend.area] at harea, s, ?_, hink, ?_, ?_, fun a ha => ?_⟩
  · rw [hopen]
    exact hrun
  · exact (congrArg Page.col hpage).symm
  · exact (congrArg Page.line hpage).symm
  · exact (hkeeps.outside a ha).trans (houtside a ha)

/-- A title, a box, a line, and five lines of text where there is room for
three. -/
def titledCalls : List Call :=
  [.setTitle (some [ch 'E', ch 'M', ch 'B']) 0x07E0, .setFillColor 0x001F,
    .putBox 30 20 10 5, .putLine 0 30 40 0, .setXy 4 0,
    .putText [ch 'a', ch '\n', ch 'b', ch '\n', ch 'c', ch '\n', ch 'd', ch '\n',
      ch 'e']]

theorem fits_font8x8 {width height : ℤ} (hwidth : 8 ≤ width)
    (hheight : 8 ≤ height) : font8x8.Fits width height :=
  ⟨by decide, by decide, by decide, hheight, fun _ _ => hwidth⟩

theorem opens_titled : Opens font8x8 320 240 0 0 63 47 2 :=
  ⟨by decide, by decide, by decide, by decide, by decide, by decide,
    fits_font8x8 (by decide) (by decide)⟩

theorem acceptsAll_titled :
    (plainWindow.opened font8x8 320 240 0 0 63 47 2 0xFFFF 0
      0).blankPage.AcceptsAll titledCalls := by
  refine ⟨⟨by decide, fits_font8x8 (by decide) (by decide)⟩, trivial,
    ⟨by simp [Short], ?columns, ?rows⟩, ⟨by simp [Short], ?point⟩,
    ⟨by simp [Short], ?room⟩, trivial, trivial⟩
  case columns =>
    change (12 : ℤ) < 32
    decide
  case rows =>
    change (19 : ℤ) < 34
    decide
  case point =>
    intro hx
    cases hx
  case room =>
    change (22 : ℤ) ≤ 45
    decide

theorem window_shows_page_titled :
    let page := (plainWindow.opened font8x8 320 240 0 0 63 47 2 0xFFFF 0
      0).blankPage.run titledCalls
    page.area = rect 2 14 61 45 ∧ page.top = 9 ∧ ∃ s,
      ((windowOpen plainWindow font8x8 320 240 0 0 63 47 2 0xFFFF 0 0
        fun _ => 0).bind fun (_, w, fb) => Screen.run ⟨w, fb⟩ titledCalls) =
          some s ∧
      (∀ q ∈ rect 2 14 61 45,
        s.fb (cell 320 q) = page.ink (q.1, q.2 + 9)) ∧
      s.win.xvpos = 10 ∧ s.fb (cell 320 (1, 1)) = 0xFFFF := by
  obtain ⟨_, s, hrun, hink, hcol, _, houtside⟩ := window_shows_page plainWindow
    0xFFFF 0 0 (fun _ => 0) opens_titled titledCalls acceptsAll_titled
  refine ⟨rfl, rfl, s, hrun, hink, hcol, ?_⟩
  have hborder : pixel 320 (cell 320 (1, 1)) ∉ rect 2 2 61 45 := by
    rintro ⟨hleft, _⟩
    exact absurd hleft (by decide)
  rw [houtside _ hborder]
  exact draw_cell_of_mem (w := 320) ⟨by decide, by decide⟩
    ⟨by decide, by decide, by decide, by decide⟩

end EmbBoard.Swim

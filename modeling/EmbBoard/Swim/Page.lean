import EmbBoard.Swim.Drawing
import EmbBoard.Swim.Text

/-!
# The page behind a window

What the text functions are for: they write on an endless page, of which the
window shows the part that ends below the line being written.  On the page a
line never moves.  Where the next line would be below the lower edge of the
window, the window moves down, and what is below the line is blank.

The window shows the page after every run of calls that leave room for their
lines, and nothing outside its draw area changes.
-/

namespace EmbBoard.Swim

open Canvas

/-! ## Pages -/

/-- A page that is written on and drawn on, with the edges of the window: its
columns, and its first and last row when the page has not moved.  The window
has moved down by `top` rows.  What a line is made of is up to the display. -/
structure Page where
  raster : ℤ → ℤ → ℤ → ℤ → Set (ℤ × ℤ)
  left : ℤ
  right : ℤ
  upper : ℤ
  lower : ℤ
  top : ℤ
  col : ℤ
  line : ℤ
  pen : Color
  bkg : Color
  fill : Color
  solid : Bool
  font : Font
  ink : ℤ × ℤ → Color

/-- The steps of writing a text: a new line, a new line unless there is room
for a word, and a character. -/
inductive Stroke
  | newline
  | wrap (wlen : BitVec 16)
  | char (c : Char8)

namespace Page

/-- Moves the window down to the line, if it is below the window. -/
noncomputable def makeRoom (p : Page) : Page :=
  if p.line + p.font.height > p.lower + p.top then
    { p with
      top := p.line + p.font.height - p.lower
      ink := paint { q | p.line ≤ q.2 } (fun _ => p.bkg) p.ink }
  else p

noncomputable def newline (p : Page) : Page :=
  makeRoom { p with col := p.left, line := p.line + p.font.height }

noncomputable def write (p : Page) (c : Char8) : Page :=
  { p with
    ink := paint (glyphSet p.font c p.solid p.col p.line)
      (glyphPicture p.font c p.pen p.bkg p.col p.line) p.ink
    col := p.col + p.font.width c }

noncomputable def stroke (p : Page) : Stroke → Page
  | .newline => p.newline
  | .wrap wlen => if wlen.toInt + p.col > p.right then p.newline else p
  | .char c =>
      if p.col + p.font.width c > p.right then p.newline.write c else p.write c

end Page

/-! ## Texts as strokes -/

/-- The strokes of `swim_put_text`. -/
def textStrokes (f : Font) : List Char8 → List Stroke
  | [] => []
  | c :: text =>
      if c = ch '\n' then .newline :: textStrokes f text
      else if f.has c then .char c :: textStrokes f text
      else textStrokes f text

/-- The strokes of `swim_put_ltext`; `inWord` says that the word before has
been measured. -/
def ltextStrokes (f : Font) : Bool → List Char8 → List Stroke
  | _, [] => []
  | inWord, c :: text =>
      if inWord ∧ isWordChar c then .char c :: ltextStrokes f true text
      else if c = ch '\n' then .newline :: ltextStrokes f false text
      else if f.has c then
        if isWordChar c then
          .wrap (getWordLen f (c :: text)) :: .char c ::
            ltextStrokes f true text
        else .char c :: ltextStrokes f false text
      else .char (ch ' ') :: ltextStrokes f false text

/-- A stroke on the screen. -/
def stroke (s : Screen) : Stroke → Screen
  | .newline => putNewline s
  | .wrap wlen =>
      if wlen.toInt + s.win.xvpos > s.win.xpvmax then putNewline s else s
  | .char c => putChar s c

/-- What moves the text position keeps the font. -/
theorem newlineLoop_font (s : Screen) : (newlineLoop s).win.font = s.win.font := by
  induction s using newlineLoop.induct with
  | case1 s h ih =>
      rw [newlineLoop, if_pos h]
      exact ih
  | case2 s h => rw [newlineLoop, if_neg h]

theorem stroke_font (s : Screen) (k : Stroke) :
    (stroke s k).win.font = s.win.font := by
  have hnewline : ∀ s, (putNewline s).win.font = s.win.font :=
    fun s => newlineLoop_font _
  cases k with
  | newline => exact hnewline s
  | wrap wlen =>
      rw [stroke]
      split
      · exact hnewline s
      · rfl
  | char c =>
      rw [stroke, putChar]
      split
      · exact hnewline s
      · simp only
        split
        · exact hnewline s
        · rfl

theorem putText_eq (s : Screen) (text : List Char8) :
    putText s text = (textStrokes s.win.font text).foldl stroke s := by
  induction text generalizing s with
  | nil => rfl
  | cons c text ih =>
      rw [putText, textStrokes]
      split
      · rw [ih, List.foldl_cons, ← stroke_font s .newline]
        rfl
      · split
        · rw [ih, List.foldl_cons, ← stroke_font s (.char c)]
          rfl
        · exact ih s

theorem putWordChars_font (s : Screen) (text : List Char8) :
    (putWordChars s text).1.win.font = s.win.font := by
  induction text generalizing s with
  | nil => rfl
  | cons c text ih =>
      rw [putWordChars]
      split
      · exact (ih _).trans (stroke_font s (.char c))
      · rfl

/-- The rest of a word, and what the loop leaves. -/
theorem foldl_ltextStrokes_true (f : Font) (s : Screen) (text : List Char8) :
    (ltextStrokes f true text).foldl stroke s =
      (ltextStrokes f false (putWordChars s text).2).foldl stroke
        (putWordChars s text).1 := by
  induction text generalizing s with
  | nil => rfl
  | cons c text ih =>
      by_cases hword : isWordChar c
      · rw [ltextStrokes, if_pos ⟨rfl, hword⟩, putWordChars, if_pos hword,
          List.foldl_cons]
        exact ih _
      · rw [putWordChars, if_neg hword]
        simp only [ltextStrokes, hword, and_false, if_false, Bool.false_eq_true]

theorem putLtext_eq (s : Screen) (text : List Char8) :
    putLtext s text = (ltextStrokes s.win.font false text).foldl stroke s := by
  induction s, text using putLtext.induct with
  | case1 s => simp [putLtext, ltextStrokes]
  | case2 s text ih =>
      rw [putLtext, if_pos rfl, ih, ltextStrokes, if_neg (by simp), if_pos rfl,
        List.foldl_cons, ← stroke_font s .newline]
      rfl
  | case3 s c text hnl hhas hword next ih =>
      have hnext : putWord s (c :: text) = putWordChars
          (stroke (stroke s (.wrap (getWordLen s.win.font (c :: text))))
            (.char c)) text := by
        rw [putWord, putWordChars, if_pos hword]
        rfl
      have hfont : next.1.win.font = s.win.font := by
        change (putWord s (c :: text)).1.win.font = _
        rw [hnext, putWordChars_font, stroke_font, stroke_font]
      rw [putLtext, if_neg hnl, if_pos hhas, dif_pos hword, ih, ltextStrokes,
        if_neg (by simp), if_neg hnl, if_pos hhas, if_pos hword,
        List.foldl_cons, List.foldl_cons, foldl_ltextStrokes_true, hfont,
        ← hnext]
  | case4 s c text hnl hhas hword ih =>
      rw [putLtext, if_neg hnl, if_pos hhas, dif_neg hword, ih, ltextStrokes,
        if_neg (by simp), if_neg hnl, if_pos hhas, if_neg hword,
        List.foldl_cons, ← stroke_font s (.char c)]
      rfl
  | case5 s c text hnl hhas ih =>
      rw [putLtext, if_neg hnl, if_neg hhas, ih, ltextStrokes,
        if_neg (by simp), if_neg hnl, if_neg hhas, List.foldl_cons,
        ← stroke_font s (.char (ch ' '))]
      rfl

/-! ## The window shows the page -/

/-- A font for a draw area: a line fits between the upper and the lower edge,
and every character between the left and the right one.  As all fonts of the
library it has the blank and the characters of words. -/
structure Font.Fits (f : Font) (width height : ℤ) : Prop where
  firstChar_le : f.firstChar ≤ ch ' '
  lastChar_ge : 0x7E ≤ f.lastChar
  height_nonneg : 0 ≤ f.height
  height_le : f.height ≤ height
  width_le : ∀ c, f.has c → (f.width c : ℤ) ≤ width

/-- The page of a window that has moved down by `top` rows. -/
def Screen.page (s : Screen) (top : ℤ) (ink : ℤ × ℤ → Color) : Page where
  raster := raster s.win.xpsize s.win.ypsize
  left := s.win.xpvmin
  right := s.win.xpvmax
  upper := s.win.ypvmin
  lower := s.win.ypvmax
  top := top
  col := s.win.xvpos
  line := s.win.yvpos + top
  pen := s.win.pen
  bkg := s.win.bkg
  fill := s.win.fill
  solid := s.win.tfont
  font := s.win.font
  ink := ink

/-- The draw area shows its part of the page; the line may end below it.  The
height that the window keeps may be more than that of the draw area. -/
structure Aligned (s : Screen) (p : Page) : Prop where
  page : p = s.page p.top p.ink
  valid : s.win.Valid
  xvsize : s.win.xvsize = s.win.xpvmax - s.win.xpvmin
  yvsize : s.win.ypvmax - s.win.ypvmin ≤ s.win.yvsize
  fits : s.win.font.Fits (s.win.xpvmax - s.win.xpvmin)
    (s.win.ypvmax - s.win.ypvmin)
  xvpos_ge : s.win.xpvmin ≤ s.win.xvpos
  yvpos_ge : s.win.ypvmin ≤ s.win.yvpos
  ink : ∀ q ∈ s.win.area, s.fb (cell s.win.xpsize q) = p.ink (q.1, q.2 + p.top)

/-- The window shows the page, and the line that is written. -/
structure Shows (s : Screen) (p : Page) : Prop extends Aligned s p where
  room : s.win.yvpos + s.win.font.height ≤ s.win.ypvmax

/-- The draw area does not grow, and nothing outside it changes. -/
structure Keeps (s s' : Screen) : Prop where
  xpsize : s'.win.xpsize = s.win.xpsize
  area : s'.win.area ⊆ s.win.area
  outside : ∀ a, pixel s.win.xpsize a ∉ s.win.area → s'.fb a = s.fb a

theorem Keeps.refl (s : Screen) : Keeps s s :=
  ⟨rfl, subset_rfl, fun _ _ => rfl⟩

theorem Keeps.trans {s s' s'' : Screen} (h : Keeps s s') (h' : Keeps s' s'') :
    Keeps s s'' := by
  refine ⟨h'.xpsize.trans h.xpsize, h'.area.trans h.area, fun a ha => ?_⟩
  rw [← h.outside a ha]
  refine h'.outside a ?_
  rw [h.xpsize]
  exact fun hin => ha (h.area hin)

theorem Window.Valid.inStrip {w : Window} (hw : w.Valid) {q : ℤ × ℤ}
    (hq : q ∈ w.area) : InStrip w.xpsize q := by
  obtain ⟨hx, hx', _⟩ := hq
  exact ⟨hw.xpvmin_nonneg.trans hx, hx'.trans_lt hw.xpvmax_lt⟩

/-- Drawing in the draw area what is drawn on the page. -/
theorem Aligned.draw {s : Screen} {p : Page} (h : Aligned s p)
    (R : Set (ℤ × ℤ)) (pic ink : ℤ × ℤ → Color)
    (hin : ∀ q ∈ s.win.area, q ∈ R → ink (q.1, q.2 + p.top) = pic q)
    (hout : ∀ q ∈ s.win.area, q ∉ R →
      ink (q.1, q.2 + p.top) = p.ink (q.1, q.2 + p.top)) :
    Aligned ⟨s.win, draw s.win.xpsize R pic s.fb⟩ { p with ink := ink } := by
  have hpage := h.page
  refine ⟨?_, h.valid, h.xvsize, h.yvsize, h.fits, h.xvpos_ge, h.yvpos_ge,
    fun q hq => ?_⟩
  · rw [hpage]
    rfl
  · have hstrip := h.valid.inStrip hq
    by_cases hR : q ∈ R
    · exact (draw_cell_of_mem hstrip hR).trans (hin q hq hR).symm
    · exact ((draw_cell_of_notMem hstrip hR).trans (h.ink q hq)).trans
        (hout q hq hR).symm

theorem keeps_draw (s : Screen) {R : Set (ℤ × ℤ)} (hR : R ⊆ s.win.area)
    (pic : ℤ × ℤ → Color) : Keeps s ⟨s.win, draw s.win.xpsize R pic s.fb⟩ :=
  ⟨rfl, subset_rfl, fun _ ha => draw_of_notMem fun h => ha (hR h)⟩

/-- Scrolling shows the rows below, clears the rows from the text position on, and
changes nothing outside the draw area. -/
theorem windowScroll_shows {w : Window} (hw : w.Valid) {lines : ℤ}
    (hpos : 0 < lines) (htop : w.ypvmin ≤ w.yvpos)
    (hlast : w.yvpos + lines ≤ w.ypvmax + 1) (fb : FrameBuffer) :
    (∀ q ∈ w.area, w.yvpos ≤ q.2 →
      windowScroll w lines fb (cell w.xpsize q) = w.bkg) ∧
    (∀ q ∈ w.area, q.2 < w.yvpos → (q.1, q.2 + lines) ∈ w.area ∧
      windowScroll w lines fb (cell w.xpsize q) =
        fb (cell w.xpsize (q.1, q.2 + lines))) ∧
    ∀ a, pixel w.xpsize a ∉ w.area → windowScroll w lines fb a = fb a := by
  rw [windowScroll_eq hw hpos (by omega)]
  have hbottom : ∀ {q : ℤ × ℤ},
      q ∈ rect w.xpvmin w.yvpos w.xpvmax w.ypvmax ↔
        q ∈ w.area ∧ w.yvpos ≤ q.2 := by
    intro q
    simp only [Window.area, rect, Set.mem_ofPred_eq]
    omega
  have hcopied : ∀ {q : ℤ × ℤ},
      q ∈ rect w.xpvmin w.ypvmin w.xpvmax (w.ypvmax - lines) ↔
        q ∈ w.area ∧ (q.1, q.2 + lines) ∈ w.area := by
    intro q
    simp only [Window.area, rect, Set.mem_ofPred_eq]
    omega
  refine ⟨fun q hq hlow => ?_, fun q hq hhigh => ?_, fun a ha => ?_⟩
  · exact draw_cell_of_mem (hw.inStrip hq) (hbottom.mpr ⟨hq, hlow⟩)
  · have hsource : (q.1, q.2 + lines) ∈ w.area := by
      obtain ⟨hx, hx', hy, hy'⟩ := hq
      exact ⟨hx, hx', by simp only; omega, by simp only; omega⟩
    rw [draw_cell_of_notMem (hw.inStrip hq)
        fun h => not_le.mpr hhigh (hbottom.mp h).2,
      draw_cell_of_mem (hw.inStrip hq) (hcopied.mpr ⟨hq, hsource⟩)]
    exact ⟨hsource, rfl⟩
  · rw [draw_of_notMem fun h => ha (hbottom.mp h).1,
      draw_of_notMem fun h => ha (hcopied.mp h).1]

/-- Scrolling is the window's move to the line. -/
theorem scrollForLine_shows {s : Screen} {p : Page} (h : Aligned s p)
    (hle : s.win.yvpos ≤ s.win.ypvmax)
    (hbelow : s.win.yvpos + s.win.font.height > s.win.ypvmax) :
    Shows (scrollForLine s) p.makeRoom ∧ Keeps s (scrollForLine s) := by
  obtain ⟨hpage, hvalid, hxvsize, hyvsize, hfits, hcol, hrow, hink⟩ := h
  obtain ⟨s, fb⟩ := s
  have hfits' := hfits.height_le
  have hnonneg := hfits.height_nonneg
  generalize hdiff : s.font.height - (s.ypvmax - s.yvpos) = diff
  simp only at hpage hvalid hfits hcol hrow hink hle hbelow hfits' hnonneg
  have hscreen : scrollForLine ⟨s, fb⟩ =
      ⟨{ s with yvpos := s.yvpos - diff },
        windowScroll { s with yvpos := s.yvpos - diff } diff fb⟩ := by
    rw [scrollForLine, hdiff]
  have hline : p.line = s.yvpos + p.top := congrArg Page.line hpage
  have hlower : p.lower = s.ypvmax := congrArg Page.lower hpage
  have hfont : p.font = s.font := congrArg Page.font hpage
  have hbkg : p.bkg = s.bkg := congrArg Page.bkg hpage
  have hroom : p.makeRoom = { p with
      top := p.top + diff
      ink := paint { q | p.line ≤ q.2 } (fun _ => p.bkg) p.ink } := by
    have htop : p.line + p.font.height - p.lower = p.top + diff := by
      rw [hline, hlower, hfont]
      omega
    rw [Page.makeRoom, if_pos, htop]
    rw [hline, hlower, hfont]
    omega
  have hvalid' : Window.Valid { s with yvpos := s.yvpos - diff } :=
    { hvalid with }
  obtain ⟨hcleared, hmoved, houtside⟩ := windowScroll_shows hvalid'
    (show 0 < diff by omega)
    (show s.ypvmin ≤ s.yvpos - diff by omega)
    (show s.yvpos - diff + diff ≤ s.ypvmax + 1 by omega) fb
  rw [hscreen, hroom]
  refine ⟨⟨⟨?_, hvalid', hxvsize, hyvsize, hfits, hcol, ?_, ?_⟩, ?_⟩, rfl,
    subset_rfl, houtside⟩
  · rw [hpage]
    simp only [Screen.page, Page.mk.injEq, true_and, and_true]
    omega
  · simp only
    omega
  · intro q hq
    simp only
    by_cases hlow : s.yvpos - diff ≤ q.2
    · have hblank : (q.1, q.2 + (p.top + diff)) ∈
          { q : ℤ × ℤ | p.line ≤ q.2 } :=
        show p.line ≤ q.2 + (p.top + diff) by omega
      rw [paint_of_mem hblank, hbkg]
      exact hcleared q hq hlow
    · have hkept : (q.1, q.2 + (p.top + diff)) ∉
          { q : ℤ × ℤ | p.line ≤ q.2 } :=
        show ¬p.line ≤ q.2 + (p.top + diff) by omega
      obtain ⟨hsource, hshown⟩ := hmoved q hq (not_le.mp hlow)
      have hsum : q.2 + diff + p.top = q.2 + (p.top + diff) := by omega
      rw [paint_of_notMem hkept, ← hsum]
      exact hshown.trans (hink _ hsource)
  · simp only
    omega

/-- Scrolling, where it is needed, makes room for the line. -/
theorem makeRoom_shows {s : Screen} {p : Page} (h : Aligned s p)
    (hle : s.win.yvpos ≤ s.win.ypvmax) :
    let s' := if s.win.yvpos + s.win.font.height > s.win.ypvmax then
      scrollForLine s else s
    Shows s' p.makeRoom ∧ Keeps s s' := by
  intro s'
  by_cases hbelow : s.win.yvpos + s.win.font.height > s.win.ypvmax
  · have hs' : s' = scrollForLine s := if_pos hbelow
    rw [hs']
    exact scrollForLine_shows h hle hbelow
  · have hs' : s' = s := if_neg hbelow
    have hroom : p.makeRoom = p := by
      have hline : p.line = s.win.yvpos + p.top := congrArg Page.line h.page
      have hlower : p.lower = s.win.ypvmax := congrArg Page.lower h.page
      have hfont : p.font = s.win.font := congrArg Page.font h.page
      rw [Page.makeRoom, if_neg]
      rw [hline, hlower, hfont]
      omega
    rw [hs', hroom]
    exact ⟨⟨h, not_lt.mp hbelow⟩, Keeps.refl s⟩

/-- One pass of the loop is enough. -/
theorem newlineLoop_eq (s : Screen) :
    newlineLoop s =
      if s.win.yvpos + s.win.font.height > s.win.ypvmax then scrollForLine s
      else s := by
  rw [newlineLoop]
  split
  · rw [newlineLoop, if_neg]
    simp only [scrollForLine]
    omega
  · rfl

theorem newline_shows {s : Screen} {p : Page} (h : Shows s p) :
    Shows (putNewline s) p.newline ∧ Keeps s (putNewline s) := by
  have hpage := h.page
  have hnonneg := h.fits.height_nonneg
  have hrow := h.yvpos_ge
  have haligned : Aligned { s with win := { s.win with
      xvpos := s.win.xpvmin, yvpos := s.win.yvpos + s.win.font.height } }
      { p with col := p.left, line := p.line + p.font.height } := by
    refine ⟨?_, { h.valid with }, h.xvsize, h.yvsize, h.fits, le_refl _, ?_,
      h.ink⟩
    · rw [hpage]
      simp only [Screen.page, Page.mk.injEq, true_and, and_true]
      omega
    · simp only
      omega
  have hroom := makeRoom_shows haligned h.room
  rw [← newlineLoop_eq] at hroom
  exact ⟨hroom.1, hroom.2.xpsize, hroom.2.area, hroom.2.outside⟩

/-- A character on the page is the character on the screen, moved. -/
theorem glyphSet_shift (f : Font) (c : Char8) (solid : Bool) (col line top : ℤ)
    (q : ℤ × ℤ) :
    (q.1, q.2 + top) ∈ glyphSet f c solid col (line + top) ↔
      q ∈ glyphSet f c solid col line := by
  have hrow : q.2 + top - (line + top) = q.2 - line := by omega
  simp only [glyphSet, Set.mem_ofPred_eq, hrow]
  constructor
  · rintro ⟨hx, hx', hy, hy', hset⟩
    exact ⟨hx, hx', by omega, by omega, hset⟩
  · rintro ⟨hx, hx', hy, hy', hset⟩
    exact ⟨hx, hx', by omega, by omega, hset⟩

theorem glyphPicture_shift (f : Font) (c : Char8) (pen bkg : Color)
    (col line top : ℤ) (q : ℤ × ℤ) :
    glyphPicture f c pen bkg col (line + top) (q.1, q.2 + top) =
      glyphPicture f c pen bkg col line q := by
  have hrow : q.2 + top - (line + top) = q.2 - line := by omega
  simp only [glyphPicture, hrow]

/-- A character that fits before the right edge. -/
theorem write_shows {s : Screen} {p : Page} (h : Shows s p) {f : Font}
    (hf : s.win.font = f) {c : Char8}
    (hcol : s.win.xvpos + f.width c ≤ s.win.xpvmax) :
    let w := s.win
    let s' : Screen := ⟨{ w with xvpos := w.xvpos + f.width c },
      forUp (fun i => glyphRow w (w.yvpos + i) (f.width c) w.xvpos
        (f.fontTable (f.charindex c * f.height + i)))
        0 (f.height - 1) s.fb⟩
    Shows s' (p.write c) ∧ Keeps s s' := by
  subst hf
  intro w s'
  have hxmin : 0 ≤ w.xpvmin := h.valid.xpvmin_nonneg
  have hxmax : w.xpvmax < w.xpsize := h.valid.xpvmax_lt
  have hxvpos : w.xpvmin ≤ w.xvpos := h.xvpos_ge
  have hyvpos : w.ypvmin ≤ w.yvpos := h.yvpos_ge
  have hroom : w.yvpos + w.font.height ≤ w.ypvmax := h.room
  change w.xvpos + w.font.width c ≤ w.xpvmax at hcol
  have hglyph := glyph_eq w c (by omega) (by omega) s.fb
  have hinside : glyphSet w.font c w.tfont w.xvpos w.yvpos ⊆ w.area := by
    rintro q ⟨hx, hx', hy, hy', _⟩
    exact ⟨by omega, by omega, by omega, by omega⟩
  have hpage : p.write c = { p with
      ink := paint (glyphSet w.font c w.tfont w.xvpos (w.yvpos + p.top))
        (glyphPicture w.font c w.pen w.bkg w.xvpos (w.yvpos + p.top)) p.ink
      col := w.xvpos + w.font.width c } := by
    have hcol : p.col = w.xvpos := congrArg Page.col h.page
    have hline : p.line = w.yvpos + p.top := congrArg Page.line h.page
    have hpen : p.pen = w.pen := congrArg Page.pen h.page
    have hbkg : p.bkg = w.bkg := congrArg Page.bkg h.page
    have hsolid : p.solid = w.tfont := congrArg Page.solid h.page
    have hfont : p.font = w.font := congrArg Page.font h.page
    rw [Page.write, hcol, hline, hpen, hbkg, hsolid, hfont]
  have hdrawn := h.toAligned.draw
    (glyphSet w.font c w.tfont w.xvpos w.yvpos)
    (glyphPicture w.font c w.pen w.bkg w.xvpos w.yvpos)
    (paint (glyphSet w.font c w.tfont w.xvpos (w.yvpos + p.top))
      (glyphPicture w.font c w.pen w.bkg w.xvpos (w.yvpos + p.top)) p.ink)
    (fun q _ hq => by
      rw [paint_of_mem ((glyphSet_shift ..).mpr hq), glyphPicture_shift])
    (fun q _ hq => paint_of_notMem (fun hp => hq ((glyphSet_shift ..).mp hp))
      _ _)
  have hs' : s' = ⟨{ w with xvpos := w.xvpos + w.font.width c },
      draw w.xpsize (glyphSet w.font c w.tfont w.xvpos w.yvpos)
        (glyphPicture w.font c w.pen w.bkg w.xvpos w.yvpos) s.fb⟩ :=
    congrArg (Screen.mk _) hglyph
  have hkeeps := keeps_draw s hinside
    (glyphPicture w.font c w.pen w.bkg w.xvpos w.yvpos)
  rw [hs', hpage]
  refine ⟨⟨⟨?_, { h.valid with }, h.xvsize, h.yvsize, h.fits, ?_, hyvpos,
    hdrawn.ink⟩, hroom⟩, rfl, subset_rfl, hkeeps.outside⟩
  · rw [h.page]
    rfl
  · simp only
    omega

/-- Making room changes the ink and where the window is. -/
theorem Page.makeRoom_cases (p : Page) :
    ∃ top ink, p.makeRoom = { p with top := top, ink := ink } := by
  rw [Page.makeRoom]
  split
  · exact ⟨_, _, rfl⟩
  · exact ⟨p.top, p.ink, rfl⟩

/-- What a font can write. -/
def Stroke.Accepted (f : Font) : Stroke → Prop
  | .char c => c ≠ ch '\n' ∧ f.has c
  | _ => True

theorem stroke_shows {s : Screen} {p : Page} (h : Shows s p) {k : Stroke}
    (hk : k.Accepted s.win.font) :
    Shows (stroke s k) (p.stroke k) ∧ Keeps s (stroke s k) := by
  have hcol : p.col = s.win.xvpos := congrArg Page.col h.page
  have hright : p.right = s.win.xpvmax := congrArg Page.right h.page
  have hleft : p.left = s.win.xpvmin := congrArg Page.left h.page
  have hfont : p.font = s.win.font := congrArg Page.font h.page
  cases k with
  | newline => exact newline_shows h
  | wrap wlen =>
      rw [stroke, Page.stroke, hcol, hright]
      split
      · exact newline_shows h
      · exact ⟨h, Keeps.refl s⟩
  | char c =>
      rw [stroke, Page.stroke, putChar, if_neg hk.1, hcol, hright, hfont]
      simp only
      split
      · have hnext := newline_shows h
        have hfits := h.fits.width_le c hk.2
        obtain ⟨top, ink, hnewline⟩ := Page.makeRoom_cases
          { p with col := p.left, line := p.line + p.font.height }
        have hstart : (putNewline s).win.xvpos = s.win.xpvmin := by
          have hpos : p.newline.col = (putNewline s).win.xvpos :=
            congrArg Page.col hnext.1.page
          rw [← hpos, Page.newline, hnewline, hleft]
        have hend : (putNewline s).win.xpvmax = s.win.xpvmax := by
          have hpos : p.newline.right = (putNewline s).win.xpvmax :=
            congrArg Page.right hnext.1.page
          rw [← hpos, Page.newline, hnewline, hright]
        have hsame : (putNewline s).win.font = s.win.font :=
          stroke_font s .newline
        have hwrite := write_shows hnext.1 hsame (c := c) (by
          rw [hstart, hend]
          omega)
        exact ⟨hwrite.1, hnext.2.trans hwrite.2⟩
      · exact write_shows h rfl (by omega)

/-- A stroke changes the ink, the text position and where the window is. -/
theorem Page.stroke_cases (p : Page) (k : Stroke) :
    ∃ top col line ink, p.stroke k =
      { p with top := top, col := col, line := line, ink := ink } := by
  have hnewline : ∃ top line ink, p.newline =
      { p with top := top, col := p.left, line := line, ink := ink } := by
    obtain ⟨top, ink, hroom⟩ := Page.makeRoom_cases
      { p with col := p.left, line := p.line + p.font.height }
    exact ⟨top, _, ink, hroom⟩
  obtain ⟨top, line, ink, hnewline⟩ := hnewline
  cases k with
  | newline => exact ⟨top, _, line, ink, hnewline⟩
  | wrap wlen =>
      rw [Page.stroke]
      split
      · exact ⟨top, _, line, ink, hnewline⟩
      · exact ⟨p.top, p.col, p.line, p.ink, rfl⟩
  | char c =>
      rw [Page.stroke]
      split
      · rw [hnewline]
        exact ⟨top, _, line, _, rfl⟩
      · exact ⟨p.top, _, p.line, _, rfl⟩

theorem Page.strokes_cases (p : Page) (ks : List Stroke) :
    ∃ top col line ink, ks.foldl Page.stroke p =
      { p with top := top, col := col, line := line, ink := ink } := by
  induction ks generalizing p with
  | nil => exact ⟨p.top, p.col, p.line, p.ink, rfl⟩
  | cons k ks ih =>
      obtain ⟨top, col, line, ink, hfirst⟩ := p.stroke_cases k
      obtain ⟨top', col', line', ink', hrest⟩ := ih (p.stroke k)
      refine ⟨top', col', line', ink', ?_⟩
      rw [List.foldl_cons, hrest, hfirst]

theorem strokes_shows {s : Screen} {p : Page} (h : Shows s p) {ks : List Stroke}
    (hks : ∀ k ∈ ks, k.Accepted s.win.font) :
    Shows (ks.foldl EmbBoard.Swim.stroke s) (ks.foldl Page.stroke p) ∧
      Keeps s (ks.foldl EmbBoard.Swim.stroke s) := by
  induction ks generalizing s p with
  | nil => exact ⟨h, Keeps.refl s⟩
  | cons k ks ih =>
      have hfirst := stroke_shows h (hks k List.mem_cons_self)
      have hrest := ih hfirst.1 (fun j hj => by
        rw [EmbBoard.Swim.stroke_font]
        exact hks j (List.mem_cons_of_mem k hj))
      exact ⟨hrest.1, hfirst.2.trans hrest.2⟩

/-! ## Fonts of the library -/

/-- A font with the blank and the characters of words has what a text is written
with. -/
theorem textStrokes_accepted (f : Font) (text : List Char8) :
    ∀ k ∈ textStrokes f text, k.Accepted f := by
  induction text with
  | nil => simp [textStrokes]
  | cons c text ih =>
      rw [textStrokes]
      split
      · exact List.forall_mem_cons.mpr ⟨trivial, ih⟩
      · rename_i hnl
        split
        · rename_i hhas
          exact List.forall_mem_cons.mpr ⟨⟨hnl, hhas⟩, ih⟩
        · exact ih

theorem Font.Fits.accepted_blank {f : Font} {width height : ℤ}
    (hf : f.Fits width height) : (Stroke.char (ch ' ')).Accepted f := by
  have hfirst := hf.firstChar_le
  have hlast := hf.lastChar_ge
  refine ⟨by decide, ?_⟩
  simp only [Font.has, Bool.and_eq_true, decide_eq_true_eq]
  exact ⟨hfirst, BitVec.le_trans (by decide : ch ' ' ≤ 0x7E) hlast⟩

theorem Font.Fits.accepted_word {f : Font} {width height : ℤ}
    (hf : f.Fits width height) {c : Char8} (hword : isWordChar c) :
    (Stroke.char c).Accepted f := by
  simp only [isWordChar, Bool.and_eq_true, decide_eq_true_eq] at hword
  refine ⟨?_, ?_⟩
  · rintro rfl
    exact absurd hword.1 (by decide)
  · simp only [Font.has, Bool.and_eq_true, decide_eq_true_eq]
    exact ⟨BitVec.le_trans hf.firstChar_le (BitVec.le_of_lt hword.1),
      BitVec.le_trans hword.2 hf.lastChar_ge⟩

theorem Font.Fits.ltextStrokes_accepted {f : Font} {width height : ℤ}
    (hf : f.Fits width height) (inWord : Bool) (text : List Char8) :
    ∀ k ∈ ltextStrokes f inWord text, k.Accepted f := by
  induction text generalizing inWord with
  | nil => simp [ltextStrokes]
  | cons c text ih =>
      rw [ltextStrokes]
      split
      · rename_i hin
        exact List.forall_mem_cons.mpr ⟨hf.accepted_word hin.2, ih true⟩
      · split
        · exact List.forall_mem_cons.mpr ⟨trivial, ih false⟩
        · rename_i hnl
          split
          · rename_i hhas
            split
            · rename_i hword
              exact List.forall_mem_cons.mpr ⟨trivial,
                List.forall_mem_cons.mpr ⟨hf.accepted_word hword, ih true⟩⟩
            · exact List.forall_mem_cons.mpr ⟨⟨hnl, hhas⟩, ih false⟩
          · exact List.forall_mem_cons.mpr ⟨hf.accepted_blank, ih false⟩

end EmbBoard.Swim

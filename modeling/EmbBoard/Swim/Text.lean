import EmbBoard.Swim.Drawing

/-!
# Text in a window

The text functions of the graphics library: characters at a position that
moves to the right, new lines, and scrolling once the next line would not fit
above the lower edge of the draw area.
-/

namespace EmbBoard.Swim

open Canvas

/-- A window and the frame buffer behind it. -/
structure Screen where
  win : Window
  fb : FrameBuffer

abbrev Char8 := BitVec 8

def ch (c : Char) : Char8 := BitVec.ofNat 8 c.toNat

/-- `font_height` -/
def Font.height (f : Font) : ℤ := f.fontHeight.toInt

/-- The index of a character in the tables of a font. -/
def Font.charindex (f : Font) (c : Char8) : ℤ := c.toNat - f.firstChar.toNat

/-- The width of a character. -/
def Font.width (f : Font) (c : Char8) : ℕ :=
  (f.fontWidthTable (f.charindex c)).toNat

/-- Whether a character is one that a word consists of. -/
def isWordChar (c : Char8) : Bool := ch ' ' < c && c ≤ 0x7E

/-! ## Scrolling -/

/-- `swim_window_scroll`.  Both pointers run along a row. -/
def windowScroll (w : Window) (lines : ℤ) (fb : FrameBuffer) : FrameBuffer :=
  let fb := forUp (fun yref1 =>
    forUp (fun x fb => w.put x yref1 (fb (x + (yref1 + lines) * w.xpsize)) fb)
      w.xpvmin w.xpvmax) w.ypvmin (w.ypvmax - lines) fb
  forUp (fun yref1 => forUp (fun x => w.put x yref1 w.bkg) w.xpvmin w.xpvmax)
    w.yvpos w.ypvmax fb

/-- Scrolls just enough for the line at the text position. -/
def scrollForLine (s : Screen) : Screen :=
  let diff := s.win.font.height - (s.win.ypvmax - s.win.yvpos)
  let w := { s.win with yvpos := s.win.yvpos - diff }
  ⟨w, windowScroll w diff s.fb⟩

/-- The loop of `swim_put_newline`. -/
def newlineLoop (s : Screen) : Screen :=
  if s.win.yvpos + s.win.font.height > s.win.ypvmax then
    newlineLoop (scrollForLine s)
  else s
termination_by (s.win.yvpos + s.win.font.height - s.win.ypvmax).toNat
decreasing_by
  simp only [scrollForLine]
  omega

/-- `swim_put_newline` -/
def putNewline (s : Screen) : Screen :=
  newlineLoop { s with win := { s.win with
    xvpos := s.win.xpvmin, yvpos := s.win.yvpos + s.win.font.height } }

/-! ## Characters and texts -/

/-- One row of a character: as many pixels as the count says. -/
def glyphRow (w : Window) (y : ℤ) :
    ℕ → ℤ → BitVec 16 → FrameBuffer → FrameBuffer
  | 0, _, _, fb => fb
  | j + 1, x, chardata, fb =>
      let fb :=
        if chardata &&& 0x8000 ≠ 0 then w.put x y w.pen fb
        else if w.tfont then w.put x y w.bkg fb
        else fb
      glyphRow w y j (x + 1) (chardata <<< 1) fb

/-- `swim_put_char` -/
def putChar (s : Screen) (textchar : Char8) : Screen :=
  if textchar = ch '\n' then putNewline s
  else
    let font := s.win.font
    let charindex := font.charindex textchar
    let width := font.width textchar
    let s := if s.win.xvpos + width > s.win.xpvmax then putNewline s else s
    let w := s.win
    let fb := forUp (fun i =>
      glyphRow w (w.yvpos + i) width w.xvpos
        (font.fontTable (charindex * font.height + i)))
      0 (font.height - 1) s.fb
    ⟨{ w with xvpos := w.xvpos + width }, fb⟩

/-- Whether a font has a character. -/
def Font.has (f : Font) (c : Char8) : Bool := f.firstChar ≤ c && c ≤ f.lastChar

/-- `swim_put_text`, on the text before the terminator. -/
def putText (s : Screen) : List Char8 → Screen
  | [] => s
  | c :: text =>
      if c = ch '\n' then putText (putNewline s) text
      else if s.win.font.has c then putText (putChar s c) text
      else putText s text

/-- `swim_get_word_len`, in sixteen bits. -/
def getWordLen (f : Font) : List Char8 → BitVec 16
  | [] => 0
  | c :: text =>
      if isWordChar c then BitVec.ofNat 16 (f.width c) + getWordLen f text
      else 0

/-- The loop of `swim_put_word`, with the text that it leaves. -/
def putWordChars (s : Screen) : List Char8 → Screen × List Char8
  | [] => (s, [])
  | c :: text =>
      if isWordChar c then putWordChars (putChar s c) text else (s, c :: text)

/-- `swim_put_word` -/
def putWord (s : Screen) (text : List Char8) : Screen × List Char8 :=
  let s :=
    if (getWordLen s.win.font text).toInt + s.win.xvpos > s.win.xpvmax then
      putNewline s
    else s
  putWordChars s text

theorem length_putWordChars_le (s : Screen) (text : List Char8) :
    (putWordChars s text).2.length ≤ text.length := by
  induction text generalizing s with
  | nil => exact le_refl _
  | cons c text ih =>
      rw [putWordChars]
      split
      · exact (ih _).trans (Nat.le_succ _)
      · exact le_refl _

/-- `swim_put_ltext` -/
def putLtext (s : Screen) : List Char8 → Screen
  | [] => s
  | c :: text =>
      if c = ch '\n' then putLtext (putNewline s) text
      else if s.win.font.has c then
        if _hword : isWordChar c then
          let next := putWord s (c :: text)
          putLtext next.1 next.2
        else putLtext (putChar s c) text
      else putLtext (putChar s (ch ' ')) text
termination_by text => text.length
decreasing_by
  · simp
  · rw [putWord, putWordChars, if_pos _hword]
    exact Nat.lt_succ_of_le (length_putWordChars_le _ _)
  · simp
  · simp

/-! ## Positions, fonts and colours -/

/-- A position limited to the draw area. -/
def limit (v low high : ℤ) : ℤ :=
  if v < low then low else if v > high then high else v

/-- `swim_set_xy` -/
def setXy (s : Screen) (x y : ℤ) : Screen :=
  { s with win := { s.win with
    xvpos := limit (x + s.win.xpvmin) s.win.xpvmin s.win.xpvmax
    yvpos := limit (y + s.win.ypvmin) s.win.ypvmin s.win.ypvmax } }

/-- `swim_put_text_xy` -/
def putTextXy (s : Screen) (text : List Char8) (x y : ℤ) : Screen :=
  putText (setXy s x y) text

/-- `swim_set_font` -/
def setFont (s : Screen) (font : Font) : Screen :=
  let s := { s with win := { s.win with font := font } }
  if s.win.yvpos + font.height > s.win.ypvmax then scrollForLine s else s

/-- `swim_set_font_trasparency` -/
def setFontTransparency (s : Screen) (trans : Bool) : Screen :=
  { s with win := { s.win with tfont := trans } }

/-- `swim_set_pen_color` -/
def setPenColor (s : Screen) (c : Color) : Screen :=
  { s with win := { s.win with pen := c } }

/-- `swim_set_fill_color` -/
def setFillColor (s : Screen) (c : Color) : Screen :=
  { s with win := { s.win with fill := c } }

/-- `swim_set_bkg_color` -/
def setBkgColor (s : Screen) (c : Color) : Screen :=
  { s with win := { s.win with bkg := c } }

/-- The background of a title bar, with all colours the same while the box is
drawn. -/
def titleBar (s : Screen) (ttlbkcolor : Color) : Option Screen :=
  let bar := { s.win with fill := ttlbkcolor, bkg := ttlbkcolor,
                          pen := ttlbkcolor }
  (putBox bar 0 0 s.win.xvsize (4 + s.win.font.height - 2) s.fb).map fun fb =>
    { s with fb := fb }

/-- The title, with a transparent background while it is written. -/
def titleText (s : Screen) (title : List Char8) : Screen :=
  let t := putText { s with win := { s.win with
    xvpos := s.win.xpvmin + 2, yvpos := s.win.ypvmin + 1, tfont := false } } title
  { t with win := { t.win with tfont := s.win.tfont } }

/-- The line below the title bar.  Its end is given in the coordinates of the
display. -/
def titleLine (s : Screen) : Option Screen :=
  (putLine s.win 0 (4 + s.win.font.height - 1) s.win.xpvmax
    (4 + s.win.font.height - 1) s.fb).map fun fb => { s with fb := fb }

/-- The text position and the smaller client area below a title bar. -/
def Window.belowTitle (w : Window) : Window :=
  { w with
    ypmin := w.ypmin + w.font.height + 4
    ypvmin := w.ypvmin + w.font.height + 4
    yvsize := w.yvsize - w.font.height + 4
    xvpos := w.xpvmin
    yvpos := w.ypvmin + w.font.height + 4 }

/-- `swim_set_title` -/
def setTitle (s : Screen) (title : Option (List Char8)) (ttlbkcolor : Color) :
    Option Screen :=
  match title with
  | none => some s
  | some title =>
      if s.win.font.height < 4 + s.win.yvsize then do
        let s ← titleBar s ttlbkcolor
        let s ← titleLine (titleText s title)
        return { s with win := s.win.belowTitle }
      else some s

/-! ## What scrolling and characters draw -/

/-- Scrolling moves the rows up and clears the rows from the text position
on. -/
theorem windowScroll_eq {w : Window} (hw : w.Valid) {lines : ℤ}
    (hpos : 0 < lines) (hle : lines ≤ w.ypvmax - w.ypvmin + 1)
    (fb : FrameBuffer) :
    windowScroll w lines fb =
      draw w.xpsize (rect w.xpvmin w.yvpos w.xpvmax w.ypvmax) (fun _ => w.bkg)
        (draw w.xpsize (rect w.xpvmin w.ypvmin w.xpvmax (w.ypvmax - lines))
          (fun p => fb (cell w.xpsize (p.1, p.2 + lines))) fb) := by
  obtain ⟨hxmin, hxle, hxmax, hymin, hyle, hymax, _⟩ := hw
  rw [windowScroll, fillRows_eq hxmin hxmax]
  congr 1
  have hstrip : ∀ {x y}, w.xpvmin ≤ x → x ≤ w.xpvmax →
      InStrip w.xpsize (x, y) := fun hx hx' => ⟨by omega, by omega⟩
  -- The rows above `y` show the rows `lines` below them.
  have hrows := forUp_invariant (a := w.ypvmin) (b := w.ypvmax - lines)
    (fun yref1 =>
      forUp (fun x fb => w.put x yref1 (fb (x + (yref1 + lines) * w.xpsize)) fb)
        w.xpvmin w.xpvmax)
    (fun y fb' => fb' = draw w.xpsize (rect w.xpvmin w.ypvmin w.xpvmax (y - 1))
      (fun p => fb (cell w.xpsize (p.1, p.2 + lines))) fb)
    (by omega) (s := fb) ?_ ?_
  · rwa [Int.add_sub_cancel] at hrows
  · have hempty : rect w.xpvmin w.ypvmin w.xpvmax (w.ypvmin - 1) = ∅ := by
      ext p
      refine iff_of_false ?_ (Set.notMem_empty p)
      rintro ⟨_, _, hlow, hhigh⟩
      omega
    rw [hempty, draw_empty]
  · rintro y _ hy hyb rfl
    -- In the row `y` the pixels to the left of `x` are copied.
    have hrow := forUp_invariant (a := w.xpvmin) (b := w.xpvmax)
      (fun x fb => w.put x y (fb (x + (y + lines) * w.xpsize)) fb)
      (fun x fb' => fb' = draw w.xpsize
        (rect w.xpvmin y (x - 1) y ∪ rect w.xpvmin w.ypvmin w.xpvmax (y - 1))
        (fun p => fb (cell w.xpsize (p.1, p.2 + lines))) fb)
      (by omega)
      (s := draw w.xpsize (rect w.xpvmin w.ypvmin w.xpvmax (y - 1))
        (fun p => fb (cell w.xpsize (p.1, p.2 + lines))) fb) ?_ ?_
    · rw [hrow]
      congr 1
      ext p
      simp only [rect, Set.mem_union, Set.mem_ofPred_eq]
      omega
    · congr 1
      ext p
      simp only [rect, Set.mem_union, Set.mem_ofPred_eq]
      omega
    · rintro x _ hx hxb rfl
      have hsource : (x, y + lines) ∉
          rect w.xpvmin y (x - 1) y ∪ rect w.xpvmin w.ypvmin w.xpvmax (y - 1) := by
        simp only [rect, Set.mem_union, Set.mem_ofPred_eq]
        omega
      change w.put x y (draw w.xpsize _ _ fb (cell w.xpsize (x, y + lines))) _ = _
      rw [draw_cell_of_notMem (hstrip hx hxb) hsource]
      refine (update_cell_of_eq (hstrip hx hxb)
        (fun p => fb (cell w.xpsize (p.1, p.2 + lines))) rfl).trans ?_
      rw [draw_draw]
      congr 1
      ext ⟨a, b⟩
      simp only [rect, Set.mem_union, Set.mem_singleton_iff, Set.mem_ofPred_eq,
        Prod.mk.injEq]
      omega

/-- The pixel of a character, counted from its upper left corner. -/
def Font.bit (f : Font) (c : Char8) (x y : ℤ) : Bool :=
  (f.fontTable (f.charindex c * f.height + y)).getMsbD x.toNat

/-- The pixels that a character changes: its own, or with a solid background
all of its rectangle. -/
def glyphSet (f : Font) (c : Char8) (solid : Bool) (col line : ℤ) :
    Set (ℤ × ℤ) :=
  { q | col ≤ q.1 ∧ q.1 < col + f.width c ∧ line ≤ q.2 ∧
    q.2 < line + f.height ∧ (f.bit c (q.1 - col) (q.2 - line) ∨ solid) }

def glyphPicture (f : Font) (c : Char8) (pen bkg : Color) (col line : ℤ) :
    ℤ × ℤ → Color :=
  fun q => if f.bit c (q.1 - col) (q.2 - line) then pen else bkg

theorem chardata_bit (chardata : BitVec 16) :
    chardata &&& 0x8000 ≠ 0 ↔ chardata.getMsbD 0 = true := by
  have htwoPow : (0x8000 : BitVec 16) = BitVec.twoPow 16 15 := rfl
  have hbit : chardata.getMsbD 0 = chardata.getLsbD 15 := by
    rw [BitVec.getMsbD_eq_getLsbD]
    rfl
  rw [htwoPow, BitVec.and_twoPow, hbit]
  split
  · rename_i h
    exact iff_of_true (by decide) h
  · rename_i h
    exact iff_of_false (not_not.mpr rfl) h

/-- The first pixel of a row of a character. -/
theorem glyphPixel_eq (w : Window) {x y : ℤ} (hx : 0 ≤ x) (hx' : x < w.xpsize)
    (chardata : BitVec 16) (fb : FrameBuffer) :
    (if chardata &&& 0x8000 ≠ 0 then w.put x y w.pen fb
      else if w.tfont then w.put x y w.bkg fb else fb) =
      draw w.xpsize { q | q = (x, y) ∧ (chardata.getMsbD 0 ∨ w.tfont) }
        (fun q => if chardata.getMsbD (q.1 - x).toNat then w.pen else w.bkg)
        fb := by
  have hput : ∀ c, (if chardata.getMsbD 0 then w.pen else w.bkg) = c →
      (chardata.getMsbD 0 ∨ w.tfont) → w.put x y c fb =
        draw w.xpsize { q | q = (x, y) ∧ (chardata.getMsbD 0 ∨ w.tfont) }
          (fun q => if chardata.getMsbD (q.1 - x).toNat then w.pen else w.bkg)
          fb := by
    intro c hc hset
    have hpixel : { q : ℤ × ℤ | q = (x, y) ∧
        (chardata.getMsbD 0 = true ∨ w.tfont = true) } = {(x, y)} := by
      ext q
      simp [hset]
    rw [hpixel]
    refine update_cell_of_eq (p := (x, y)) ⟨hx, hx'⟩ _ ?_
    rwa [Int.sub_self]
  rw [if_congr (chardata_bit chardata) rfl rfl]
  split
  · rename_i hbit
    exact hput w.pen (if_pos hbit) (Or.inl hbit)
  · rename_i hbit
    split
    · rename_i htfont
      exact hput w.bkg (if_neg hbit) (Or.inr htfont)
    · rename_i htfont
      have hempty : { q : ℤ × ℤ | q = (x, y) ∧
          (chardata.getMsbD 0 = true ∨ w.tfont = true) } = ∅ := by
        ext q
        simp [hbit, htfont]
      rw [hempty, draw_empty]

/-- A row of a character. -/
theorem glyphRow_eq (w : Window) (y : ℤ) (n : ℕ) {x : ℤ} (hx : 0 ≤ x)
    (hn : x + n ≤ w.xpsize) (chardata : BitVec 16) (fb : FrameBuffer) :
    glyphRow w y n x chardata fb =
      draw w.xpsize
        { q | q.2 = y ∧ x ≤ q.1 ∧ q.1 < x + n ∧
          (chardata.getMsbD (q.1 - x).toNat ∨ w.tfont) }
        (fun q => if chardata.getMsbD (q.1 - x).toNat then w.pen else w.bkg)
        fb := by
  induction n generalizing x chardata fb with
  | zero =>
      have hempty : { q : ℤ × ℤ | q.2 = y ∧ x ≤ q.1 ∧ q.1 < x + (0 : ℕ) ∧
          (chardata.getMsbD (q.1 - x).toNat ∨ w.tfont) } = ∅ := by
        ext q
        refine iff_of_false ?_ (Set.notMem_empty q)
        rintro ⟨_, hlow, hhigh, _⟩
        omega
      rw [hempty, draw_empty]
      rfl
  | succ n ih =>
      -- Shifted by one, the data show the pixels behind the first.
      have hshift : ∀ a : ℤ, x + 1 ≤ a →
          (chardata <<< 1).getMsbD (a - (x + 1)).toNat =
            chardata.getMsbD (a - x).toNat := by
        intro a ha
        have hnext : 1 + (a - (x + 1)).toNat = (a - x).toNat := by omega
        rw [BitVec.getMsbD_shiftLeft, Nat.add_comm, hnext]
      rw [glyphRow, glyphPixel_eq w hx (by omega), ih (by omega) (by omega),
        draw_congr (fun q =>
          if chardata.getMsbD (q.1 - x).toNat then w.pen else w.bkg), draw_draw]
      · congr 1
        ext ⟨a, b⟩
        simp only [Set.mem_union, Set.mem_ofPred_eq, Prod.mk.injEq]
        constructor
        · rintro (⟨rfl, hlow, hhigh, hset⟩ | ⟨⟨rfl, rfl⟩, hset⟩)
          · rw [hshift a hlow] at hset
            exact ⟨rfl, by omega, by omega, hset⟩
          · rw [Int.sub_self]
            exact ⟨rfl, le_refl a, by omega, hset⟩
        · rintro ⟨rfl, hlow, hhigh, hset⟩
          rcases hlow.eq_or_lt with rfl | hlt
          · rw [Int.sub_self] at hset
            exact Or.inr ⟨⟨rfl, rfl⟩, hset⟩
          · refine Or.inl ⟨rfl, by omega, by omega, ?_⟩
            rwa [hshift a (by omega)]
      · rintro ⟨a, b⟩ ⟨_, hlow, _⟩
        simp only [hshift a hlow]

/-- A character that fits into the width of the display. -/
theorem glyph_eq (w : Window) (c : Char8) (hx : 0 ≤ w.xvpos)
    (hn : w.xvpos + w.font.width c ≤ w.xpsize) (fb : FrameBuffer) :
    forUp (fun i => glyphRow w (w.yvpos + i) (w.font.width c) w.xvpos
        (w.font.fontTable (w.font.charindex c * w.font.height + i)))
        0 (w.font.height - 1) fb =
      draw w.xpsize (glyphSet w.font c w.tfont w.xvpos w.yvpos)
        (glyphPicture w.font c w.pen w.bkg w.xvpos w.yvpos) fb := by
  have hrow : ∀ i fb, glyphRow w (w.yvpos + i) (w.font.width c) w.xvpos
      (w.font.fontTable (w.font.charindex c * w.font.height + i)) fb =
      draw w.xpsize
        { q | q.2 = w.yvpos + i ∧ w.xvpos ≤ q.1 ∧
          q.1 < w.xvpos + w.font.width c ∧
          (w.font.bit c (q.1 - w.xvpos) i ∨ w.tfont) }
        (glyphPicture w.font c w.pen w.bkg w.xvpos w.yvpos) fb := by
    intro i fb
    rw [glyphRow_eq w _ _ hx hn]
    refine draw_congr _ ?_
    rintro ⟨a, b⟩ ⟨hb, _⟩
    simp only at hb
    simp only [glyphPicture, Font.bit, hb, add_sub_cancel_left]
  rw [forUp_draw fun i fb _ _ => hrow i fb]
  congr 1
  ext ⟨a, b⟩
  simp only [glyphSet, Set.mem_ofPred_eq]
  constructor
  · rintro ⟨i, hi, hib, rfl, hlow, hhigh, hset⟩
    rw [add_sub_cancel_left]
    exact ⟨hlow, hhigh, by omega, by omega, hset⟩
  · rintro ⟨hlow, hhigh, hb, hb', hset⟩
    exact ⟨b - w.yvpos, by omega, by omega, by omega, hlow, hhigh, hset⟩

end EmbBoard.Swim

import Mathlib.Data.Int.Notation
import SqlalchemyCollectd.Lib.Markup
import SqlalchemyCollectd.Lib.OrderedDict

/-!
# SqlalchemyCollectd.Connmon.Display

How connmon writes a text to the terminal. A text has codes in it, such as `#G&` for
green, which are not shown; what is shown is cut off at the right edge of the window.

`curses` is a parameter where it gives numbers to colours. Its window is a grid of cells;
every character takes one of them, as those do that can be printed.
-/

namespace SqlalchemyCollectd

open Markup

abbrev Text := List Char

/-- The exceptions of the display. -/
inductive DisplayError
  | keyError
  | assertionError
  | typeError
  /-- `ValueError`: cannot convert float NaN to integer, or embedded null character. -/
  | valueError
  /-- `OverflowError`: cannot convert float infinity to integer, or int too large to
  convert to float. -/
  | overflowError
  deriving DecidableEq, Repr

/-- `_TEXT_RE`. -/
def textRe : Marks Char := ⟨'#', '&', '\n'⟩

/-- `_text_width`. -/
def textWidth (text : Text) : ℕ :=
  ((text.splitOn '\n').map fun x => (segments textRe x).text.length + 2).foldr max 0

/-! ### Colours -/

/-- The attributes that `curses` gives out. -/
structure Curses where
  colorPair : ℕ → ℕ
  bold : ℕ
  normal : ℕ

/-- The keys of `COLOR_MAP`. -/
def colorMap : List Char := ['K', 'R', 'B', 'C', 'G', 'M', 'W', 'Y', 'D']

/-- The `_color_pairs` that `_start_impl` makes. -/
def Curses.colorPairs (curses : Curses) : OrderedDict Text ℕ :=
  let pairs : OrderedDict Text ℕ :=
    (colorMap.zipIdx 1).foldl (fun d (k, i) => d.set [k] (curses.colorPair i)) .empty
  (pairs.set ['b'] curses.bold).set ['n'] curses.normal

structure Cell where
  char : Char
  attr : ℕ
  deriving DecidableEq

/-- What is written in a window, by row and column. -/
abbrev Window := ℤ → ℤ → Option Cell

structure Winsize where
  rows : ℕ
  cols : ℕ
  deriving DecidableEq

/-- What `_render` changes of a `Display`. -/
structure Frame where
  colorPairs : OrderedDict Text ℕ
  window : Window

/-- `self._color_pairs[color]`. -/
def colorPair (color : Text) : EStateM DisplayError Frame ℕ := do
  match (← get).colorPairs.get? color with
  | some attr => return attr
  | none => throw .keyError

/-- `_get_color`. -/
def getColor (color : Text) : EStateM DisplayError Frame ℕ := do
  match (← get).colorPairs.get? color with
  | some attr => return attr
  | none =>
      if color.length > 1 then
        let mapped := (← color.mapM fun char => colorPair [char]).foldl (· ||| ·) 0
        modify fun frame => { frame with colorPairs := frame.colorPairs.set color mapped }
        return mapped
      else throw .assertionError

/-! ### Writing a text -/

/-- `token[:n]`. -/
def sliceTo (n : ℤ) (token : Text) : Text :=
  token.take (if 0 ≤ n then n.toNat else (token.length + n).toNat)

/-- A window after a text has been written from a place on. -/
def Window.write (winsize : Winsize) (y x : ℤ) (text : Text) (attr : ℕ) (window : Window) : Window :=
  if 0 ≤ y ∧ y < winsize.rows ∧ 0 ≤ x ∧ x < winsize.cols then
    fun row col =>
      if row = y ∧ x ≤ col ∧ col < x + text.length then
        (text[(col - x).toNat]?).map fun char => ⟨char, attr⟩
      else window row col
  else window

/-- `window.addstr`. Outside the window it raises `curses.error`, which is dropped. -/
def addstr (winsize : Winsize) (y x : ℤ) (text : Text) (attr : ℕ) :
    EStateM DisplayError Frame Unit := do
  if '\x00' ∈ text then throw .valueError
  else modify fun frame => { frame with window := frame.window.write winsize y x text attr }

/-- `token[1:]`, where `token.startswith("#")`. -/
def colorCode? : Text → Option Text
  | '#' :: ccode => some ccode
  | _ => none

/-- The `for` loop of `_render_str`. -/
def renderTokens (winsize : Winsize) (y : ℤ) (dflt : ℕ) :
    List Text → ℤ → ℕ → EStateM DisplayError Frame Unit
  | [], _, _ => pure ()
  | token :: tokens, x, currentColor =>
      match colorCode? token with
      | some ccode =>
          if ccode = ['d'] then renderTokens winsize y dflt tokens x dflt
          else do
            let color ← getColor ccode
            renderTokens winsize y dflt tokens x color
      | none => do
          addstr winsize y x (sliceTo (winsize.cols - x) token) currentColor
          if x + token.length > winsize.cols then pure ()
          else renderTokens winsize y dflt tokens (x + token.length) currentColor

/-- The column where `_render_str` begins. -/
def startColumn (cols : ℕ) (x : ℤ) (text : Text) (centerWithinWidth : Option ℤ) : ℤ :=
  if x < 0 then cols - textWidth text
  else match centerWithinWidth with
    | some width => if width > textWidth text then x + (width - textWidth text) / 2 else x
    | none => x

/-- `_render_str`. It is never called with `max_`. -/
def renderStr (winsize : Winsize) (y x : ℤ) (text : Text) (defaultColor : Text := ['D'])
    (centerWithinWidth : Option ℤ := none) : EStateM DisplayError Frame Unit := do
  let dflt ← getColor defaultColor
  renderTokens winsize y dflt (segments textRe text).tokens
    (startColumn winsize.cols x text centerWithinWidth) dflt

/-! ### The colours are what they are -/

/-- The attribute that a colour stands for: that of its letter, or those of all of them. -/
def Curses.color? (curses : Curses) : Text → Option ℕ
  | [] => none
  | [char] => curses.colorPairs.get? [char]
  | color => (color.mapM fun char => curses.colorPairs.get? [char]).map (·.foldl (· ||| ·) 0)

/-- Colours that have been put together before are remembered. -/
structure Curses.Cached (curses : Curses) (colorPairs : OrderedDict Text ℕ) : Prop where
  letter : ∀ char, colorPairs.get? [char] = curses.colorPairs.get? [char]
  known : ∀ color attr, colorPairs.get? color = some attr → curses.color? color = some attr

theorem Curses.keys_colorPairs (curses : Curses) :
    curses.colorPairs.keys = (colorMap ++ ['b', 'n']).map fun char => [char] := rfl

theorem Curses.cached_colorPairs (curses : Curses) : curses.Cached curses.colorPairs := by
  refine ⟨fun _ => rfl, fun color attr h => ?_⟩
  have hkey : color ∈ curses.colorPairs.keys := by
    rw [OrderedDict.mem_keys_iff, h]
    rfl
  rw [curses.keys_colorPairs, List.mem_map] at hkey
  obtain ⟨char, -, rfl⟩ := hkey
  exact h

section Colors

variable {curses : Curses} {frame : Frame} {color : Text}

theorem get_eq (frame : Frame) : (get : EStateM DisplayError Frame Frame) frame = .ok frame frame := rfl

theorem colorPair_eq (color : Text) (frame : Frame) :
    colorPair color frame =
      match frame.colorPairs.get? color with
      | some attr => .ok attr frame
      | none => .error .keyError frame := by
  simp only [colorPair, bind, EStateM.bind, get_eq]
  cases frame.colorPairs.get? color <;> rfl

theorem mapM_colorPair (h : curses.Cached frame.colorPairs) (letters : List Char) :
    letters.mapM (fun char => colorPair [char]) frame =
      match letters.mapM fun char => curses.colorPairs.get? [char] with
      | some attrs => .ok attrs frame
      | none => .error .keyError frame := by
  induction letters with
  | nil => rfl
  | cons char letters ih =>
      rw [List.mapM_cons, List.mapM_cons]
      simp only [bind, EStateM.bind, colorPair_eq, h.letter]
      cases curses.colorPairs.get? [char] with
      | none => rfl
      | some attr =>
          simp only [ih, Option.bind_some]
          cases letters.mapM fun char => curses.colorPairs.get? [char] with
          | none => rfl
          | some attrs => rfl

theorem getColor_of_some (h : curses.Cached frame.colorPairs) {attr : ℕ}
    (hcolor : curses.color? color = some attr) :
    ∃ colorPairs, curses.Cached colorPairs ∧
      getColor color frame = .ok attr { frame with colorPairs } := by
  simp only [getColor, bind, EStateM.bind, get_eq]
  cases hget : frame.colorPairs.get? color with
  -- the colour is remembered
  | some attr' =>
      obtain rfl := Option.some.inj (hcolor.symm.trans (h.known color attr' hget))
      exact ⟨frame.colorPairs, h, rfl⟩
  | none =>
      cases color with
      | nil => cases hcolor
      | cons char rest =>
          cases rest with
          | nil =>
              -- a letter is there from the start, or never
              rw [Curses.color?, ← h.letter, hget] at hcolor
              cases hcolor
          | cons char' rest =>
              obtain ⟨attrs, hattrs, rfl⟩ := Option.map_eq_some_iff.mp hcolor
              have hmapM := mapM_colorPair h (char :: char' :: rest)
              rw [hattrs] at hmapM
              refine ⟨frame.colorPairs.set (char :: char' :: rest) (attrs.foldl (· ||| ·) 0), ?_, ?_⟩
              · refine ⟨fun letter => ?_, fun color attr hset => ?_⟩
                · rw [OrderedDict.get?_set_of_ne _ _ (by simp), h.letter]
                · rw [OrderedDict.get?_set] at hset
                  split at hset
                  · rename_i heq
                    rw [heq, ← Option.some.inj hset]
                    exact hcolor
                  · exact h.known color attr hset
              · simp only [List.length_cons]
                rw [if_pos (by omega)]
                simp only [EStateM.bind, hmapM]
                rfl

theorem getColor_of_none (h : curses.Cached frame.colorPairs)
    (hcolor : curses.color? color = none) : ∃ e, getColor color frame = .error e frame := by
  simp only [getColor, bind, EStateM.bind, get_eq]
  cases hget : frame.colorPairs.get? color with
  | some attr' => cases hcolor.symm.trans (h.known color attr' hget)
  | none =>
      cases color with
      | nil => exact ⟨_, rfl⟩
      | cons char rest =>
          cases rest with
          | nil => exact ⟨_, rfl⟩
          | cons char' rest =>
              have hattrs := Option.map_eq_none_iff.mp hcolor
              have hmapM := mapM_colorPair h (char :: char' :: rest)
              rw [hattrs] at hmapM
              refine ⟨.keyError, ?_⟩
              simp only [List.length_cons]
              rw [if_pos (by omega)]
              simp only [EStateM.bind, hmapM]

end Colors

/-! ### What is on the screen -/

/-- A part of a text in one colour, and the column where it begins. -/
structure TextRun where
  x : ℤ
  text : Text
  attr : ℕ

/-- The cell of a run in a column. A run that begins to the left of the window has none. -/
def TextRun.cell? (run : TextRun) (col : ℤ) : Option Cell :=
  if 0 ≤ run.x ∧ run.x ≤ col then
    (run.text[(col - run.x).toNat]?).map fun char => ⟨char, run.attr⟩
  else none

/-- A window after runs have been written in row `y`. -/
def paint (winsize : Winsize) (y : ℤ) (runs : List TextRun) (window : Window) : Window :=
  fun row col =>
    if row = y ∧ 0 ≤ y ∧ y < winsize.rows ∧ 0 ≤ col ∧ col < winsize.cols then
      (runs.findSome? fun run => run.cell? col).or (window row col)
    else window row col

/-- The runs that tokens stand for, up to the one that goes over the right edge; none if one
of the colours is not known, or if they cannot be written. -/
def drawn (curses : Curses) (cols : ℕ) (dflt : ℕ) : List Text → ℤ → ℕ → Option (List TextRun)
  | [], _, _ => some []
  | token :: tokens, x, currentColor =>
      match colorCode? token with
      | some ccode =>
          if ccode = ['d'] then drawn curses cols dflt tokens x dflt
          else (curses.color? ccode).bind fun color => drawn curses cols dflt tokens x color
      | none =>
          if '\x00' ∈ sliceTo (cols - x) token then none
          else if x + token.length > cols then some [⟨x, token, currentColor⟩]
          else (drawn curses cols dflt tokens (x + token.length) currentColor).map
            (⟨x, token, currentColor⟩ :: ·)

theorem TextRun.lt_of_cell? {run : TextRun} {col : ℤ} {cell : Cell} (h : run.cell? col = some cell) :
    run.x ≤ col ∧ col < run.x + run.text.length := by
  unfold TextRun.cell? at h
  split at h
  · rename_i hcol
    obtain ⟨char, hchar, -⟩ := Option.map_eq_some_iff.mp h
    have hlt := (List.getElem?_eq_some_iff.mp hchar).1
    omega
  · cases h

theorem write_eq_paint (winsize : Winsize) (y x : ℤ) (token : Text) (attr : ℕ) (window : Window) :
    window.write winsize y x (sliceTo (winsize.cols - x) token) attr =
      paint winsize y [⟨x, token, attr⟩] window := by
  funext row col
  by_cases hcell : row = y ∧ 0 ≤ y ∧ y < winsize.rows ∧ 0 ≤ x ∧ x ≤ col ∧ col < x + token.length ∧
      col < winsize.cols
  · -- a cell of the token in the window
    obtain ⟨rfl, hy, hrows, hx, hcol, hlength, hcols⟩ := hcell
    have hslice : (sliceTo (winsize.cols - x) token)[(col - x).toNat]? =
        token[(col - x).toNat]? := by
      rw [sliceTo, if_pos (by omega), List.getElem?_take_of_lt (by omega)]
    have hlt : (col - x).toNat < token.length := by omega
    have hsliced : col < x + (sliceTo (winsize.cols - x) token).length := by
      rw [sliceTo, if_pos (by omega), List.length_take]
      omega
    simp [Window.write, paint, hy, hrows, hx, hcol, hcols, hsliced, hslice, TextRun.cell?,
      List.getElem?_eq_getElem hlt, show x < winsize.cols by omega, show 0 ≤ col by omega]
  -- nothing is written there
  · have hwrite : window.write winsize y x (sliceTo (winsize.cols - x) token) attr row col =
        window row col := by
      unfold Window.write
      split
      · refine if_neg fun hwritten => hcell ?_
        rw [sliceTo, if_pos (by omega), List.length_take] at hwritten
        omega
      · rfl
    rw [hwrite, paint]
    split
    · cases hrun : TextRun.cell? ⟨x, token, attr⟩ col with
      | none => simp [hrun]
      | some cell =>
          have hx : 0 ≤ x := by
            by_contra hneg
            simp [TextRun.cell?, hneg] at hrun
          have := TextRun.lt_of_cell? hrun
          dsimp only at this
          omega
    · rfl

theorem paint_cons (winsize : Winsize) (y : ℤ) {run : TextRun} {runs : List TextRun}
    (h : ∀ run' ∈ runs, run.x + run.text.length ≤ run'.x) (window : Window) :
    paint winsize y runs (paint winsize y [run] window) = paint winsize y (run :: runs) window := by
  funext row col
  unfold paint
  split
  · rw [List.findSome?_cons, List.findSome?_cons, List.findSome?_nil]
    cases hcell : run.cell? col with
    | none => simp
    | some cell =>
        have hrest : (runs.findSome? fun run => run.cell? col) = none := by
          rw [List.findSome?_eq_none_iff]
          intro run' hrun'
          cases hcell' : run'.cell? col with
          | none => rfl
          | some cell' =>
              have := TextRun.lt_of_cell? hcell
              have := TextRun.lt_of_cell? hcell'
              have := h run' hrun'
              omega
        simp [hrest]
  · rfl

section Drawn

variable {curses : Curses} {winsize : Winsize} {y : ℤ} {dflt : ℕ}

theorem le_of_mem_drawn {cols : ℕ} {tokens : List Text} {x : ℤ} {currentColor : ℕ} {runs : List TextRun}
    (h : drawn curses cols dflt tokens x currentColor = some runs) : ∀ run ∈ runs, x ≤ run.x := by
  induction tokens generalizing x currentColor runs with
  | nil => simp [← Option.some.inj h]
  | cons token tokens ih =>
      rw [drawn] at h
      split at h
      · split at h
        · exact ih h
        · obtain ⟨color, -, h⟩ := Option.bind_eq_some_iff.mp h
          exact ih h
      · split at h
        · cases h
        split at h
        · simp [← Option.some.inj h]
        · obtain ⟨runs', hrest, rfl⟩ := Option.map_eq_some_iff.mp h
          intro run hrun
          obtain rfl | hrun := List.mem_cons.mp hrun
          · exact Int.le_refl _
          · have := ih hrest run hrun
            omega

theorem renderTokens_default {token : Text} (hcode : colorCode? token = some ['d'])
    (tokens : List Text) (x : ℤ) (currentColor : ℕ) (frame : Frame) :
    renderTokens winsize y dflt (token :: tokens) x currentColor frame =
      renderTokens winsize y dflt tokens x dflt frame := by
  simp [renderTokens, hcode]

theorem renderTokens_color {token ccode : Text} (hcode : colorCode? token = some ccode)
    (hother : ccode ≠ ['d']) (tokens : List Text) (x : ℤ) (currentColor : ℕ) (frame : Frame) :
    renderTokens winsize y dflt (token :: tokens) x currentColor frame =
      match getColor ccode frame with
      | .ok color frame => renderTokens winsize y dflt tokens x color frame
      | .error e frame => .error e frame := by
  simp only [renderTokens, hcode, if_neg hother, bind, EStateM.bind]
  cases getColor ccode frame <;> rfl

theorem renderTokens_null {token : Text} (hcode : colorCode? token = none) {x : ℤ}
    (hnull : '\x00' ∈ sliceTo (winsize.cols - x) token) (tokens : List Text) (currentColor : ℕ)
    (frame : Frame) :
    renderTokens winsize y dflt (token :: tokens) x currentColor frame = .error .valueError frame := by
  simp only [renderTokens, hcode, addstr, if_pos hnull]
  rfl

theorem renderTokens_text {token : Text} (hcode : colorCode? token = none) {x : ℤ}
    (hnull : '\x00' ∉ sliceTo (winsize.cols - x) token) (tokens : List Text) (currentColor : ℕ)
    (frame : Frame) :
    renderTokens winsize y dflt (token :: tokens) x currentColor frame =
      let painted := { frame with window := paint winsize y [⟨x, token, currentColor⟩] frame.window }
      if x + token.length > winsize.cols then .ok () painted
      else renderTokens winsize y dflt tokens (x + token.length) currentColor painted := by
  simp only [renderTokens, hcode, addstr, if_neg hnull, ← write_eq_paint]
  split <;> rfl

theorem renderTokens_of_some {tokens : List Text} {x : ℤ} {currentColor : ℕ} {frame : Frame}
    (hcached : curses.Cached frame.colorPairs) {runs : List TextRun}
    (h : drawn curses winsize.cols dflt tokens x currentColor = some runs) :
    ∃ colorPairs, curses.Cached colorPairs ∧
      renderTokens winsize y dflt tokens x currentColor frame =
        .ok () ⟨colorPairs, paint winsize y runs frame.window⟩ := by
  induction tokens generalizing x currentColor frame runs with
  | nil =>
      obtain rfl := Option.some.inj h
      have hpaint : paint winsize y [] frame.window = frame.window := by
        funext row col
        simp [paint]
      rw [hpaint]
      exact ⟨frame.colorPairs, hcached, rfl⟩
  | cons token tokens ih =>
      rw [drawn] at h
      split at h
      · rename_i ccode hcode
        split at h
        · rename_i hdefault
          rw [renderTokens_default (hdefault ▸ hcode)]
          exact ih hcached h
        · rename_i hother
          obtain ⟨color, hcolor, h⟩ := Option.bind_eq_some_iff.mp h
          obtain ⟨colorPairs, hcached', hget⟩ := getColor_of_some hcached hcolor
          rw [renderTokens_color hcode hother, hget]
          exact ih hcached' h
      · rename_i hcode
        split at h
        · cases h
        rename_i hnull
        rw [renderTokens_text hcode hnull]
        split at h
        · rename_i hedge
          obtain rfl := Option.some.inj h
          -- past the edge the loop breaks off
          exact ⟨frame.colorPairs, hcached, if_pos hedge⟩
        · rename_i hedge
          obtain ⟨runs', hrest, rfl⟩ := Option.map_eq_some_iff.mp h
          have hpaint : paint winsize y runs'
              (paint winsize y [⟨x, token, currentColor⟩] frame.window) =
                paint winsize y (⟨x, token, currentColor⟩ :: runs') frame.window :=
            paint_cons winsize y (le_of_mem_drawn hrest) _
          rw [← hpaint]
          simp only [if_neg hedge]
          refine ih ?_ hrest
          exact hcached

theorem renderTokens_of_none {tokens : List Text} {x : ℤ} {currentColor : ℕ} {frame : Frame}
    (hcached : curses.Cached frame.colorPairs)
    (h : drawn curses winsize.cols dflt tokens x currentColor = none) :
    ∃ e frame', renderTokens winsize y dflt tokens x currentColor frame = .error e frame' := by
  induction tokens generalizing x currentColor frame with
  | nil => cases h
  | cons token tokens ih =>
      rw [drawn] at h
      split at h
      · rename_i ccode hcode
        split at h
        · rename_i hdefault
          rw [renderTokens_default (hdefault ▸ hcode)]
          exact ih hcached h
        · rename_i hother
          rw [renderTokens_color hcode hother]
          cases hcolor : curses.color? ccode with
          | none =>
              obtain ⟨e, hget⟩ := getColor_of_none hcached hcolor
              rw [hget]
              exact ⟨e, frame, rfl⟩
          | some color =>
              obtain ⟨colorPairs, hcached', hget⟩ := getColor_of_some hcached hcolor
              rw [hget]
              exact ih hcached' (by simpa [hcolor] using h)
      · rename_i hcode
        split at h
        · rename_i hnull
          exact ⟨_, _, renderTokens_null hcode hnull tokens currentColor frame⟩
        rename_i hnull
        rw [renderTokens_text hcode hnull]
        split at h
        · cases h
        · rename_i hedge
          simp only [if_neg hedge]
          exact ih hcached (Option.map_eq_none_iff.mp h)

end Drawn

/-- The runs of a text. -/
def Curses.runs (curses : Curses) (cols : ℕ) (x : ℤ) (text : Text) (defaultColor : Text)
    (centerWithinWidth : Option ℤ) : Option (List TextRun) :=
  (curses.color? defaultColor).bind fun dflt =>
    drawn curses cols dflt (segments textRe text).tokens
      (startColumn cols x text centerWithinWidth) dflt

section RenderStr

variable {curses : Curses} {winsize : Winsize} {y x : ℤ} {text defaultColor : Text}
  {centerWithinWidth : Option ℤ} {frame : Frame}

theorem renderStr_of_some (hcached : curses.Cached frame.colorPairs) {runs : List TextRun}
    (h : curses.runs winsize.cols x text defaultColor centerWithinWidth = some runs) :
    ∃ colorPairs, curses.Cached colorPairs ∧
      renderStr winsize y x text defaultColor centerWithinWidth frame =
        .ok () ⟨colorPairs, paint winsize y runs frame.window⟩ := by
  obtain ⟨dflt, hdflt, h⟩ := Option.bind_eq_some_iff.mp h
  obtain ⟨colorPairs, hcached', hget⟩ := getColor_of_some hcached hdflt
  simp only [renderStr, bind, EStateM.bind, hget]
  refine renderTokens_of_some ?_ h
  exact hcached'

theorem renderStr_of_none (hcached : curses.Cached frame.colorPairs)
    (h : curses.runs winsize.cols x text defaultColor centerWithinWidth = none) :
    ∃ e frame', renderStr winsize y x text defaultColor centerWithinWidth frame =
      .error e frame' := by
  simp only [renderStr, bind, EStateM.bind]
  cases hdflt : curses.color? defaultColor with
  | none =>
      obtain ⟨e, hget⟩ := getColor_of_none hcached hdflt
      rw [hget]
      exact ⟨e, frame, rfl⟩
  | some dflt =>
      obtain ⟨colorPairs, hcached', hget⟩ := getColor_of_some hcached hdflt
      rw [hget]
      refine renderTokens_of_none ?_ (by simpa [Curses.runs, hdflt] using h)
      exact hcached'

end RenderStr

/-! ### Texts that can be read -/

/-- The colour of the text after a code. -/
def Curses.codeColor? (curses : Curses) (dflt : ℕ) (code : Text) : Option ℕ :=
  (colorCode? code).bind fun ccode => if ccode = ['d'] then some dflt else curses.color? ccode

/-- A part of a text that is not taken for a code, and can be printed. -/
structure Printable (text : Text) : Prop where
  plain : colorCode? text = none
  printable : ∀ char ∈ text, ' ' ≤ char ∧ char ≤ '~'

theorem Printable.writable {text : Text} (h : Printable text) (n : ℤ) : '\x00' ∉ sliceTo n text :=
  fun hmem => absurd (h.printable _ (List.mem_of_mem_take hmem)).1 (by decide)

/-- The codes are colours, and the rest can be read. -/
structure Curses.Legible (curses : Curses) (s : Segments Char) : Prop where
  first : Printable s.first
  rest : ∀ code text, (code, text) ∈ s.rest →
    Printable text ∧ ∀ dflt, (curses.codeColor? dflt code).isSome

/-- What a text with codes shows: the letters, each in the colour of the last code. -/
def styled (curses : Curses) (dflt : ℕ) (s : Segments Char) : List Cell :=
  s.first.map (⟨·, dflt⟩) ++ s.rest.flatMap fun (code, text) =>
    text.map fun char => ⟨char, (curses.codeColor? dflt code).getD 0⟩

theorem map_char_styled (curses : Curses) (dflt : ℕ) (s : Segments Char) :
    (styled curses dflt s).map Cell.char = s.text := by
  simp only [styled, Segments.text, List.map_append, List.map_flatMap, List.map_map,
    Function.comp_def, List.map_id']

/-- The cells of a run, and those that follow it. -/
theorem cell?_or {x : ℤ} (hx : 0 ≤ x) (text : Text) (attr : ℕ) (cells : List Cell) (col : ℤ) :
    (TextRun.cell? ⟨x, text, attr⟩ col).or
        (if x + text.length ≤ col then cells[(col - (x + text.length)).toNat]? else none) =
      if x ≤ col then (text.map (⟨·, attr⟩) ++ cells)[(col - x).toNat]? else none := by
  by_cases hcol : x ≤ col
  · rw [TextRun.cell?, if_pos ⟨hx, hcol⟩, if_pos hcol]
    by_cases hlength : x + text.length ≤ col
    · have hindex : (col - (x + text.length)).toNat = (col - x).toNat - text.length := by omega
      rw [if_pos hlength, List.getElem?_eq_none (by omega : text.length ≤ (col - x).toNat),
        List.getElem?_append_right (by rw [List.length_map]; omega), List.length_map, hindex]
      rfl
    · rw [if_neg hlength, List.getElem?_append_left (by rw [List.length_map]; omega),
        List.getElem?_map, Option.or_none]
  · rw [TextRun.cell?, if_neg (fun h => hcol h.2), if_neg hcol, if_neg (by omega), Option.or_none]

/-- The text `first` in colour `currentColor`, and then the rest. -/
theorem drawn_styled {curses : Curses} {cols : ℕ} {dflt : ℕ} {rest : List (Text × Text)}
    (hrest : ∀ code text, (code, text) ∈ rest →
      Printable text ∧ ∀ dflt, (curses.codeColor? dflt code).isSome)
    {first : Text} (hfirst : Printable first) {x : ℤ} (hx : 0 ≤ x) (currentColor : ℕ) :
    ∃ runs, drawn curses cols dflt (Segments.tokens ⟨first, rest⟩) x currentColor = some runs ∧
      ∀ col < (cols : ℤ), (runs.findSome? fun run => run.cell? col) =
        if x ≤ col then
          (first.map (⟨·, currentColor⟩) ++ rest.flatMap fun (code, text) =>
            text.map fun char => (⟨char, (curses.codeColor? dflt code).getD 0⟩ : Cell))[
              (col - x).toNat]?
        else none := by
  induction rest generalizing first x currentColor with
  | nil =>
      refine ⟨[⟨x, first, currentColor⟩], ?_, fun col hcol => ?_⟩
      · simp [Segments.tokens, drawn, hfirst.plain, hfirst.writable]
      · rw [List.flatMap_nil, ← cell?_or hx]
        simp
  | cons entry rest ih =>
      obtain ⟨code, text⟩ := entry
      obtain ⟨htext, hcode⟩ := hrest code text List.mem_cons_self
      obtain ⟨color, hcolor⟩ := Option.isSome_iff_exists.mp (hcode dflt)
      obtain ⟨runs, hdrawn, hcells⟩ := ih (fun code text h => hrest code text (List.mem_cons_of_mem _ h))
        htext (by omega : 0 ≤ x + first.length) color
      obtain ⟨ccode, hccode, hcolor'⟩ := Option.bind_eq_some_iff.mp hcolor
      have htokens : Segments.tokens ⟨first, (code, text) :: rest⟩ =
          first :: code :: Segments.tokens ⟨text, rest⟩ := rfl
      have hstep : drawn curses cols dflt (code :: Segments.tokens ⟨text, rest⟩)
          (x + first.length) currentColor = some runs := by
        rw [drawn, hccode]
        split at hcolor'
        · rename_i hdefault
          obtain rfl := Option.some.inj hcolor'
          simpa [hdefault] using hdrawn
        · rename_i hother
          simpa [hother, hcolor'] using hdrawn
      rw [htokens, drawn, hfirst.plain]
      dsimp only
      rw [if_neg (hfirst.writable _)]
      by_cases hedge : x + first.length > cols
      -- what would come after the edge is not in the window
      · refine ⟨_, if_pos hedge, fun col hcol => ?_⟩
        rw [← cell?_or hx, if_neg (by omega)]
        simp
      · refine ⟨⟨x, first, currentColor⟩ :: runs, by rw [if_neg hedge, hstep]; rfl, fun col hcol => ?_⟩
        rw [← cell?_or hx, List.findSome?_cons, hcells col hcol]
        simp only [List.flatMap_cons, hcolor, Option.getD_some]
        cases TextRun.cell? ⟨x, first, currentColor⟩ col <;> rfl

/-- **What is shown of a text** are its letters, from the place where it begins to the right
edge of the window, each in the colour of the last code before it. -/
theorem renderStr_reads {curses : Curses} {winsize : Winsize} {y x : ℤ}
    {text defaultColor : Text} {centerWithinWidth : Option ℤ} {frame : Frame} {dflt : ℕ}
    (hcached : curses.Cached frame.colorPairs) (hdflt : curses.color? defaultColor = some dflt)
    (hlegible : curses.Legible (segments textRe text))
    (hstart : 0 ≤ startColumn winsize.cols x text centerWithinWidth) :
    ∃ frame', renderStr winsize y x text defaultColor centerWithinWidth frame = .ok () frame' ∧
      curses.Cached frame'.colorPairs ∧
      (styled curses dflt (segments textRe text)).map Cell.char = (segments textRe text).text ∧
      ∀ row col, frame'.window row col =
        if row = y ∧ 0 ≤ y ∧ y < winsize.rows ∧
            startColumn winsize.cols x text centerWithinWidth ≤ col ∧ col < winsize.cols then
          (styled curses dflt (segments textRe text))[
            (col - startColumn winsize.cols x text centerWithinWidth).toNat]?.or
              (frame.window row col)
        else frame.window row col := by
  set start := startColumn winsize.cols x text centerWithinWidth with hstart_eq
  obtain ⟨runs, hdrawn, hcells⟩ := drawn_styled hlegible.rest hlegible.first hstart dflt
  have hruns : curses.runs winsize.cols x text defaultColor centerWithinWidth = some runs := by
    rw [Curses.runs, hdflt, ← hstart_eq]
    exact hdrawn
  obtain ⟨colorPairs, hcached', hrender⟩ := renderStr_of_some hcached hruns
  refine ⟨_, hrender, hcached', map_char_styled curses dflt _, fun row col => ?_⟩
  -- the cells of the window, left of the text, in it and right of it
  change paint winsize y runs frame.window row col = _
  unfold paint
  by_cases hrow : row = y ∧ 0 ≤ y ∧ y < winsize.rows
  · obtain ⟨rfl, hy, hrows⟩ := hrow
    by_cases hcol : start ≤ col ∧ col < winsize.cols
    · rw [if_pos ⟨rfl, hy, hrows, by omega, hcol.2⟩, if_pos ⟨rfl, hy, hrows, hcol⟩,
        hcells col hcol.2, if_pos hcol.1]
      rfl
    · have hright : ¬(row = row ∧ 0 ≤ row ∧ row < winsize.rows ∧ start ≤ col ∧
          col < winsize.cols) := fun h => hcol h.2.2.2
      rw [if_neg hright]
      split
      · rename_i hin
        rw [hcells col hin.2.2.2.2, if_neg (fun h => hcol ⟨h, hin.2.2.2.2⟩), Option.none_or]
      · rfl
  · rw [if_neg (fun h => hrow ⟨h.1, h.2.1, h.2.2.1⟩), if_neg (fun h => hrow ⟨h.1, h.2.1, h.2.2.1⟩)]

theorem renderStr_reads_green :
    let curses : Curses := ⟨fun i => 256 * i, 2097152, 0⟩
    let text := "#G&db1".toList
    ∃ frame', renderStr ⟨24, 80⟩ 8 0 text ['D'] none ⟨curses.colorPairs, fun _ _ => none⟩ =
        .ok () frame' ∧
      curses.Cached frame'.colorPairs ∧
      (styled curses 2304 (segments textRe text)).map Cell.char = (segments textRe text).text ∧
      ∀ row col, frame'.window row col =
        if row = 8 ∧ (0 : ℤ) ≤ 8 ∧ (8 : ℤ) < (⟨24, 80⟩ : Winsize).rows ∧
            startColumn (⟨24, 80⟩ : Winsize).cols 0 text none ≤ col ∧
            col < (⟨24, 80⟩ : Winsize).cols then
          (styled curses 2304 (segments textRe text))[
            (col - startColumn (⟨24, 80⟩ : Winsize).cols 0 text none).toNat]?.or none
        else none := by
  intro curses text
  have hsegments : segments textRe text = ⟨[], [("#G".toList, "db1".toList)]⟩ := by decide
  have hlegible : curses.Legible (segments textRe text) := by
    rw [hsegments]
    refine ⟨⟨rfl, by simp⟩, fun code text h => ?_⟩
    obtain ⟨rfl, rfl⟩ : code = "#G".toList ∧ text = "db1".toList := by simpa using h
    exact ⟨⟨rfl, by simp⟩, fun _ => rfl⟩
  exact renderStr_reads curses.cached_colorPairs rfl hlegible (by decide)

end SqlalchemyCollectd

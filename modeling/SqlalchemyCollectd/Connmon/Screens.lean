import SqlalchemyCollectd.Connmon.Layouts

/-!
# SqlalchemyCollectd.Connmon.Screens

The commands of the display. Each of them makes a new screen object and puts it on, and a
legend remembers the object that was on before it.

What this comes to is `View`: statistics, a legend over them, or a legend that escape does
not get away from, which is what a second `?` leads to. `screens_refine` says so of every
sequence of commands, in windows of whatever sizes, and for which of the sizes the columns
of the statistics are laid out.
-/

namespace SqlalchemyCollectd

/-- A screen object. -/
inductive Layout
  /-- `ProgStatsLayout` or `HostStatsLayout`, whose `_x_positions` are not there at first. -/
  | stats (kind : StatKind) (xPositions : Option (List (ℤ × ℤ)))
  /-- `KeyLayout`, whose `previous_screen` is not there at first. -/
  | key (previousScreen : Option ℕ)

/-- What `_refresh_winsize` works on. Screens are known by their place in `layouts`. -/
structure Display where
  layouts : List Layout := []
  screen : Option ℕ := none
  winsize : Option Winsize := none
  enabled : Bool := true

namespace Display

/-- What is asked of the terminal: the result of `getch`, and if it comes to that of
`getmaxyx` and `is_term_resized`. -/
structure Input where
  /-- A character. `curses.KEY_RESIZE` is not one, nor is the -1 for none at all. -/
  char : Option Char := none
  keyResize : Bool := false
  winsize : Winsize
  isTermResized : Bool := false

/-- `screen.pre_display`. -/
def preDisplay (screen : ℕ) (display : Display) : Option Display :=
  match display.layouts[screen]? with
  | some (.stats _ _) => some display
  | some (.key _) => display.screen.map fun current =>
      { display with layouts := display.layouts.set screen (.key current) }
  | none => none

/-- `self.screen.resize`. -/
def resize (display : Display) : Option Display := do
  let screen ← display.screen
  match display.layouts[screen]? with
  | some (.stats kind _) =>
      let winsize ← display.winsize
      some { display with
        layouts := display.layouts.set screen
          (.stats kind (some (calcXPositions winsize.cols kind.columns))) }
  | some (.key _) => some display
  | none => none

/-- `_refresh_winsize`, and whether it ends with `_render`; nothing where it raises. -/
def refreshWinsize (input : Input) (screen : Option ℕ) (display : Display) :
    Option (Display × Bool) :=
  let oldWinsize := display.winsize
  let display := { display with winsize := some input.winsize }
  match screen with
  | some screen => do
      let display ← preDisplay screen display
      return (← resize { display with screen := some screen }, true)
  | none => do
      if oldWinsize ≠ some input.winsize then return (← resize display, false)
      else if oldWinsize = none then none
      else if input.isTermResized then return (← resize display, false)
      else return (display, false)

/-- `_refresh_winsize` with a new screen. -/
def refreshNew (input : Input) (layout : Layout) (display : Display) : Option (Display × Bool) :=
  refreshWinsize input (some display.layouts.length)
    { display with layouts := display.layouts ++ [layout] }

/-- `screen.press_escape`. -/
def pressEscape (input : Input) (display : Display) : Option (Display × Bool) := do
  let screen ← display.screen
  match display.layouts[screen]? with
  | some (.key previousScreen) => refreshWinsize input (some (← previousScreen)) display
  | some (.stats _ _) => some (display, false)
  | none => none

/-- `_handle_cmds`, and whether it ends with `_render`; nothing where it raises before that. -/
def handleCmds (input : Input) (display : Display) : Option (Display × Bool) :=
  match input.char with
  | some char =>
      if char ∈ ['Q', 'q'] then some ({ display with enabled := false }, false)
      else if char ∈ ['P', 'p'] then refreshNew input (.stats .prog none) display
      else if char ∈ ['H', 'h'] then refreshNew input (.stats .host none) display
      else if char = '?' then refreshNew input (.key none) display
      else if char = Char.ofNat 27 then pressEscape input display
      else some (display, false)
  | none => if input.keyResize then refreshWinsize input none display else some (display, false)

/-- `_start_impl`, in a window of some size. -/
def startImpl (winsize : Winsize) : Option (Display × Bool) :=
  refreshNew { winsize } (.stats .prog none) {}

/-- What `screen.render` reads; nothing where it raises. -/
def content (display : Display) : Option Content := do
  let screen ← display.screen
  match ← display.layouts[screen]? with
  | .stats kind xPositions => xPositions.map fun xPositions => some (kind, xPositions)
  | .key _ => some none

/-- One round of the loop of `run_async`, as long as it runs. -/
def step (display : Display) (input : Input) : Option Display :=
  if display.enabled then (handleCmds input display).map Prod.fst else some display

/-- The display after some rounds. -/
def run (winsize : Winsize) (inputs : List Input) : Option Display :=
  (startImpl winsize).bind fun (display, _) => inputs.foldlM step display

end Display

/-! ### What can be seen -/

/-- The screens, for somebody in front of them. -/
inductive View
  | stats (kind : StatKind)
  /-- The legend, from which escape leads back. -/
  | legend (kind : StatKind)
  /-- The legend, from which escape does not lead back. -/
  | stuck
  deriving DecidableEq

namespace View

/-- What a character does. -/
def press (view : View) (char : Char) : View :=
  if char ∈ ['P', 'p'] then .stats .prog
  else if char ∈ ['H', 'h'] then .stats .host
  else if char = '?' then
    match view with
    | .stats kind => .legend kind
    | .legend _ | .stuck => .stuck
  else if char = Char.ofNat 27 then
    match view with
    | .legend kind | .stats kind => .stats kind
    | .stuck => .stuck
  else view

/-- Whether the size of the window is looked at again. -/
def refreshes (view : View) (char : Char) : Bool :=
  char ∈ ['P', 'p', 'H', 'h', '?'] ||
    char = Char.ofNat 27 && match view with
      | .stats _ => false
      | .legend _ | .stuck => true

/-- What is drawn of a view in a window. -/
def content (winsize : Winsize) : View → Content
  | .stats kind => some (kind, calcXPositions winsize.cols kind.columns)
  | .legend _ | .stuck => none

end View

namespace Display

/-- How the objects of a display make up a view. -/
inductive Shows (layouts : List Layout) (winsize : Winsize) (screen : ℕ) : View → Prop
  | stats {kind : StatKind} (hscreen : layouts[screen]? =
      some (.stats kind (some (calcXPositions winsize.cols kind.columns)))) :
      Shows layouts winsize screen (.stats kind)
  | legend {kind : StatKind} {previous : ℕ} {xPositions : Option (List (ℤ × ℤ))}
      (hscreen : layouts[screen]? = some (.key (some previous)))
      (hprevious : layouts[previous]? = some (.stats kind xPositions)) :
      Shows layouts winsize screen (.legend kind)
  | stuck {previous : ℕ} {previous' : Option ℕ}
      (hscreen : layouts[screen]? = some (.key (some previous)))
      (hprevious : layouts[previous]? = some (.key previous')) :
      Shows layouts winsize screen .stuck

/-- The display is all right, and shows a view in a window. -/
def Good (display : Display) (view : View) (winsize : Winsize) : Prop :=
  ∃ screen, display.winsize = some winsize ∧ display.screen = some screen ∧
    Shows display.layouts winsize screen view

theorem resize_stats {display : Display} {screen : ℕ} {winsize : Winsize} {kind : StatKind}
    {xPositions : Option (List (ℤ × ℤ))} (hscreen : display.screen = some screen)
    (hwinsize : display.winsize = some winsize)
    (hlayout : display.layouts[screen]? = some (.stats kind xPositions)) :
    ∃ display', display.resize = some display' ∧ display'.enabled = display.enabled ∧
      Good display' (.stats kind) winsize := by
  have hresize : display.resize = some { display with
      layouts := display.layouts.set screen
        (.stats kind (some (calcXPositions winsize.cols kind.columns))) } := by
    simp [resize, hscreen, hlayout, hwinsize]
  refine ⟨_, hresize, rfl, screen, hwinsize, hscreen, .stats ?_⟩
  exact List.getElem?_set_self (List.getElem?_eq_some_iff.mp hlayout).1

theorem resize_key {display : Display} {screen : ℕ} {previous : Option ℕ}
    (hscreen : display.screen = some screen)
    (hlayout : display.layouts[screen]? = some (.key previous)) :
    display.resize = some display := by
  simp [resize, hscreen, hlayout]

theorem refreshNew_stats (input : Input) (kind : StatKind) (display : Display) :
    ∃ display', refreshNew input (.stats kind none) display = some (display', true) ∧
      display'.enabled = display.enabled ∧ Good display' (.stats kind) input.winsize := by
  have hlayout : (display.layouts ++ [Layout.stats kind none])[display.layouts.length]? =
      some (.stats kind none) := List.getElem?_concat_length
  obtain ⟨display', hresize, hgood⟩ : ∃ display', resize ⟨display.layouts ++ [.stats kind none],
        some display.layouts.length, some input.winsize, display.enabled⟩ = some display' ∧
      display'.enabled = display.enabled ∧ Good display' (.stats kind) input.winsize :=
    resize_stats rfl rfl hlayout
  refine ⟨display', ?_, hgood⟩
  simp [refreshNew, refreshWinsize, preDisplay, hresize]

theorem refreshNew_key (input : Input) {display : Display} {screen : ℕ}
    (hscreen : display.screen = some screen) :
    refreshNew input (.key none) display =
      some (⟨display.layouts ++ [.key (some screen)], some display.layouts.length,
        some input.winsize, display.enabled⟩, true) := by
  simp [refreshNew, refreshWinsize, preDisplay, resize, hscreen, List.set_append_right]

/-- `?`: a legend over statistics leads back to them, one over a legend does not. -/
theorem good_question {display : Display} {view : View} {winsize : Winsize}
    (h : Good display view winsize) (input : Input) :
    ∃ display', refreshNew input (.key none) display = some (display', true) ∧
      display'.enabled = display.enabled ∧ Good display' (view.press '?') input.winsize := by
  obtain ⟨screen, -, hscreen, hshows⟩ := h
  refine ⟨_, refreshNew_key input hscreen, rfl, display.layouts.length, rfl, rfl, ?_⟩
  have hnew : (display.layouts ++ [Layout.key (some screen)])[display.layouts.length]? =
      some (.key (some screen)) := List.getElem?_concat_length
  have hold : ∀ layout, display.layouts[screen]? = some layout →
      (display.layouts ++ [Layout.key (some screen)])[screen]? = some layout := by
    intro layout hlayout
    rw [List.getElem?_append_left (List.getElem?_eq_some_iff.mp hlayout).1, hlayout]
  cases hshows with
  | stats hlayout => exact .legend hnew (hold _ hlayout)
  | legend hlayout => exact .stuck hnew (hold _ hlayout)
  | stuck hlayout => exact .stuck hnew (hold _ hlayout)

/-- Escape: the screen before gets to be the one that is on, and if it is a legend, it now
leads to the legend that was on. -/
theorem good_escape {display : Display} {view : View} {winsize : Winsize}
    (h : Good display view winsize) (input : Input) :
    ∃ display', pressEscape input display =
        some (display', view.refreshes (Char.ofNat 27)) ∧
      display'.enabled = display.enabled ∧ Good display' (view.press (Char.ofNat 27))
        (if view.refreshes (Char.ofNat 27) then input.winsize else winsize) := by
  obtain ⟨screen, hwinsize, hscreen, hshows⟩ := h
  cases hshows with
  | stats hlayout =>
      exact ⟨display, by simp [pressEscape, hscreen, hlayout, View.refreshes], rfl, screen, hwinsize, hscreen,
        .stats hlayout⟩
  | @legend kind previous xPositions hlayout hprevious =>
      obtain ⟨display', hresize, hgood⟩ : ∃ display', resize { display with
            winsize := some input.winsize, screen := some previous } = some display' ∧
          display'.enabled = display.enabled ∧ Good display' (.stats kind) input.winsize :=
        resize_stats rfl rfl hprevious
      refine ⟨display', ?_, hgood⟩
      simp [pressEscape, hscreen, hlayout, refreshWinsize, preDisplay, hprevious, hresize,
        View.refreshes]
  -- the two legends lead to each other
  | @stuck previous previous' hlayout hprevious =>
      have hset : (display.layouts.set previous (.key (some screen)))[previous]? =
          some (.key (some screen)) :=
        List.getElem?_set_self (List.getElem?_eq_some_iff.mp hprevious).1
      have hescape : pressEscape input display = some ({ display with
          winsize := some input.winsize, screen := some previous
          layouts := display.layouts.set previous (.key (some screen)) }, true) := by
        simp [pressEscape, hscreen, hlayout, refreshWinsize, preDisplay, hprevious, resize, hset]
      refine ⟨_, hescape, rfl, previous, rfl, rfl, ?_⟩
      by_cases hsame : previous = screen
      · subst hsame
        exact .stuck hset hset
      · exact .stuck hset ((List.getElem?_set_ne hsame).trans hlayout)

/-- The screen that is on is laid out again, for whatever size the window has. -/
theorem good_of_resize {display : Display} {winsize : Winsize} {screen : ℕ} {view : View}
    (hscreen : display.screen = some screen) (hshows : Shows display.layouts winsize screen view)
    (winsize' : Winsize) :
    ∃ display', resize { display with winsize := some winsize' } = some display' ∧
      display'.enabled = display.enabled ∧ Good display' view winsize' := by
  cases hshows with
  | stats hlayout => exact resize_stats hscreen rfl hlayout
  | legend hlayout hprevious =>
      exact ⟨_, resize_key hscreen hlayout, rfl, screen, rfl, hscreen,
        .legend hlayout hprevious⟩
  | stuck hlayout hprevious =>
      exact ⟨_, resize_key hscreen hlayout, rfl, screen, rfl, hscreen,
        .stuck hlayout hprevious⟩

theorem good_keyResize {display : Display} {view : View} {winsize : Winsize}
    (h : Good display view winsize) (input : Input) :
    ∃ display', refreshWinsize input none display = some (display', false) ∧
      display'.enabled = display.enabled ∧ Good display' view input.winsize := by
  obtain ⟨screen, hwinsize, hscreen, hshows⟩ := h
  obtain ⟨display', hresize, hgood⟩ := good_of_resize hscreen hshows input.winsize
  have hresized : ((resize { display with winsize := some input.winsize }).bind fun display =>
      some (display, false)) = some (display', false) := by
    rw [hresize, Option.bind_some]
  unfold refreshWinsize
  dsimp only
  split
  · exact ⟨display', hresized, hgood⟩
  · rename_i hsame
    rw [if_neg (by simp [hwinsize])]
    split
    · exact ⟨display', hresized, hgood⟩
    · have heq : winsize = input.winsize := by simpa [hwinsize] using hsame
      exact ⟨_, rfl, rfl, screen, rfl, hscreen, heq ▸ hshows⟩

/-- The command to quit. -/
def Input.quits (input : Input) : Bool :=
  input.char.any fun char => char ∈ ['Q', 'q']

/-- What one round does to a view and the size of its window. -/
def shown (input : Input) : View × Winsize → View × Winsize
  | (view, winsize) =>
      match input.char with
      | some char =>
          (view.press char, if view.refreshes char then input.winsize else winsize)
      | none => (view, if input.keyResize then input.winsize else winsize)

/-- **A command** does to the objects what it does to the view. -/
theorem good_handleCmds {display : Display} {view : View} {winsize : Winsize}
    (h : Good display view winsize) (input : Input) :
    ∃ display', handleCmds input display = some (display', input.char.any view.refreshes) ∧
      display'.enabled = (display.enabled && !input.quits) ∧
      Good display' (shown input (view, winsize)).1 (shown input (view, winsize)).2 := by
  unfold handleCmds Input.quits shown
  cases hchar : input.char with
  | none =>
      simp only [Option.any_none]
      split
      · simpa using good_keyResize h input
      · exact ⟨display, rfl, by simp, h⟩
  | some char =>
      have hpress : ∀ {act : Option (Display × Bool)} {renders : Bool} {view' : View}
          {winsize' : Winsize}, char ∉ ['Q', 'q'] →
          (∃ display', act = some (display', renders) ∧ display'.enabled = display.enabled ∧
            Good display' view' winsize') →
          ∃ display', act = some (display', renders) ∧
            display'.enabled = (display.enabled && !decide (char ∈ ['Q', 'q'])) ∧
            Good display' view' winsize' := by
        rintro act renders view' winsize' hquit ⟨display', hact, henabled, hgood⟩
        refine ⟨display', hact, ?_, hgood⟩
        rw [henabled, decide_eq_false hquit, Bool.not_false, Bool.and_true]
      simp only [Option.any_some]
      by_cases hquit : char ∈ ['Q', 'q']
      · rw [if_pos hquit]
        have hstays : view.press char = view ∧ view.refreshes char = false := by
          obtain rfl | rfl : char = 'Q' ∨ char = 'q' := by simpa using hquit
          all_goals exact ⟨rfl, rfl⟩
        rw [hstays.1, hstays.2]
        exact ⟨_, rfl, by rw [decide_eq_true hquit, Bool.not_true, Bool.and_false], h⟩
      · rw [if_neg hquit]
        refine hpress hquit ?_
        by_cases hprog : char ∈ ['P', 'p']
        · have hview : view.press char = .stats .prog := by simp only [View.press, if_pos hprog]
          have hrefreshes : view.refreshes char = true := by
            obtain rfl | rfl : char = 'P' ∨ char = 'p' := by simpa using hprog
            all_goals rfl
          rw [if_pos hprog, hview, hrefreshes, if_pos rfl]
          exact refreshNew_stats input .prog display
        rw [if_neg hprog]
        by_cases hhost : char ∈ ['H', 'h']
        · have hview : view.press char = .stats .host := by
            simp only [View.press, if_neg hprog, if_pos hhost]
          have hrefreshes : view.refreshes char = true := by
            obtain rfl | rfl : char = 'H' ∨ char = 'h' := by simpa using hhost
            all_goals rfl
          rw [if_pos hhost, hview, hrefreshes, if_pos rfl]
          exact refreshNew_stats input .host display
        rw [if_neg hhost]
        by_cases hquestion : char = '?'
        · subst hquestion
          exact good_question h input
        rw [if_neg hquestion]
        by_cases hescape : char = Char.ofNat 27
        · subst hescape
          exact good_escape h input
        · have hview : view.press char = view := by
            simp only [View.press, if_neg hprog, if_neg hhost, if_neg hquestion, if_neg hescape]
          have hrefreshes : view.refreshes char = false := by
            simp only [List.mem_cons, List.not_mem_nil, or_false] at hprog hhost
            simp [View.refreshes, hescape, hquestion, not_or.mp hprog, not_or.mp hhost]
          rw [if_neg hescape, hview, hrefreshes]
          exact ⟨display, rfl, rfl, h⟩

theorem content_of_good {display : Display} {view : View} {winsize : Winsize}
    (h : Good display view winsize) : display.content = some (view.content winsize) := by
  obtain ⟨screen, -, hscreen, hshows⟩ := h
  cases hshows with
  | stats hlayout => simp [content, hscreen, hlayout, View.content]
  | legend hlayout => simp [content, hscreen, hlayout, View.content]
  | stuck hlayout => simp [content, hscreen, hlayout, View.content]

/-- The view that commands lead to, up to the one that quits, and the size of its window. -/
def shownAfter (shows : View × Winsize) (inputs : List Input) : View × Winsize :=
  (inputs.takeWhile (!·.quits)).foldl (fun shows input => shown input shows) shows

theorem foldlM_of_not_enabled {display : Display} (h : display.enabled = false)
    (inputs : List Input) : inputs.foldlM step display = some display := by
  induction inputs with
  | nil => rfl
  | cons input inputs ih =>
      rw [List.foldlM_cons, step, h]
      exact ih

theorem shown_of_quits {input : Input} (h : input.quits) (shows : View × Winsize) :
    shown input shows = shows := by
  obtain ⟨char, hchar, hmem⟩ := (Option.any_eq_true _ _).mp h
  unfold shown
  rw [hchar]
  obtain rfl | rfl : char = 'Q' ∨ char = 'q' := by simpa using hmem
  all_goals rfl

/-- The rounds of a display that is all right. -/
theorem good_foldlM {display : Display} {shows : View × Winsize}
    (h : Good display shows.1 shows.2) (henabled : display.enabled = true) (inputs : List Input) :
    ∃ display', inputs.foldlM step display = some display' ∧
      display'.enabled = !inputs.any Input.quits ∧
      Good display' (shownAfter shows inputs).1 (shownAfter shows inputs).2 := by
  induction inputs generalizing display shows with
  | nil => exact ⟨display, rfl, henabled, h⟩
  | cons input inputs ih =>
      obtain ⟨display', hstep, henabled', hgood⟩ := good_handleCmds h input
      rw [List.foldlM_cons, step, henabled, if_pos rfl, hstep, Option.map_some]
      rw [henabled, Bool.true_and] at henabled'
      cases hquit : input.quits with
      | false =>
          have hafter : shownAfter shows (input :: inputs) =
              shownAfter (shown input shows) inputs := by
            simp [shownAfter, hquit]
          rw [hafter, List.any_cons, hquit, Bool.false_or]
          exact ih hgood (by rw [henabled', hquit]; rfl)
      | true =>
          -- nothing is read after this
          have hafter : shownAfter shows (input :: inputs) = shows := by
            simp [shownAfter, hquit]
          rw [hquit] at henabled'
          rw [shown_of_quits hquit] at hgood
          rw [hafter, List.any_cons, hquit, Bool.true_or]
          exact ⟨display', foldlM_of_not_enabled henabled' inputs, henabled', hgood⟩

/-- **The commands.** No sequence of commands and sizes makes the display fail; what it draws
is the view they lead to, laid out for the window as it was looked at last; and it goes on
until it is told to quit. -/
theorem screens_refine (winsize : Winsize) (inputs : List Input) :
    ∃ display, run winsize inputs = some display ∧
      display.enabled = !inputs.any Input.quits ∧
      display.winsize = some (shownAfter (.stats .prog, winsize) inputs).2 ∧
      display.content =
        let (view, winsize) := shownAfter (.stats .prog, winsize) inputs
        some (view.content winsize) := by
  obtain ⟨display, hstart, henabled, hgood⟩ :=
    refreshNew_stats { winsize } .prog ({} : Display)
  have hshown : Good display (View.stats .prog, winsize).1 (View.stats .prog, winsize).2 := hgood
  obtain ⟨display', hrun, henabled', hgood'⟩ := good_foldlM hshown henabled inputs
  refine ⟨display', ?_, henabled', ?_, content_of_good hgood'⟩
  · rw [run, startImpl, hstart]
    exact hrun
  · obtain ⟨screen, hwinsize, -⟩ := hgood'
    exact hwinsize

end Display

end SqlalchemyCollectd
